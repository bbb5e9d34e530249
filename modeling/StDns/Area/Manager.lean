import StDns.Area.Race
import StDns.Area.Ranges

/-!
# The area manager

`areaip::manager` knows the area of an address from a lookup, from a line of its cache file, or from the ranges of an
area that it has loaded; `is_area_ip` asks for it while lookups, rounds of `sync_net_area_ip` and loads run beside it.
In every run an area that is given has one of these origins, so an address about which nothing is known matches no list
of areas but the empty one, and the ranges of an area stay what they were first loaded as (`areas_of_run`).
-/

namespace StDns.Area

open Lib Utils

/-! ## The source -/

/-- The character `!`. -/
def bang : UInt8 := 33

/-- `toupper` in the C locale. -/
def toUpper (c : UInt8) : UInt8 := if 97 ≤ c ∧ c ≤ 122 then c - 32 else c

/-- `get_area_code`. -/
def getAreaCode (areaReg : Bytes) : Bytes :=
  (if areaReg.head? = some bang then areaReg.tail else areaReg).map toUpper

/-- `is_match_areas`. -/
def isMatchAreas (areas : List Bytes) (area : Bytes) : Bool :=
  areas.any fun areaReg =>
    if areaReg.head? = some bang then area ≠ getAreaCode areaReg else area = getAreaCode areaReg

/-- `is_area_ip` of a list of areas, where `ipArea` is what `get_area` gives. -/
def isAreaIpOf (areas : List Bytes) (ipArea : Bytes) : Bool :=
  if areas = [] then true else if ipArea = defaultArea then false else isMatchAreas areas ipArea

/-- The area code of local addresses. -/
def lan : Bytes := ascii "LAN"

/-- The ranges that the manager begins with. -/
def lanRanges : List AreaRange :=
  [ascii "192.168.0.0/16", ascii "10.0.0.0/8", ascii "172.16.0.0/16", ascii "0.0.0.0/8"].filterMap fun rangeStr =>
    AreaRange.parse rangeStr lan

def startCaches : DefaultCaches := AList.insert lan (lanRanges.map AreaRange.toAreaIpRange) ∅

/-- `load_area_ips`, where `file` is the content of the area file, if there is one or it can be downloaded; nothing when
a line makes `parse` throw. -/
def loadAreaIps (code : Bytes) (file : Option Bytes) (caches : DefaultCaches) : Option (Bool × DefaultCaches) :=
  let areaCode := getAreaCode code
  if areaCode ∈ caches then some (true, caches)
  else
    match file with
    | none => some (false, caches)
    | some content => do
      let ipRanges ← loadRanges content areaCode
      return (true, if ipRanges = [] then caches
        else caches.insert areaCode (ipRanges.map AreaRange.toAreaIpRange))

/-! ## Runs -/

/-- The caches, and the queries that have found nothing in `net_caches` yet. -/
structure AreaManager extends Areas where
  defaultCaches : DefaultCaches
  missed : List UInt32 := []

/-- The manager when it is made: the first round, with an empty cache, leaves it empty. -/
def startManager : AreaManager := { netCaches := ∅, defaultCaches := startCaches }

inductive ManagerEvent where
  | net (action : AreaAction)
  | loaded (code : Bytes) (file : Option Bytes)
  | missed (ip : UInt32)
  | gave (ip : UInt32) (area : Bytes)

/-- The ranges of some area have the address; the map gives its areas in any order. -/
def InRanges (caches : DefaultCaches) (ip : UInt32) (area : Bytes) : Prop :=
  area ∈ caches ∧ isAreaIp area ip caches = true

/-- A lookup or a round does a step, an area is loaded, or `get_area` looks at the one cache, or at the other. -/
inductive ManagerStep : AreaManager → ManagerEvent → AreaManager → Prop
  | net (s : AreaManager) {action : AreaAction} {areas : Areas} : AreaStep s.toAreas action areas →
    ManagerStep s (.net action) { s with toAreas := areas }
  | loaded (s : AreaManager) {code : Bytes} {file : Option Bytes} {ok : Bool} {caches : DefaultCaches} :
    loadAreaIps code file s.defaultCaches = some (ok, caches) →
    ManagerStep s (.loaded code file) { s with defaultCaches := caches }
  | hit (s : AreaManager) {ip : UInt32} {area : Bytes} : ip ≠ 0 → s.netCaches.lookup ip = some area → area ≠ [] →
    ManagerStep s (.gave ip area) s
  | missed (s : AreaManager) {ip : UInt32} : ip ≠ 0 → (s.netCaches.lookup ip).getD [] = [] →
    ManagerStep s (.missed ip) { s with missed := s.missed ++ [ip] }
  | ranged (s : AreaManager) {before after : List UInt32} {ip : UInt32} {area : Bytes} :
    s.missed = before ++ ip :: after → InRanges s.defaultCaches ip area → area ≠ [] →
    ManagerStep s (.gave ip area) { s with missed := before ++ after }
  | unknown (s : AreaManager) {before after : List UInt32} {ip : UInt32} : s.missed = before ++ ip :: after →
    (∀ area, ¬InRanges s.defaultCaches ip area) ∨ InRanges s.defaultCaches ip [] →
    ManagerStep s (.gave ip defaultArea) { s with missed := before ++ after }
  | zero (s : AreaManager) : ManagerStep s (.gave 0 defaultArea) s

inductive ManagerRun (start : AreaManager) : List ManagerEvent → AreaManager → Prop
  | start : ManagerRun start [] start
  | next {log : List ManagerEvent} {s s' : AreaManager} {event : ManagerEvent} : ManagerRun start log s →
    ManagerStep s event s' → ManagerRun start (log ++ [event]) s'

/-- **`get_area`**, when nothing runs beside it, gives what the manager gives. -/
theorem getArea_run (s : AreaManager) (ip : UInt32) :
    ∃ log s', ManagerRun s (log ++ [.gave ip (getArea s.netCaches s.defaultCaches ip)]) s' := by
  by_cases hip : ip = 0
  · subst hip
    exact ⟨[], s, ManagerRun.start.next (.zero s)⟩
  by_cases hnet : (s.netCaches.lookup ip).getD [] = []
  · have hmissed := ManagerRun.start.next (.missed s hip hnet)
    have hgives : getArea s.netCaches s.defaultCaches ip =
        if getAreaDefault ip s.defaultCaches = [] then defaultArea else getAreaDefault ip s.defaultCaches := by
      rw [getArea.eq_def]
      simp only [if_pos hip, if_pos hnet]
    have hsearch : getAreaDefault ip s.defaultCaches =
        (s.defaultCaches.keys.find? fun area => isAreaIp area ip s.defaultCaches).getD [] :=
      if_pos (UInt32.pos_iff_ne_zero.2 hip)
    refine ⟨[.missed ip], { s with missed := s.missed ++ [] }, hmissed.next ?_⟩
    rw [hgives, hsearch]
    cases hfind : s.defaultCaches.keys.find? fun area => isAreaIp area ip s.defaultCaches with
    | none =>
      refine .unknown _ rfl (.inl fun area hranges => ?_)
      exact List.find?_eq_none.1 hfind area hranges.1 hranges.2
    | some area =>
      have htest := List.find?_some hfind
      have hranges : InRanges s.defaultCaches ip area := ⟨List.mem_of_find?_eq_some hfind, htest⟩
      by_cases harea : area = []
      · subst harea
        exact .unknown _ rfl (.inr hranges)
      · rw [Option.getD_some, if_neg harea]
        exact .ranged _ rfl hranges harea
  · obtain ⟨area, hlookup⟩ : ∃ area, s.netCaches.lookup ip = some area := by
      cases hlookup : s.netCaches.lookup ip with
      | none => exact absurd (by rw [hlookup]; rfl) hnet
      | some area => exact ⟨area, rfl⟩
    rw [hlookup] at hnet
    have hgives : getArea s.netCaches s.defaultCaches ip = area := by
      rw [getArea.eq_def]
      simp only [ne_eq, hip, not_false_eq_true, if_pos, hlookup, if_neg hnet]
      rfl
    exact ⟨[], s, ManagerRun.start.next (hgives ▸ .hit s hip hlookup hnet)⟩

/-! ## Where an area comes from -/

/-- A lookup found the area of the address, or a file that a round read has a line with it. -/
def NetOrigin (log : List ManagerEvent) (ip : UInt32) (area : Bytes) : Prop :=
  .net (.store ip area) ∈ log ∨
    ∃ content, .net (.copy content) ∈ log ∧ ∃ line ∈ fileLines content, Accepts line ip area

/-- The ranges of an area: those that the manager begins with, or those of a file that was loaded. -/
def RangesOf (log : List ManagerEvent) (area : Bytes) (ipRanges : List AreaRange) : Prop :=
  (area = lan ∧ ipRanges = lanRanges) ∨
    ∃ code content, .loaded code (some content) ∈ log ∧ area = getAreaCode code ∧
      loadRanges content area = some ipRanges

/-- The address has the area by the net, or by a range of the area. -/
def AreaOrigin (log : List ManagerEvent) (ip : UInt32) (area : Bytes) : Prop :=
  NetOrigin log ip area ∨ ∃ ipRanges, RangesOf log area ipRanges ∧ ∃ r ∈ ipRanges, r.Has ip

section Origins

variable {start s s' : AreaManager} {log log' : List ManagerEvent} {event : ManagerEvent} {ip : UInt32}
  {area code : Bytes} {ipRanges : List AreaRange} {caches : DefaultCaches} {netCaches : NetCaches}

theorem NetOrigin.mono (h : NetOrigin log ip area) : NetOrigin (log ++ log') ip area := by
  rcases h with hstore | ⟨content, hcopy, hline⟩
  · exact .inl (List.mem_append_left _ hstore)
  · exact .inr ⟨content, List.mem_append_left _ hcopy, hline⟩

theorem RangesOf.mono (h : RangesOf log area ipRanges) : RangesOf (log ++ log') area ipRanges := by
  rcases h with hlan | ⟨code, content, hloaded, hranges⟩
  · exact .inl hlan
  · exact .inr ⟨code, content, List.mem_append_left _ hloaded, hranges⟩

/-- The caches of a round: what is there has its origin. -/
def NetKnown (log : List ManagerEvent) (netCaches : NetCaches) : Prop :=
  ∀ ip area, netCaches.lookup ip = some area → NetOrigin log ip area

theorem NetKnown.mono (h : NetKnown log netCaches) : NetKnown (log ++ log') netCaches :=
  fun ip area hlookup => (h ip area hlookup).mono

/-- A line that a round writes itself is read as what it was written for. -/
theorem eq_of_accepts_recordLine {ip' : UInt32} {area' : Bytes} (h : Accepts (recordLine ip area) ip' area') :
    ip = ip' ∧ area = area' := by
  obtain ⟨first, heq, hfirst, harea, hread⟩ := h.eq_append
  obtain ⟨hip, -, rfl⟩ := (List.append_cons_inj_of_notMem hfirst harea).1 heq.symm
  rw [hip, (dottedQuad_ipToStr ip).strToIp, Option.some.injEq] at hread
  exact ⟨hread, rfl⟩

/-- **A round** puts only into the cache what it read or what was there. -/
theorem netKnown_merge {it : Iteration} {content fs : Bytes} {duplicate newCaches : NetCaches}
    (hmerge : merge it content duplicate = some (some (fs, newCaches))) (hknown : NetKnown log duplicate)
    (hcopy : .net (.copy content) ∈ log) : NetKnown log newCaches := by
  intro ip area hlookup
  obtain ⟨-, -, rfl⟩ := (merge_eq_some_iff (not_inFile_of_merge hmerge)).1 hmerge
  obtain ⟨line, hline, haccepts⟩ := mem_acceptedEntries.1 (mem_of_lookup_inserted hlookup)
  rcases mem_finalRecord.1 ((it.perm _).mem_iff.1 hline) with hfile | ⟨ip', area', hlookup', rfl⟩
  · exact .inr ⟨content, hcopy, line, hfile, haccepts⟩
  · obtain ⟨rfl, rfl⟩ := eq_of_accepts_recordLine haccepts
    exact hknown ip' area' hlookup'

/-! ## One step -/

/-- What a run keeps: the caches have their origins, and so has the copy of a round. -/
structure Known (log : List ManagerEvent) (s : AreaManager) : Prop where
  net : NetKnown log s.netCaches
  round : ∀ content duplicate, s.round = .copied content duplicate →
    .net (.copy content) ∈ log ∧ NetKnown log duplicate
  ranges : ∀ area ranges, s.defaultCaches.lookup area = some ranges →
    ∃ ipRanges, RangesOf log area ipRanges ∧ ranges = ipRanges.map AreaRange.toAreaIpRange

theorem Known.mono (h : Known log s) : Known (log ++ log') s := by
  refine ⟨h.net.mono, fun content duplicate hround => ?_, fun area ranges hlookup => ?_⟩
  · obtain ⟨hcopy, hduplicate⟩ := h.round content duplicate hround
    exact ⟨List.mem_append_left _ hcopy, hduplicate.mono⟩
  · obtain ⟨ipRanges, hranges, heq⟩ := h.ranges area ranges hlookup
    exact ⟨ipRanges, hranges.mono, heq⟩

/-- An area that has the address by its ranges has its origin there. -/
theorem Known.origin (h : Known log s) (hranges : InRanges s.defaultCaches ip area) : AreaOrigin log ip area := by
  obtain ⟨hmem, hhas⟩ := hranges
  obtain ⟨ranges, hlookup⟩ := Option.isSome_iff_exists.1 (AList.lookup_isSome.2 hmem)
  obtain ⟨ipRanges, hrangesOf, rfl⟩ := h.ranges area ranges hlookup
  rw [isAreaIp, hlookup, Option.getD_some, List.any_map, List.any_eq_true] at hhas
  obtain ⟨r, hr, htest⟩ := hhas
  obtain ⟨hend, hstart⟩ := of_decide_eq_true htest
  exact .inr ⟨ipRanges, hrangesOf, r, hr, hstart, hend⟩

/-- The steps of `load_area_ips`: all stays as it is, or the ranges of an area are added that was not there. -/
theorem loadAreaIps_cases {file : Option Bytes} {caches' : DefaultCaches} {ok : Bool}
    (h : loadAreaIps code file caches = some (ok, caches')) : caches' = caches ∨
      ∃ content ipRanges, file = some content ∧ getAreaCode code ∉ caches ∧
        loadRanges content (getAreaCode code) = some ipRanges ∧
        caches' = caches.insert (getAreaCode code) (ipRanges.map AreaRange.toAreaIpRange) := by
  by_cases hnew : getAreaCode code ∈ caches
  · have hsame : loadAreaIps code file caches = some (true, caches) := by
      rw [loadAreaIps.eq_def]
      exact if_pos hnew
    rw [hsame] at h
    cases h
    exact .inl rfl
  · rw [loadAreaIps.eq_def] at h
    simp only [if_neg hnew] at h
    cases file with
    | none =>
      cases h
      exact .inl rfl
    | some content =>
      obtain ⟨ipRanges, hranges, hresult⟩ := Option.bind_eq_some_iff.1 h
      cases hresult
      split
      · exact .inl rfl
      · exact .inr ⟨content, ipRanges, rfl, hnew, hranges, rfl⟩

theorem Known.net_step (h : Known log s) {action : AreaAction} {areas : Areas}
    (hstep : AreaStep s.toAreas action areas) :
    Known (log ++ [.net action]) { s with toAreas := areas } := by
  have hkept : Known (log ++ [.net action]) s := h.mono
  have hlast : ManagerEvent.net action ∈ log ++ [.net action] := List.mem_append_right _ (List.mem_singleton_self _)
  cases hstep with
  | @store ip area harea =>
    refine ⟨fun ip' area' hlookup => ?_, hkept.round, hkept.ranges⟩
    by_cases hip : ip' = ip
    · subst hip
      rw [AList.lookup_insert, Option.some.injEq] at hlookup
      exact .inl (hlookup ▸ hlast)
    · rw [AList.lookup_insert_ne hip] at hlookup
      exact hkept.net ip' area' hlookup
  | copy hidle =>
    refine ⟨hkept.net, fun content duplicate hround => ?_, hkept.ranges⟩
    cases hround
    exact ⟨hlast, hkept.net⟩
  | skip hround hmerge => exact ⟨hkept.net, fun content duplicate hcopied => (by cases hcopied), hkept.ranges⟩
  | replace hround hmerge =>
    obtain ⟨hcopy, hduplicate⟩ := hkept.round _ _ hround
    exact ⟨netKnown_merge hmerge hduplicate hcopy, fun content duplicate hcopied => (by cases hcopied), hkept.ranges⟩

theorem Known.loaded (h : Known log s) {file : Option Bytes} {ok : Bool}
    (hload : loadAreaIps code file s.defaultCaches = some (ok, caches)) :
    Known (log ++ [.loaded code file]) { s with defaultCaches := caches } := by
  have hkept : Known (log ++ [.loaded code file]) s := h.mono
  refine ⟨hkept.net, hkept.round, fun area ranges hlookup => ?_⟩
  rcases loadAreaIps_cases hload with rfl | ⟨content, ipRanges, rfl, -, hranges, rfl⟩
  · exact hkept.ranges area ranges hlookup
  · by_cases harea : area = getAreaCode code
    · subst harea
      rw [AList.lookup_insert, Option.some.injEq] at hlookup
      refine ⟨ipRanges, .inr ⟨code, content, ?_, rfl, hranges⟩, hlookup.symm⟩
      exact List.mem_append_right _ (List.mem_singleton_self _)
    · rw [AList.lookup_insert_ne harea] at hlookup
      exact hkept.ranges area ranges hlookup

/-- **One step** keeps the origins. -/
theorem Known.step (h : Known log s) (hstep : ManagerStep s event s') : Known (log ++ [event]) s' := by
  cases hstep with
  | net hnet => exact h.net_step hnet
  | loaded hload => exact h.loaded hload
  | hit hip hlookup hne => exact h.mono
  | missed hip hlookup => exact ⟨h.mono.net, h.mono.round, h.mono.ranges⟩
  | ranged hmissed hranges hne => exact ⟨h.mono.net, h.mono.round, h.mono.ranges⟩
  | unknown hmissed hnone => exact ⟨h.mono.net, h.mono.round, h.mono.ranges⟩
  | zero => exact h.mono

/-- The ranges of an area stay. -/
theorem ranges_step (hstep : ManagerStep s event s') {ranges : List AreaIpRange}
    (h : s.defaultCaches.lookup area = some ranges) : s'.defaultCaches.lookup area = some ranges := by
  cases hstep with
  | loaded hload =>
    rcases loadAreaIps_cases hload with rfl | ⟨content, ipRanges, -, hnew, -, rfl⟩
    · exact h
    · have hne : area ≠ getAreaCode _ := fun heq => hnew (heq ▸ AList.lookup_isSome.1 (by rw [h]; rfl))
      rw [AList.lookup_insert_ne hne]
      exact h
  | _ => exact h

/-! ## Runs -/

theorem known_start : Known [] startManager := by
  refine ⟨fun ip area hlookup => ?_, fun content duplicate hround => (by cases hround), fun area ranges hlookup => ?_⟩
  · rw [show startManager.netCaches = ∅ from rfl, AList.lookup_empty] at hlookup
    cases hlookup
  · by_cases harea : area = lan
    · subst harea
      have hlan : startManager.defaultCaches.lookup lan = some (lanRanges.map AreaRange.toAreaIpRange) :=
        AList.lookup_insert _
      rw [hlan, Option.some.injEq] at hlookup
      exact ⟨lanRanges, .inl ⟨rfl, rfl⟩, hlookup.symm⟩
    · have hnone : startManager.defaultCaches.lookup area = none := AList.lookup_insert_ne harea
      rw [hnone] at hlookup
      cases hlookup

theorem known_of_run (h : ManagerRun startManager log s) : Known log s := by
  induction h with
  | start => exact known_start
  | next _ hstep ih => exact ih.step hstep

theorem ranges_of_run (h : ManagerRun start log s) {ranges : List AreaIpRange}
    (hlookup : start.defaultCaches.lookup area = some ranges) : s.defaultCaches.lookup area = some ranges := by
  induction h with
  | start => exact hlookup
  | next _ hstep ih => exact ranges_step hstep ih

/-- Codes are in capital letters. -/
theorem getAreaCode_ne_defaultArea (code : Bytes) : getAreaCode code ≠ defaultArea := by
  intro h
  have hmem : (100 : UInt8) ∈ getAreaCode code := h ▸ (by decide)
  rw [getAreaCode, List.mem_map] at hmem
  obtain ⟨c, -, hc⟩ := hmem
  rw [toUpper] at hc
  split at hc
  · rename_i hlower
    have hlow := UInt8.le_iff_toNat_le.1 hlower.1
    have hhigh := UInt8.le_iff_toNat_le.1 hlower.2
    have hsub := congrArg UInt8.toNat hc
    rw [UInt8.toNat_sub_of_le _ _ (UInt8.le_iff_toNat_le.2 (Nat.le_trans (by decide) hlow))] at hsub
    simp only [UInt8.reduceToNat] at hlow hhigh hsub
    omega
  · rename_i hlower
    subst hc
    exact hlower (by decide)

/-! ## Answers -/

/-- **An area that is given** has its origin before, or nothing is known. -/
theorem Known.gave (h : Known log s) (hstep : ManagerStep s (.gave ip area) s') :
    area = defaultArea ∨ AreaOrigin log ip area := by
  cases hstep with
  | hit hip hlookup hne => exact .inr (.inl (h.net ip area hlookup))
  | ranged hmissed hranges hne => exact .inr (h.origin hranges)
  | unknown hmissed hnone => exact .inl rfl
  | zero => exact .inl rfl

/-- An area of the ranges is lan, or a code that was loaded. -/
theorem Known.code_of_mem (h : Known log s) (hmem : area ∈ s.defaultCaches) :
    area = lan ∨ ∃ code file, .loaded code file ∈ log ∧ area = getAreaCode code := by
  obtain ⟨ranges, hlookup⟩ := Option.isSome_iff_exists.1 (AList.lookup_isSome.2 hmem)
  obtain ⟨ipRanges, ⟨hlan, -⟩ | ⟨code, content, hloaded, harea, -⟩, -⟩ := h.ranges area ranges hlookup
  · exact .inl hlan
  · exact .inr ⟨code, some content, hloaded, harea⟩

/-- An address in the ranges of an area is not unknown, unless the net calls it so. -/
theorem Known.gave_default (h : Known log s) (hstep : ManagerStep s (.gave ip defaultArea) s') (hip : ip ≠ 0)
    (hranges : InRanges s.defaultCaches ip code) (hcodes : ∀ c file, .loaded c file ∈ log → getAreaCode c ≠ []) :
    NetOrigin log ip defaultArea := by
  have hmem : ∀ {area}, area ∈ s.defaultCaches → area ≠ defaultArea ∧ area ≠ [] := by
    intro area hmem
    rcases h.code_of_mem hmem with rfl | ⟨c, file, hloaded, rfl⟩
    · decide
    · exact ⟨getAreaCode_ne_defaultArea c, hcodes c file hloaded⟩
  cases hstep with
  | hit _ hlookup _ => exact h.net ip _ hlookup
  | ranged hmissed hdefault hne => exact absurd rfl (hmem hdefault.1).1
  | unknown hmissed hnone =>
    rcases hnone with hnone | hempty
    · exact absurd hranges (hnone code)
    · exact absurd rfl (hmem hempty.1).2
  | zero => exact absurd rfl hip

theorem InRanges.of_run (h : ManagerRun start log s) (hranges : InRanges start.defaultCaches ip area) :
    InRanges s.defaultCaches ip area := by
  obtain ⟨hmem, hhas⟩ := hranges
  obtain ⟨ranges, hlookup⟩ := Option.isSome_iff_exists.1 (AList.lookup_isSome.2 hmem)
  have hlater := ranges_of_run h hlookup
  refine ⟨AList.lookup_isSome.1 (by rw [hlater]; rfl), ?_⟩
  rw [isAreaIp, hlater, ← hlookup]
  exact hhas

theorem ManagerRun.append (h : ManagerRun start log s) (h' : ManagerRun s log' s') :
    ManagerRun start (log ++ log') s' := by
  induction h' with
  | start =>
    rw [List.append_nil]
    exact h
  | next _ hstep ih =>
    rw [← List.append_assoc]
    exact ih.next hstep

/-- The states around an event of a run. -/
theorem ManagerRun.split {after : List ManagerEvent} (h : ManagerRun start log s)
    (hlog : log = log' ++ event :: after) : ∃ mid mid', ManagerRun start log' mid ∧ ManagerStep mid event mid' := by
  induction h generalizing after with
  | start => simp at hlog
  | next hrun hstep ih =>
    rcases List.eq_nil_or_concat after with rfl | ⟨init, last, rfl⟩
    · obtain ⟨rfl, heq⟩ := List.append_inj' hlog rfl
      cases heq
      exact ⟨_, _, hrun, hstep⟩
    · rw [List.concat_eq_append, ← List.cons_append, ← List.append_assoc] at hlog
      exact ih (List.append_inj' hlog rfl).1

end Origins

/-- **Areas**: in every run of the manager an area that `get_area` gives comes from a lookup, a line of the cache file
or the ranges of an area, all before, or is `default`; so where nothing is known `is_area_ip` accepts the address for
the empty list only, whatever is negated. An address, not 0.0.0.0, that is in the ranges of an area once is not given as
`default` later, unless that is what the net calls its area, or an area with an empty code is loaded. -/
theorem areas_of_run (before between after : List ManagerEvent) (known s : AreaManager) (ip : UInt32)
    (area : Bytes) (hknown : ManagerRun startManager before known)
    (hrun : ManagerRun known (between ++ .gave ip area :: after) s) :
    (area = defaultArea ∨ AreaOrigin (before ++ between) ip area) ∧
    (∀ areas, isAreaIpOf areas area = true → areas = [] ∨
      (AreaOrigin (before ++ between) ip area ∧ isMatchAreas areas area = true)) ∧
    (∀ code, ip ≠ 0 → InRanges known.defaultCaches ip code →
      (∀ c file, .loaded c file ∈ before ++ between → getAreaCode c ≠ []) → area = defaultArea →
      NetOrigin (before ++ between) ip area) := by
  obtain ⟨mid, mid', hmid, hstep⟩ := hrun.split rfl
  have hthere := known_of_run (hknown.append hmid)
  refine ⟨hthere.gave hstep, fun areas hmatch => ?_, fun code hip hranges hcodes hdefault => ?_⟩
  · rw [isAreaIpOf] at hmatch
    split at hmatch
    · rename_i hempty
      exact .inl hempty
    · split at hmatch
      · cases hmatch
      · rename_i hdefault
        exact .inr ⟨(hthere.gave hstep).resolve_left hdefault, hmatch⟩
  · subst hdefault
    exact hthere.gave_default hstep hip (hranges.of_run hmid) hcodes

/-- A file with the range `1.0.0.0/8`. -/
def oneRange : Bytes := ascii "1.0.0.0/8"

theorem loadAreaIps_oneRange (h : ascii "CN" ∉ startCaches) : loadAreaIps (ascii "cn") (some oneRange) startCaches =
    some (true, startCaches.insert (ascii "CN") [⟨16777216, 33554431⟩]) := by
  have hcode : getAreaCode (ascii "cn") = ascii "CN" := by decide
  have hranges : loadRanges oneRange (ascii "CN") = some [⟨⟨16777216, 33554431⟩, ascii "CN"⟩] := by decide
  rw [loadAreaIps.eq_def]
  simp only [hcode, if_neg h, hranges]
  rfl

/-- The manager when the file is loaded. -/
def oneLoaded : AreaManager :=
  { startManager with defaultCaches := startCaches.insert (ascii "CN") [⟨16777216, 33554431⟩] }

theorem run_loaded : ManagerRun startManager [.loaded (ascii "cn") (some oneRange)] oneLoaded ∧
    InRanges oneLoaded.defaultCaches 16909060 (ascii "CN") := by
  have hnew : ascii "CN" ∉ startCaches := by
    rw [startCaches, AList.mem_insert]
    rintro (h | h)
    · exact absurd h (by decide)
    · exact AList.notMem_empty _ h
  refine ⟨ManagerRun.start.next (.loaded startManager (loadAreaIps_oneRange hnew)), ?_, ?_⟩
  · exact (AList.mem_insert _).2 (.inl rfl)
  · rw [oneLoaded, isAreaIp, AList.lookup_insert]
    decide

/-- The address is in the ranges. -/
theorem run_ranged : ∃ s, ManagerRun oneLoaded ([.missed 16909060] ++ [.gave 16909060 (ascii "CN")]) s := by
  have hnet : (oneLoaded.netCaches.lookup 16909060).getD [] = [] := by
    rw [show oneLoaded.netCaches = ∅ from rfl, AList.lookup_empty]
    rfl
  refine ⟨oneLoaded, (ManagerRun.start.next (.missed _ (by decide) hnet)).next ?_⟩
  exact .ranged _ (show _ = [] ++ _ :: [] from rfl) run_loaded.2 (by decide)

/-- A lookup calls it `default`. -/
theorem run_called : ∃ s, ManagerRun oneLoaded
    ([.net (.store 16909060 defaultArea)] ++ [.gave 16909060 defaultArea]) s := by
  have hstored := ManagerRun.start.next
    (.net oneLoaded (@AreaStep.store oneLoaded.toAreas 16909060 defaultArea (by decide)))
  exact ⟨_, hstored.next (.hit _ (by decide) (AList.lookup_insert _) (by decide))⟩

theorem areas_of_run_at :
    AreaOrigin [.loaded (ascii "cn") (some oneRange), .missed 16909060] 16909060 (ascii "CN") ∧
    NetOrigin [.loaded (ascii "cn") (some oneRange), .net (.store 16909060 defaultArea)] 16909060 defaultArea := by
  obtain ⟨hknown, hranges⟩ := run_loaded
  constructor
  · obtain ⟨s, hrun⟩ := run_ranged
    obtain ⟨-, hmatches, -⟩ := areas_of_run _ _ [] oneLoaded s 16909060 (ascii "CN") hknown hrun
    exact ((hmatches [ascii "!us"] (by decide)).resolve_left (by simp)).1
  · obtain ⟨s, hrun⟩ := run_called
    obtain ⟨-, -, hnet⟩ := areas_of_run _ _ [] oneLoaded s 16909060 defaultArea hknown hrun
    refine hnet (ascii "CN") (by decide) hranges (fun c file hloaded => ?_) rfl
    simp only [List.mem_append, List.mem_singleton, ManagerEvent.loaded.injEq, reduceCtorEq, or_false] at hloaded
    rw [hloaded.1]
    decide

end StDns.Area
