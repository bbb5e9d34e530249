import StDns.Area.Merge

/-!
# A round beside lookups

While a round merges its copy of `net_caches` with the file, lookups on the other thread store areas in the cache
itself; copying, storing and replacing are atomic. What is stored after the copy is not in what replaces the cache,
unless a line of the set has the address anyway. A run loses nothing when that is so for all addresses that are copied
or stored during a round (`lookups_kept`), and an address stored at the wrong time is lost (`lookup_lost`).
-/

namespace StDns.Area

open Lib Utils

/-! ## The steps under `net_lock` -/

/-- How far a round is: none under way, or the file read and the cache copied. -/
inductive Phase where
  | idle
  | copied (content : Bytes) (duplicate : NetCaches)

structure Areas where
  netCaches : NetCaches
  round : Phase := .idle

inductive AreaAction where
  | store (ip : UInt32) (area : Bytes)
  | copy (content : Bytes)
  | skip
  | replace
  deriving DecidableEq

/-- A step of the lookups or of the round; the file may be another in each round, and the set is gone through in any
order. -/
inductive AreaStep : Areas → AreaAction → Areas → Prop
  | store (s : Areas) {ip : UInt32} {area : Bytes} : area ≠ [] →
    AreaStep s (.store ip area) { s with netCaches := s.netCaches.insert ip area }
  | copy (s : Areas) {content : Bytes} : s.round = .idle →
    AreaStep s (.copy content) { s with round := .copied content s.netCaches }
  | skip (s : Areas) {it : Iteration} {content : Bytes} {duplicate : NetCaches} : s.round = .copied content duplicate →
    merge it content duplicate = some none → AreaStep s .skip { s with round := .idle }
  | replace (s : Areas) {it : Iteration} {content fs : Bytes} {duplicate newCaches : NetCaches} :
    s.round = .copied content duplicate → merge it content duplicate = some (some (fs, newCaches)) →
    AreaStep s .replace { netCaches := newCaches }

/-- The runs from a cache whose steps are all allowed in the state before them. -/
inductive AreaRun (allowed : Areas → AreaAction → Prop) (netCaches : NetCaches) : List AreaAction → Areas → Prop
  | start : AreaRun allowed netCaches [] { netCaches := netCaches }
  | next {log : List AreaAction} {s s' : Areas} {action : AreaAction} : AreaRun allowed netCaches log s →
    allowed s action → AreaStep s action s' → AreaRun allowed netCaches (log ++ [action]) s'

/-- Every step. -/
def AnyStep (_ : Areas) (_ : AreaAction) : Prop := True

/-- The address was in the cache, or was stored. -/
def Stored (netCaches : NetCaches) (log : List AreaAction) (ip : UInt32) : Prop :=
  ip ∈ netCaches ∨ ∃ area, .store ip area ∈ log

/-- What is copied or stored during a round is safe: the round brings nothing new, or some line of the set is accepted
for the address. -/
def Sheltered (s : Areas) : AreaAction → Prop
  | .store ip _ => ∀ content duplicate, s.round = .copied content duplicate →
    InFile content duplicate ∨ Covered content duplicate ip
  | .copy content => InFile content s.netCaches ∨ ∀ ip ∈ s.netCaches, Covered content s.netCaches ip
  | .skip => True
  | .replace => True

/-! ## What a run keeps -/

section Runs

variable {allowed : Areas → AreaAction → Prop} {netCaches : NetCaches} {log : List AreaAction} {s s' : Areas}
  {action : AreaAction} {ip : UInt32} {it : Iteration} {older : Bool} {content : Bytes} {r : Round}

theorem stored_append : Stored netCaches (log ++ [action]) ip ↔
    Stored netCaches log ip ∨ ∃ area, action = .store ip area := by
  simp only [Stored, List.mem_append, List.mem_singleton, exists_or, or_assoc, eq_comm]

/-- A round that runs alone is a copy and what follows it. -/
theorem sync_run (h : syncNetAreaIp it older (some content) netCaches = some r) :
    ∃ action, AreaRun AnyStep netCaches [.copy content, action] { netCaches := r.netCaches } := by
  have hcopy : AreaRun AnyStep netCaches [.copy content]
      { netCaches := netCaches, round := .copied content netCaches } :=
    AreaRun.next AreaRun.start trivial (AreaStep.copy _ rfl)
  rw [syncNetAreaIp] at h
  obtain ⟨merged, hmerge, hr⟩ := Option.bind_eq_some_iff.1 h
  cases merged with
  | none =>
    cases hr
    exact ⟨.skip, hcopy.next trivial (AreaStep.skip _ rfl hmerge)⟩
  | some result =>
    cases hr
    exact ⟨.replace, hcopy.next trivial (AreaStep.replace _ rfl hmerge)⟩

/-- Nothing is lost so far, and what a round is going to put in the place of the cache has all that is in it. -/
structure Kept (netCaches : NetCaches) (log : List AreaAction) (s : Areas) : Prop where
  stored : ∀ ip, Stored netCaches log ip → ip ∈ s.netCaches
  sheltered : ∀ content duplicate, s.round = .copied content duplicate →
    InFile content duplicate ∨ ∀ ip ∈ s.netCaches, Covered content duplicate ip

theorem kept_step (h : Kept netCaches log s) (hsheltered : Sheltered s action) (hstep : AreaStep s action s') :
    Kept netCaches (log ++ [action]) s' := by
  cases hstep with
  | store harea =>
    rename_i ip area
    refine ⟨fun ip' hstored => ?_, fun content duplicate hround => ?_⟩
    · rw [AList.mem_insert]
      rcases stored_append.1 hstored with hstored | ⟨area', haction⟩
      · exact .inr (h.stored ip' hstored)
      · cases haction
        exact .inl rfl
    · rcases h.sheltered content duplicate hround with hfile | hcovered
      · exact .inl hfile
      · refine (hsheltered content duplicate hround).imp_right fun hip ip' hmem => ?_
        rcases (AList.mem_insert _).1 hmem with rfl | hmem
        · exact hip
        · exact hcovered ip' hmem
  | copy hidle =>
    refine ⟨fun ip hstored => ?_, ?_⟩
    · rcases stored_append.1 hstored with hstored | ⟨area', haction⟩
      · exact h.stored ip hstored
      · cases haction
    · rintro content duplicate ⟨⟩
      exact hsheltered
  | skip hround hmerge =>
    refine ⟨fun ip hstored => ?_, fun content duplicate hcopied => nomatch hcopied⟩
    rcases stored_append.1 hstored with hstored | ⟨area', haction⟩
    · exact h.stored ip hstored
    · cases haction
  | replace hround hmerge =>
    refine ⟨fun ip hstored => ?_, fun content duplicate hcopied => nomatch hcopied⟩
    rcases stored_append.1 hstored with hstored | ⟨area', haction⟩
    · rw [mem_of_merge hmerge]
      refine (h.sheltered _ _ hround).resolve_left ?_ ip (h.stored ip hstored)
      exact not_inFile_of_merge hmerge
    · cases haction

theorem kept_run (h : AreaRun Sheltered netCaches log s) : Kept netCaches log s := by
  induction h with
  | start =>
    refine ⟨fun ip hstored => hstored.resolve_right ?_, fun content duplicate hcopied => nomatch hcopied⟩
    rintro ⟨area, harea⟩
    exact List.not_mem_nil harea
  | next _ hsheltered hstep ih => exact kept_step ih hsheltered hstep

end Runs

/-- **Beside a round**, no address that was in the cache or was stored is lost, when what is copied or stored during a
round is safe. -/
theorem lookups_kept (netCaches : NetCaches) (log : List AreaAction) (s : Areas)
    (h : AreaRun Sheltered netCaches log s) (ip : UInt32) (hstored : Stored netCaches log ip) : ip ∈ s.netCaches :=
  (kept_run h).stored ip hstored

/-- A cache with one address. -/
def oneArea : NetCaches := AList.singleton 0x01010101 [85, 83]

/-- A round with an empty file leaves its one address. -/
theorem merge_oneArea : merge (Iteration.last []) [] oneArea =
    some (some (recordLine 0x01010101 [85, 83] ++ [newline], oneArea)) := rfl

/-- A file with another address. -/
def otherLine : Bytes := recordLine 0x02020202 [67, 78] ++ [newline]

theorem merge_otherLine : ∃ fs newCaches, merge (Iteration.last []) otherLine oneArea = some (some (fs, newCaches)) :=
  ⟨_, _, rfl⟩

/-- The witness: a round begins with one address in the cache and another in the file, which is stored meanwhile. -/
theorem lookups_kept_at : ∃ s, AreaRun Sheltered oneArea [.copy otherLine, .store 0x02020202 [67, 78], .replace] s ∧
    0x01010101 ∈ s.netCaches ∧ 0x02020202 ∈ s.netCaches := by
  obtain ⟨fs, newCaches, hmerge⟩ := merge_otherLine
  have hcopy : AreaRun Sheltered oneArea [.copy otherLine]
      { netCaches := oneArea, round := .copied otherLine oneArea } := by
    refine AreaRun.next AreaRun.start (.inr fun ip hip => ?_) (AreaStep.copy _ rfl)
    have hkeys : ip ∈ oneArea.keys := AList.mem_keys.1 hip
    rw [oneArea, AList.keys_singleton, List.mem_singleton] at hkeys
    subst hkeys
    exact ⟨recordLine 0x01010101 [85, 83], by decide, [85, 83], by decide⟩
  have hstore : AreaRun Sheltered oneArea [.copy otherLine, .store 0x02020202 [67, 78]]
      { netCaches := oneArea.insert 0x02020202 [67, 78], round := .copied otherLine oneArea } := by
    refine hcopy.next (fun content duplicate hround => .inr ?_) (AreaStep.store _ (by decide))
    cases hround
    exact ⟨recordLine 0x02020202 [67, 78], by decide, [67, 78], by decide⟩
  have hrun : AreaRun Sheltered oneArea [.copy otherLine, .store 0x02020202 [67, 78], .replace]
      { netCaches := newCaches } :=
    hstore.next trivial (AreaStep.replace _ rfl hmerge)
  exact ⟨_, hrun, lookups_kept oneArea _ _ hrun 0x01010101 (.inl (by decide)),
    lookups_kept oneArea _ _ hrun 0x02020202 (.inr ⟨[67, 78], by decide⟩)⟩

/-- An address that is stored between the copy and the replacement is lost. -/
theorem lookup_lost : ¬∀ (netCaches : NetCaches) (log : List AreaAction) (s : Areas),
    AreaRun AnyStep netCaches log s → ∀ ip, Stored netCaches log ip → ip ∈ s.netCaches := by
  intro h
  have hcopy : AreaRun AnyStep oneArea [.copy []] _ := AreaRun.next AreaRun.start trivial (AreaStep.copy _ rfl)
  have hstore : AreaRun AnyStep oneArea [.copy [], .store 0x02020202 [67, 78]] _ :=
    hcopy.next trivial (AreaStep.store _ (by decide))
  have hrun : AreaRun AnyStep oneArea [.copy [], .store 0x02020202 [67, 78], .replace] { netCaches := oneArea } :=
    hstore.next trivial (AreaStep.replace _ rfl merge_oneArea)
  exact absurd (h oneArea _ _ hrun 0x02020202 (.inr ⟨[67, 78], by decide⟩)) (by decide)

end StDns.Area
