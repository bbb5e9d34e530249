import StDns.Store.Views
import Mathlib.Algebra.Order.BigOperators.Group.List

/-!
# What the statistics count

The loop of `transform` counts an address when it takes it or when it does not match, and `stats` adds the counts of all
stored names. The counts of a name are right, and so are the sums as long as they fit; but `trusted_ip` is kept in 16
bits, so the statistics are right iff fewer than 65536 addresses are trusted in all (`stats_exact_iff`).
-/

namespace StDns.Store

open Lib Protocol Proto Server

/-! ## The counts of a name -/

/-- The addresses that are served when they match. -/
def trustedOf (record : DnsRecord) : Nat := if record.matchArea = true then record.ips.length else 0

section Counts

variable {o : Outside} {config : Config} {now : Nat} {records : Records} {record : DnsRecord}
  {servers : List RemoteDnsServer} {items : List DnsIpRecord}

/-- The counters say what was taken, and that `k` more were counted. -/
structure Picking.Counting (p : Picking) (k : Nat) : Prop where
  trusted : p.trustedIpCount = UInt32.ofNat p.picked.length
  total : p.totalIpCount = UInt32.ofNat (p.picked.length + k)

/-- A round of the first loop counts what it takes, and what does not match. -/
theorem Picking.Counting.round {p : Picking} {k : Nat} (h : p.Counting k) {item : DnsIpRecord}
    (hforbid : item.forbid = false) : (p.trusted item).Counting (k + if !item.matchArea then 1 else 0) := by
  by_cases hmatch : item.matchArea = true
  · rw [if_neg (by simp [hmatch]), Nat.add_zero, Picking.trusted, if_pos ⟨hmatch, by simp [hforbid]⟩]
    split_ifs
    · exact h
    · exact h
    · constructor
      · rw [List.length_append, List.length_singleton, UInt32.ofNat_add, h.trusted]
        rfl
      · rw [List.length_append, List.length_singleton, Nat.add_right_comm, UInt32.ofNat_add, h.total]
        rfl
  · rw [if_pos (by simp [hmatch]), Picking.trusted, if_neg fun hboth => hmatch hboth.1]
    refine ⟨h.trusted, ?_⟩
    rw [← Nat.add_assoc, UInt32.ofNat_add, ← h.total]
    rfl

/-- The counters of the first loop. -/
theorem Picking.Counting.foldl (hforbid : ∀ item ∈ items, item.forbid = false) {p : Picking} {k : Nat}
    (h : p.Counting k) :
    (items.foldl Picking.trusted p).Counting (k + items.countP fun item => !item.matchArea) := by
  induction items generalizing p k with
  | nil => exact h
  | cons x items ih =>
    obtain ⟨hx, hitems⟩ := List.forall_mem_cons.1 hforbid
    rw [List.foldl_cons, List.countP_cons, Nat.add_comm (items.countP _), ← Nat.add_assoc]
    exact ih hitems (h.round hx)

theorem foldl_any_counts (items : List DnsIpRecord) (p : Picking) :
    (items.foldl Picking.any p).trustedIpCount = p.trustedIpCount ∧
      (items.foldl Picking.any p).totalIpCount = p.totalIpCount := by
  induction items generalizing p with
  | nil => exact ⟨rfl, rfl⟩
  | cons x items ih =>
    have hround : (p.any x).trustedIpCount = p.trustedIpCount ∧ (p.any x).totalIpCount = p.totalIpCount := by
      unfold Picking.any
      split <;> exact ⟨rfl, rfl⟩
    rw [List.foldl_cons, (ih (p.any x)).1, (ih (p.any x)).2]
    exact hround

/-- Taking leaves at most as many as there are. -/
theorem length_takeNew_le (items : List DnsIpRecord) (picked : List DnsIpRecord) :
    (takeNew picked items).length ≤ picked.length + items.length := by
  induction items generalizing picked with
  | nil => exact Nat.le_refl _
  | cons x items ih =>
    rw [takeNew_cons, List.length_cons]
    refine (ih _).trans ?_
    split
    · omega
    · rw [List.length_append, List.length_singleton]
      omega

/-- The counters of both loops are those of the first. -/
theorem pick_counts (items : List DnsIpRecord) :
    (pick items).trustedIpCount = (items.foldl Picking.trusted {}).trustedIpCount ∧
      (pick items).totalIpCount = (items.foldl Picking.trusted {}).totalIpCount := by
  simp only [pick]
  split
  · exact foldl_any_counts items _
  · exact ⟨rfl, rfl⟩

theorem length_recordOf_ips {ids : List Bytes} {domain : Bytes} (items : List DnsIpRecord) :
    (recordOf o domain ids items).ips.length = (pick items).picked.length := by
  rw [recordOf_ips, List.length_map, (o.shuffle_perm _).length_eq, Picking.ips, List.length_map]

theorem recordOf_counts {ids : List Bytes} {domain : Bytes} (items : List DnsIpRecord) :
    (recordOf o domain ids items).trustedIpCount = (pick items).trustedIpCount ∧
      (recordOf o domain ids items).totalIpCount = (pick items).totalIpCount := by
  unfold recordOf
  split <;> exact ⟨rfl, rfl⟩

/-- What the first loop takes is served when it matches, and what is served is counted. -/
theorem trustedOf_recordOf {map : ServerMap} {ids : List Bytes} {domain : Bytes}
    (hitems : o.sort (collect o now map servers 0) = items) :
    trustedOf (recordOf o domain ids items) = (items.foldl Picking.trusted {}).picked.length ∧
      (recordOf o domain ids items).ips.length ≤
        trustedOf (recordOf o domain ids items) + items.countP fun item => !item.matchArea := by
  rw [trustedOf, length_recordOf_ips]
  cases items with
  | nil => exact ⟨rfl, Nat.le_refl _⟩
  | cons first rest =>
    obtain ⟨server, -, -, -, -, hid, -, hforbid, -⟩ := item_given ((mem_of_sort hitems first).1 List.mem_cons_self)
    change (if first.matchArea = true then _ else 0) = _ ∧ _ ≤ (if first.matchArea = true then _ else 0) + _
    by_cases hmatch : first.matchArea = true
    · rw [if_pos hmatch, pick_of_match hmatch hforbid (hid ▸ server.id_ne_nil)]
      exact ⟨rfl, Nat.le_add_right _ _⟩
    · have hnone : ∀ item ∈ first :: rest, item.matchArea = false := by
        intro item hitem
        have hitem' := (mem_of_sort hitems item).1 hitem
        exact unmatched_of_first hitems (Bool.eq_false_iff.2 hmatch) item hitem'
      have hall : (first :: rest).countP (fun item => !item.matchArea) = (first :: rest).length :=
        List.countP_eq_length.2 fun item hitem => by simp [hnone item hitem]
      rw [if_neg hmatch, foldl_trusted_none hnone, picked_of_none hnone, hall, Nat.zero_add]
      refine ⟨rfl, (length_takeNew_le _ _).trans ?_⟩
      rw [List.length_nil, Nat.zero_add]

variable (o config now records) in
/-- The addresses that selected servers gave and that do not match. -/
def othersOf : Nat :=
  match selectServers o.regexMatch records.domain config.servers with
  | some servers => (collect o now records.map servers 0).countP fun item => !item.matchArea
  | none => 0

/-- **The counts of a name**, as far as they fit. -/
theorem counts_of_transform (h : transform o config now records = some record) :
    record.trustedIpCount = UInt32.ofNat (trustedOf record) ∧
      record.totalIpCount = UInt32.ofNat (trustedOf record + othersOf o config now records) ∧
      record.ips.length ≤ trustedOf record + othersOf o config now records := by
  obtain ⟨servers, hselect, hrecord⟩ := Option.bind_eq_some_iff.1 h
  cases hrecord
  obtain ⟨htaken, hserved⟩ := @trustedOf_recordOf o now servers _ records.map
    (serversOf (collect o now records.map servers 0)) records.domain rfl
  have hforbid : ∀ item ∈ o.sort (collect o now records.map servers 0), item.forbid = false := by
    intro item hitem
    obtain ⟨-, -, -, -, -, -, -, hforbid, -⟩ := item_given ((mem_sorted item).1 hitem)
    exact hforbid
  have hothers : othersOf o config now records =
      (o.sort (collect o now records.map servers 0)).countP fun item => !item.matchArea := by
    rw [othersOf, hselect]
    exact ((o.sort_perm _).countP_eq _).symm
  have hcounting := Picking.Counting.foldl hforbid (show ({} : Picking).Counting 0 from ⟨rfl, rfl⟩)
  rw [(recordOf_counts _).1, (recordOf_counts _).2, (pick_counts _).1, (pick_counts _).2, hcounting.trusted,
    hcounting.total, hothers, Nat.zero_add, htaken]
  rw [htaken] at hserved
  exact ⟨rfl, rfl, hserved⟩

end Counts

/-! ## The sums -/

section Sums

variable (P : Protobuf) (o : Outside) (config : Config) (now : Nat) (m : Manager)

/-- The messages of the stored names. -/
def storedRecords (entries : List (Bytes × Bytes)) : List Records :=
  (entries.map fun e => P.parseRecords e.2).filter fun records => records.domain ≠ []

/-- What a stored name adds to a count of its record. -/
def addedBy (count : DnsRecord → Nat) (records : Records) : Nat := ((transform o config now records).map count).getD 0

/-- The statistics as they should be. -/
structure Sums where
  totalDomain : Nat
  trustedDomain : Nat
  totalIp : Nat
  trustedIp : Nat
  deriving DecidableEq

/-- The sums over some messages. -/
def sumsOf (stored : List Records) : Sums where
  totalDomain := stored.length
  trustedDomain := (stored.map (addedBy o config now fun record => record.matchArea.toNat)).sum
  totalIp := (stored.map fun records =>
    addedBy o config now (fun record => trustedOf record + othersOf o config now records) records).sum
  trustedIp := (stored.map (addedBy o config now trustedOf)).sum

/-- The sums over the stored names. -/
def sums : Sums := sumsOf o config now (storedRecords P (DiskKv.list P now m.db))

/-- No sum is over 32 bits. -/
structure Sums.Fit (s : Sums) : Prop where
  totalDomain : s.totalDomain < 2 ^ 32
  trustedDomain : s.trustedDomain < 2 ^ 32
  totalIp : s.totalIp < 2 ^ 32
  trustedIp : s.trustedIp < 2 ^ 32

/-- Statistics with the sums added to their fields, which have the widths that they have. -/
def Sums.onto (s : Sums) (init : DnsRecordStats) : DnsRecordStats where
  totalDomain := init.totalDomain + UInt32.ofNat s.totalDomain
  trustedDomain := init.trustedDomain + UInt32.ofNat s.trustedDomain
  totalIp := init.totalIp + UInt32.ofNat s.totalIp
  trustedIp := init.trustedIp + UInt16.ofNat s.trustedIp

variable {P o config now m} {entries : List (Bytes × Bytes)} {init s : DnsRecordStats} {records : Records}
  {record : DnsRecord}

theorem addedBy_eq (h : transform o config now records = some record) (count : DnsRecord → Nat) :
    addedBy o config now count records = count record := by rw [addedBy, h, Option.map_some, Option.getD_some]

/-- One name more is added in front. -/
theorem onto_cons (h : transform o config now records = some record) (stored : List Records) :
    (sumsOf o config now (records :: stored)).onto init = (sumsOf o config now stored).onto (init.add record) := by
  obtain ⟨htrusted, htotal, -⟩ := counts_of_transform h
  simp only [Sums.onto, sumsOf, DnsRecordStats.add, List.length_cons, List.map_cons, List.sum_cons, addedBy_eq h,
    DnsRecordStats.mk.injEq, htrusted, htotal, UInt32.toUInt16_ofNat', UInt32.ofNat_add, UInt16.ofNat_add,
    UInt32.add_assoc, UInt16.add_assoc, and_true]
  constructor
  · rw [UInt32.add_comm (UInt32.ofNat _) (UInt32.ofNat 1)]
    rfl
  · cases record.matchArea with
    | true => rw [if_pos rfl, UInt32.add_assoc]; rfl
    | false =>
      have hzero : UInt32.ofNat false.toNat = 0 := rfl
      rw [if_neg Bool.false_ne_true, hzero, UInt32.zero_add]

/-- The accumulation, from any statistics on. -/
theorem foldlM_addStats
    (h : entries.foldlM (fun stats e => addStats P o config now stats e.2) init = some s) :
    s = (sumsOf o config now (storedRecords P entries)).onto init ∧
      ∀ records ∈ storedRecords P entries, ∃ record, transform o config now records = some record := by
  induction entries generalizing init with
  | nil =>
    cases h
    simp [storedRecords, sumsOf, Sums.onto]
  | cons e entries ih =>
    rw [List.foldlM_cons] at h
    obtain ⟨next, hnext, hrest⟩ := Option.bind_eq_some_iff.1 h
    obtain ⟨hs, hall⟩ := ih hrest
    by_cases hname : (P.parseRecords e.2).domain = []
    · have hskip : storedRecords P (e :: entries) = storedRecords P entries := by
        rw [storedRecords, List.map_cons, List.filter_cons_of_neg (by simpa using hname)]
        rfl
      simp only [addStats, hname, ne_eq, not_true_eq_false, if_false, Option.pure_def, Option.some.injEq] at hnext
      rw [hskip, hnext]
      exact ⟨hs, hall⟩
    · have htake : storedRecords P (e :: entries) = P.parseRecords e.2 :: storedRecords P entries := by
        rw [storedRecords, List.map_cons, List.filter_cons_of_pos (by simpa using hname)]
        rfl
      simp only [addStats, hname, ne_eq, not_false_eq_true, if_true] at hnext
      obtain ⟨record, hrecord, hnext⟩ := Option.bind_eq_some_iff.1 hnext
      cases hnext
      rw [htake, onto_cons hrecord]
      exact ⟨hs, List.forall_mem_cons.2 ⟨⟨record, hrecord⟩, hall⟩⟩

/-- What is added is in the sum. -/
theorem addedBy_le_sum {stored : List Records} (hmem : records ∈ stored)
    (h : transform o config now records = some record) (count : DnsRecord → Nat) :
    count record ≤ (stored.map (addedBy o config now count)).sum := by
  rw [← addedBy_eq h count]
  exact List.le_sum_of_mem (List.mem_map_of_mem hmem)

/-- The trusted addresses are counted, and the matching names. -/
theorem sums_le : (sums P o config now m).trustedIp ≤ (sums P o config now m).totalIp ∧
    (sums P o config now m).trustedDomain ≤ (sums P o config now m).totalDomain := by
  simp only [sums, sumsOf]
  constructor
  · refine List.sum_le_sum fun records _ => ?_
    cases h : transform o config now records with
    | none => simp [addedBy, h]
    | some record =>
      rw [addedBy_eq h, addedBy_eq h]
      exact Nat.le_add_right _ _
  · have hone : ∀ n ∈ (storedRecords P (DiskKv.list P now m.db)).map
        (addedBy o config now fun record => record.matchArea.toNat), n ≤ 1 := by
      intro n hn
      obtain ⟨records, -, rfl⟩ := List.mem_map.1 hn
      cases h : transform o config now records with
      | none => simp [addedBy, h]
      | some record =>
        rw [addedBy_eq h]
        exact Bool.toNat_le _
    have hsum := List.sum_le_card_nsmul _ 1 hone
    rwa [List.length_map, Nat.nsmul_eq_mul, Nat.mul_one] at hsum

/-- A name that is stored under itself is served from the message that the statistics read. -/
theorem resolve_of_listed {e : Bytes × Bytes} (he : e ∈ DiskKv.list P now m.db)
    (hkey : (P.parseRecords e.2).domain = e.1) (hname : (P.parseRecords e.2).domain ≠ [])
    (h : transform o config now (P.parseRecords e.2) = some record) :
    ∃ m', resolve P o config now m e.1 = some (record, m') := by
  have hget : (DiskKv.get P now m.db e.1).1 = e.2 := by rw [get_eq, mem_list_iff.1 he, Option.getD_some]
  have hne : e.2 ≠ [] := by
    intro hnil
    have hempty := (P.records_inverse {}).1
    rw [P.records_empty] at hempty
    rw [hnil, hempty] at hname
    exact hname rfl
  have hread : (m.getDnsRecordsPb P now e.1).1 = P.parseRecords e.2 := by
    simp only [Manager.getDnsRecordsPb, hget, if_pos hne]
    rw [← hkey]
  refine ⟨(m.getDnsRecordsPb P now e.1).2, ?_⟩
  change (do
    let record ← transform o config now (m.getDnsRecordsPb P now e.1).1
    return (record, (m.getDnsRecordsPb P now e.1).2)) = _
  rw [hread, h]
  rfl

variable (P o config now m) in
/-- What the statistics are to say of a stored name, and `resolve` of it. -/
structure Counted (e : Bytes × Bytes) (record : DnsRecord) : Prop where
  reported : transform o config now (P.parseRecords e.2) = some record
  trusted : record.trustedIpCount.toNat = trustedOf record
  total : record.totalIpCount.toNat = trustedOf record + othersOf o config now (P.parseRecords e.2)
  served : record.ips.length ≤ record.totalIpCount.toNat
  resolved : (P.parseRecords e.2).domain = e.1 → ∃ m', resolve P o config now m e.1 = some (record, m')

/-- The fields are the sums. -/
structure Exact (s : DnsRecordStats) (sums : Sums) : Prop where
  totalDomain : s.totalDomain.toNat = sums.totalDomain
  trustedDomain : s.trustedDomain.toNat = sums.trustedDomain
  totalIp : s.totalIp.toNat = sums.totalIp
  trustedIp : s.trustedIp.toNat = sums.trustedIp

/-- **A stored name** is counted as it should be when the sums fit. -/
theorem counted_of_fit (hfit : (sums P o config now m).Fit) {e : Bytes × Bytes} (he : e ∈ DiskKv.list P now m.db)
    (hname : (P.parseRecords e.2).domain ≠ []) (h : transform o config now (P.parseRecords e.2) = some record) :
    Counted P o config now m e record := by
  have hmem : P.parseRecords e.2 ∈ storedRecords P (DiskKv.list P now m.db) :=
    List.mem_filter.2 ⟨List.mem_map.2 ⟨e, he, rfl⟩, by simpa using hname⟩
  obtain ⟨htrusted, htotal, hserved⟩ := counts_of_transform h
  have htotalLe : trustedOf record + othersOf o config now (P.parseRecords e.2) ≤ (sums P o config now m).totalIp := by
    have hle := List.le_sum_of_mem (List.mem_map_of_mem (f := fun records => addedBy o config now
      (fun record => trustedOf record + othersOf o config now records) records) hmem)
    rwa [addedBy_eq h] at hle
  have htrustedLe := addedBy_le_sum hmem h trustedOf
  have hcount : record.trustedIpCount.toNat = trustedOf record := by
    rw [htrusted, UInt32.toNat_ofNat', Nat.mod_eq_of_lt (htrustedLe.trans_lt hfit.trustedIp)]
  have hcounts : record.totalIpCount.toNat = trustedOf record + othersOf o config now (P.parseRecords e.2) := by
    rw [htotal, UInt32.toNat_ofNat', Nat.mod_eq_of_lt (htotalLe.trans_lt hfit.totalIp)]
  exact ⟨h, hcount, hcounts, hcounts ▸ hserved, fun hkey => resolve_of_listed he hkey hname h⟩

/-- **The statistics** of a store whose sums fit in 32 bits are right iff the trusted addresses fit in 16. -/
theorem stats_exact_iff (h : stats P o config now m = some s) (hfit : (sums P o config now m).Fit) :
    ((∀ e ∈ DiskKv.list P now m.db, (P.parseRecords e.2).domain ≠ [] → ∃ record, Counted P o config now m e record) ∧
      Exact s (sums P o config now m) ∧ s.trustedIp.toNat ≤ s.totalIp.toNat ∧ s.trustedDomain ≤ s.totalDomain) ↔
    (sums P o config now m).trustedIp < 2 ^ 16 := by
  obtain ⟨rfl, hall⟩ := foldlM_addStats h
  obtain ⟨hips, hdomains⟩ := @sums_le P o config now m
  have hwide : ∀ n < 2 ^ 32, ((0 : UInt32) + UInt32.ofNat n).toNat = n := by
    intro n hn
    rw [UInt32.zero_add, UInt32.toNat_ofNat', Nat.mod_eq_of_lt hn]
  have htrusted : ((0 : UInt16) + UInt16.ofNat (sums P o config now m).trustedIp).toNat =
      (sums P o config now m).trustedIp % 2 ^ 16 := by rw [UInt16.zero_add, UInt16.toNat_ofNat']
  constructor
  · rintro ⟨-, hexact, -⟩
    rw [← hexact.trustedIp]
    exact UInt16.toNat_lt _
  · intro hlt
    rw [Nat.mod_eq_of_lt hlt] at htrusted
    have hexact : Exact ((sums P o config now m).onto {}) (sums P o config now m) :=
      ⟨hwide _ hfit.totalDomain, hwide _ hfit.trustedDomain, hwide _ hfit.totalIp, htrusted⟩
    refine ⟨fun e he hname => ?_, hexact, ?_, ?_⟩
    · obtain ⟨record, hrecord⟩ := hall _ (List.mem_filter.2 ⟨List.mem_map.2 ⟨e, he, rfl⟩, by simpa using hname⟩)
      exact ⟨record, counted_of_fit hfit he hname hrecord⟩
    · rw [← hexact.trustedIp, ← hexact.totalIp] at hips
      exact hips
    · rw [← hexact.trustedDomain, ← hexact.totalDomain] at hdomains
      rw [UInt32.le_iff_toNat_le]
      exact hdomains

end Sums

/-! ## A store with one name -/

/-- Some addresses of one name, from the upstream of `oneServer`. -/
def oneName (ips : List UInt32) : Records :=
  { domain := [97], map := AList.singleton oneId { expire := 60, ips := ips } }

/-- A manager that stores them. -/
def nameManager (ips : List UInt32) : Manager where
  db := AList.singleton [97] (wire.serializeValue { expire := 0, data := wire.serializeRecords (oneName ips) })

section OneName

variable {ips : List UInt32}

theorem list_nameManager : DiskKv.list wire 0 (nameManager ips).db = [([97], wire.serializeRecords (oneName ips))] := by
  have hlive : notExpired 0 { expire := 0, data := wire.serializeRecords (oneName ips) } := .inl rfl
  have hentries : (nameManager ips).db.entries =
      [⟨[97], wire.serializeValue { expire := 0, data := wire.serializeRecords (oneName ips) }⟩] := rfl
  rw [DiskKv.list, hentries, List.mergeSort_singleton]
  simp only [List.filterMap_cons, List.filterMap_nil, wire.value_inverse, if_pos hlive]

theorem domain_oneName : (wire.parseRecords (wire.serializeRecords (oneName ips))).domain = [97] :=
  (wire.records_inverse (oneName ips)).1

/-- All of them are served when they match. -/
theorem transform_oneName (hne : ips ≠ []) (hnodup : ips.Nodup) : ∃ record,
    transform (plainOutside fun _ _ => true) oneServer 0 (wire.parseRecords (wire.serializeRecords (oneName ips))) =
      some record ∧ record.matchArea = true ∧ record.ips.length = ips.length := by
  have hmap := (wire.records_inverse (oneName ips)).2
  have hselect : selectServers (plainOutside fun _ _ => true).regexMatch
      (wire.parseRecords (wire.serializeRecords (oneName ips))).domain oneServer.servers = some oneServer.servers := by
    rw [domain_oneName]
    decide
  obtain ⟨record, hrecord, hmerges⟩ := transform_merges _ oneServer 0 _ _ hselect (by decide)
  have hgave : ∀ server ∈ oneServer.servers, ∀ ip, GaveMatching (plainOutside fun _ _ => true)
      (wire.parseRecords (wire.serializeRecords (oneName ips))).map server ip ↔ ip ∈ ips := by
    intro server hserver ip
    obtain rfl := List.mem_singleton.1 hserver
    rw [GaveMatching, Gave, hmap]
    constructor
    · rintro ⟨⟨entry, hentry, hip⟩, -⟩
      cases hentry
      exact hip
    · exact fun hip => ⟨⟨_, rfl, hip⟩, rfl⟩
  obtain ⟨ip, hip⟩ := List.exists_mem_of_ne_nil ips hne
  obtain ⟨hmatch, -, hmem⟩ := hmerges.matching [] _ [] rfl nofun ⟨ip, (hgave _ List.mem_cons_self ip).2 hip⟩
  have hperm : record.ips.Perm (ips.map UInt32.toNat) := by
    rw [List.perm_ext_iff_of_nodup hmerges.nodup (hnodup.map fun _ _ h => UInt32.toNat_inj.1 h)]
    intro n
    rw [hmem, List.mem_map]
    constructor
    · rintro ⟨server, hserver, ip, -, hgiven, rfl⟩
      exact ⟨ip, (hgave server hserver ip).1 hgiven, rfl⟩
    · rintro ⟨ip, hip, rfl⟩
      exact ⟨_, List.mem_cons_self, ip, rfl, (hgave _ List.mem_cons_self ip).2 hip, rfl⟩
  exact ⟨record, hrecord, hmatch, by rw [hperm.length_eq, List.length_map]⟩

theorem othersOf_all (config : Config) (now : Nat) (records : Records) :
    othersOf (plainOutside fun _ _ => true) config now records = 0 := by
  unfold othersOf
  split
  · rw [List.countP_eq_zero]
    intro item hitem
    obtain ⟨server, -, entry, -, -, -, harea, -⟩ := item_given hitem
    rw [harea]
    exact Bool.false_ne_true
  · rfl

theorem sums_oneName (hne : ips ≠ []) (hnodup : ips.Nodup) :
    sums wire (plainOutside fun _ _ => true) oneServer 0 (nameManager ips) =
      { totalDomain := 1, trustedDomain := 1, totalIp := ips.length, trustedIp := ips.length } := by
  obtain ⟨record, hrecord, hmatch, hlen⟩ := transform_oneName hne hnodup
  have hname : (wire.parseRecords (wire.serializeRecords (oneName ips))).domain ≠ [] := by
    rw [domain_oneName]
    decide
  have hstored : storedRecords wire (DiskKv.list wire 0 (nameManager ips).db) =
      [wire.parseRecords (wire.serializeRecords (oneName ips))] := by
    rw [list_nameManager, storedRecords]
    exact List.filter_cons_of_pos (by simpa using hname)
  simp only [sums, sumsOf, hstored, List.length_singleton, List.map_singleton, List.sum_singleton, addedBy_eq hrecord,
    othersOf_all, trustedOf, hmatch, if_true, hlen, Bool.toNat_true, Nat.add_zero]

theorem stats_oneName : ∃ s, stats wire (plainOutside fun _ _ => true) oneServer 0 (nameManager ips) = some s := by
  refine Option.isSome_iff_exists.1 (isSome_stats.2 fun e he _ => ?_)
  rw [list_nameManager, List.mem_singleton] at he
  rw [he, domain_oneName]
  decide

end OneName

/-- One address. -/
theorem stats_exact_iff_at : ∃ s, stats wire (plainOutside fun _ _ => true) oneServer 0 (nameManager [1]) = some s ∧
    Exact s (sums wire (plainOutside fun _ _ => true) oneServer 0 (nameManager [1])) := by
  obtain ⟨s, hs⟩ := @stats_oneName [1]
  have hsums := @sums_oneName [1] (by decide) (by decide)
  have hfit : (sums wire (plainOutside fun _ _ => true) oneServer 0 (nameManager [1])).Fit := by
    rw [hsums]
    exact ⟨by decide, by decide, by decide, by decide⟩
  exact ⟨s, hs, ((stats_exact_iff hs hfit).2 (by rw [hsums]; decide)).2.1⟩

/-- Of 65536 trusted addresses, from 0.0.0.1 on, none is shown. -/
theorem stats_wraps : ¬∀ (P : Protobuf) (o : Outside) (config : Config) (now : Nat) (m : Manager) (s : DnsRecordStats),
    stats P o config now m = some s → (sums P o config now m).Fit →
      s.trustedIp.toNat = (sums P o config now m).trustedIp := by
  intro h
  have hnodup : ((List.range' 1 65536).map UInt32.ofNat).Nodup := by
    refine List.Nodup.map_on (fun a ha b hb hsame => ?_) List.nodup_range'
    rw [List.mem_range'_1] at ha hb
    rw [← UInt32.toNat_inj, UInt32.toNat_ofNat', UInt32.toNat_ofNat', Nat.mod_eq_of_lt (by omega),
      Nat.mod_eq_of_lt (by omega)] at hsame
    exact hsame
  have hlen : ((List.range' 1 65536).map UInt32.ofNat).length = 65536 := by rw [List.length_map, List.length_range']
  have hne : (List.range' 1 65536).map UInt32.ofNat ≠ [] := by
    intro hnil
    rw [hnil] at hlen
    cases hlen
  obtain ⟨s, hs⟩ := @stats_oneName ((List.range' 1 65536).map UInt32.ofNat)
  have hsums := sums_oneName hne hnodup
  rw [hlen] at hsums
  have hshown := h _ _ _ _ _ s hs (by rw [hsums]; exact ⟨by decide, by decide, by decide, by decide⟩)
  have hlt := s.trustedIp.toNat_lt
  rw [hshown, hsums] at hlt
  exact absurd hlt (by decide)

end StDns.Store
