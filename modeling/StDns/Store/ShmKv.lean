import StDns.Store.KvHistory

/-!
# The store in shared memory

`shm_kv` has the interface of `disk_kv`, over a map in a segment of shared memory; a lock that the processes share puts
their operations in an order. Its keys and values are C strings, it takes neither an empty key nor an empty value, and
it forgets the expiry. An operation throws when the segment has no room for its key or its value. In a history it
behaves as a map with deadlines iff nothing throws, every key and value that is put is not empty and has no zero byte,
nothing that is put expires, and no key with a zero byte is got or erased whose text is there (`shm_behaves_iff`). Where
no such key is got or erased at all, it cannot be told from the store on disk (`stores_agree`).
-/

namespace StDns.Store

open Lib Proto

/-! ## The source -/

/-- `shm_map`. -/
abbrev ShmMap := AList fun _ : Bytes => Bytes

namespace ShmKv

/-- `shm_kv::get`. -/
def get (kv : ShmMap) (key : Bytes) : Bytes :=
  if key = [] then [] else
    match kv.lookup (cString key) with
    | some value => cString value
    | none => []

/-- `shm_kv::put`, with an expiry or without one. -/
def put (kv : ShmMap) (key value : Bytes) : ShmMap :=
  if key = [] ∨ value = [] then kv else kv.insert (cString key) (cString value)

/-- `shm_kv::put_if_absent`: `insert` leaves a value that is there. -/
def putIfAbsent (kv : ShmMap) (key value : Bytes) : ShmMap :=
  if key = [] ∨ value = [] then kv else
    match kv.lookup (cString key) with
    | some _ => kv
    | none => kv.insert (cString key) (cString value)

/-- `shm_kv::erase`. -/
def erase (kv : ShmMap) (key : Bytes) : ShmMap := AList.erase (cString key) kv

/-- `shm_kv::list`: what its consumer gets, in the order of the keys. -/
def list (kv : ShmMap) : List (Bytes × Bytes) :=
  (kv.entries.mergeSort fun a b => decide (a.1 ≤ b.1)).map fun item => (cString item.1, cString item.2)

end ShmKv

/-- The operations: those of every store, `put_if_absent`, and one of them that throws: the allocator of the segment has
no room for its key or its value. -/
inductive ShmOp where
  | kv (op : KvOp)
  | putIfAbsent (key value : Bytes)
  | threw
  deriving DecidableEq

/-- The map after an operation. Keys and values are allocated before the map is changed. -/
def ShmOp.apply (kv : ShmMap) : ShmOp → ShmMap
  | .kv (.put key value _) => ShmKv.put kv key value
  | .kv (.erase key) => ShmKv.erase kv key
  | .kv .clear => ∅
  | .kv (.get _) | .kv .list | threw => kv
  | putIfAbsent key value => ShmKv.putIfAbsent kv key value

/-- The map after a history. -/
def shmRun (history : List (Nat × ShmOp)) : ShmMap := history.foldl (fun kv e => e.2.apply kv) ∅

/-! ## What it is for -/

/-- What an operation is for, on a map with deadlines. -/
def ShmOp.purpose (now : Nat) (m : Expiring.Store Nat Bytes Bytes) : ShmOp → Expiring.Op Nat Bytes Bytes
  | kv op => op.purpose now
  | threw => .look
  | putIfAbsent key value => if m.at? (now / 1000) key = none then .put key (putEntry now value 0) else .look

/-- The map with deadlines after a history. -/
def shmPurpose (history : List (Nat × ShmOp)) : Expiring.Store Nat Bytes Bytes :=
  history.foldl (fun m e => (e.2.purpose e.1 m).apply m) fun _ => none

/-- At the time `now` the store gives, for keys without a zero byte, and lists what the map shows. -/
structure ShmAgrees (now : Nat) (kv : ShmMap) (m : Expiring.Store Nat Bytes Bytes) : Prop where
  get : ∀ key, (0 : UInt8) ∉ key → ShmKv.get kv key = (m.at? (now / 1000) key).getD []
  keys : (ShmKv.list kv).Pairwise fun a b => a.1 < b.1
  list : ∀ key value, (key, value) ∈ ShmKv.list kv ↔ m.at? (now / 1000) key = some value

/-- It returns, and what `get` returns is what the map shows. -/
def ShmOp.Answers (now : Nat) (kv : ShmMap) (m : Expiring.Store Nat Bytes Bytes) : ShmOp → Prop
  | .kv (.get key) => ShmKv.get kv key = (m.at? (now / 1000) key).getD []
  | threw => False
  | _ => True

/-- Every operation of the history answers as the map does, and after every part of it and at all times from then on the
store agrees with the map. -/
structure ShmBehaves (history : List (Nat × ShmOp)) : Prop where
  answers : ∀ part e, part ++ [e] <+: history → e.2.Answers e.1 (shmRun part) (shmPurpose part)
  agrees : ∀ part, part <+: history → ∀ now, (∀ e ∈ part, e.1 ≤ now) → ShmAgrees now (shmRun part) (shmPurpose part)

/-- It is not empty and has no zero byte. -/
def Storable (text : Bytes) : Prop := text ≠ [] ∧ (0 : UInt8) ∉ text

instance (text : Bytes) : Decidable (Storable text) := inferInstanceAs (Decidable (_ ∧ _))

/-- The operation does in shared memory what it is for, where the map is `m`. -/
def ShmOp.Suits (now : Nat) (m : Expiring.Store Nat Bytes Bytes) : ShmOp → Prop
  | .kv (.put key value expire) => Storable key ∧ Storable value ∧ expire = 0
  | .kv (.get key) | .kv (.erase key) => (0 : UInt8) ∉ key ∨ m.at? (now / 1000) (cString key) = none
  | .kv _ => True
  | threw => False
  | putIfAbsent key value => m.at? (now / 1000) key ≠ none ∨ (Storable key ∧ Storable value)

/-! ## The map in the segment -/

/-- The map has the entries of `m`, which do not expire and are as they were put. -/
structure Holds (kv : ShmMap) (m : Expiring.Store Nat Bytes Bytes) : Prop where
  entries : ∀ key, m key = (kv.lookup key).map fun value => ⟨value, none⟩
  storable : ∀ key value, kv.lookup key = some value → Storable key ∧ Storable value

section Segment

variable {kv : ShmMap} {m : Expiring.Store Nat Bytes Bytes} {now : Nat} {key value : Bytes} {expire : UInt32}

theorem Storable.cString_eq (h : Storable key) : cString key = key := cString_of_zeroFree h.2

theorem Holds.empty : Holds ∅ fun _ => none :=
  ⟨fun key => by rw [AList.lookup_empty, Option.map_none], fun key value h => by rw [AList.lookup_empty] at h; cases h⟩

/-- What does not expire is shown at all times. -/
theorem Holds.at? (h : Holds kv m) (now : Nat) (key : Bytes) : m.at? (now / 1000) key = kv.lookup key := by
  rw [Expiring.Store.at?, h.entries]
  cases kv.lookup key with
  | none => rfl
  | some value =>
    have halive : Expiring.Entry.AliveAt (⟨value, none⟩ : Expiring.Entry Nat Bytes) (now / 1000) := by
      simp [Expiring.Entry.AliveAt]
    simp [halive]

theorem mem_shmList : (key, value) ∈ ShmKv.list kv ↔
    ∃ k v, kv.lookup k = some v ∧ cString k = key ∧ cString v = value := by
  rw [ShmKv.list, List.mem_map]
  simp only [List.mem_mergeSort, Prod.mk.injEq]
  constructor
  · rintro ⟨⟨k, v⟩, hmem, hk, hv⟩
    exact ⟨k, v, AList.mem_lookup_iff.2 hmem, hk, hv⟩
  · rintro ⟨k, v, hlookup, hk, hv⟩
    exact ⟨⟨k, v⟩, AList.mem_lookup_iff.1 hlookup, hk, hv⟩

/-- Only C strings are listed. -/
theorem zeroFree_of_mem_list (h : (key, value) ∈ ShmKv.list kv) : (0 : UInt8) ∉ key ∧ (0 : UInt8) ∉ value := by
  obtain ⟨k, v, -, rfl, rfl⟩ := mem_shmList.1 h
  exact ⟨zero_notMem_cString k, zero_notMem_cString v⟩

theorem Holds.mem_list (h : Holds kv m) : (key, value) ∈ ShmKv.list kv ↔ kv.lookup key = some value := by
  rw [mem_shmList]
  constructor
  · rintro ⟨k, v, hlookup, rfl, rfl⟩
    obtain ⟨hk, hv⟩ := h.storable k v hlookup
    rwa [hk.cString_eq, hv.cString_eq]
  · intro hlookup
    obtain ⟨hk, hv⟩ := h.storable key value hlookup
    exact ⟨key, value, hlookup, hk.cString_eq, hv.cString_eq⟩

/-- Different keys in their order. -/
theorem pairwise_mergeSort (entries : List (Sigma fun _ : Bytes => Bytes)) (h : (entries.map Sigma.fst).Nodup) :
    (entries.mergeSort fun a b => decide (a.1 ≤ b.1)).Pairwise fun a b => a.1 < b.1 := by
  have hle : (entries.mergeSort fun a b => decide (a.1 ≤ b.1)).Pairwise fun a b => decide (a.1 ≤ b.1) = true := by
    refine List.pairwise_mergeSort (fun a b c hab hbc => ?_) (fun a b => ?_) entries
    · exact decide_eq_true (List.le_trans (of_decide_eq_true hab) (of_decide_eq_true hbc))
    · rcases List.le_total a.1 b.1 with hab | hba
      · simp [hab]
      · simp [hba]
  have hne : (entries.mergeSort fun a b => decide (a.1 ≤ b.1)).Pairwise fun a b => a.1 ≠ b.1 := by
    rw [← List.pairwise_map (f := Sigma.fst) (R := (· ≠ ·))]
    exact ((List.mergeSort_perm _ _).map Sigma.fst).nodup_iff.2 h
  refine (hle.and hne).imp fun {a b} hab => ?_
  by_contra hnot
  exact hab.2 (List.le_antisymm (of_decide_eq_true hab.1) hnot)

theorem Holds.pairwise_list (h : Holds kv m) : (ShmKv.list kv).Pairwise fun a b => a.1 < b.1 := by
  have hsorted := pairwise_mergeSort kv.entries kv.nodupKeys
  rw [ShmKv.list, List.pairwise_map]
  refine List.Pairwise.imp_of_mem (fun {a b} ha hb hlt => ?_) hsorted
  have hstorable : ∀ item ∈ kv.entries.mergeSort fun a b => decide (a.1 ≤ b.1), Storable item.1 := by
    intro item hitem
    exact (h.storable item.1 item.2 (AList.mem_lookup_iff.2 (List.mem_mergeSort.1 hitem))).1
  rwa [(hstorable a ha).cString_eq, (hstorable b hb).cString_eq]

/-- No key with a zero byte is in the map. -/
theorem Holds.at?_of_zero (h : Holds kv m) (hzero : (0 : UInt8) ∈ key) (now : Nat) : m.at? (now / 1000) key = none := by
  rw [h.at?]
  by_contra hthere
  obtain ⟨value, hvalue⟩ := Option.ne_none_iff_exists'.1 hthere
  exact (h.storable key value hvalue).1.2 hzero

/-- **A read** gives what the map shows iff the key has no zero byte or its text is not there. -/
theorem Holds.get_iff (h : Holds kv m) (now : Nat) : ShmKv.get kv key = (m.at? (now / 1000) key).getD [] ↔
    (0 : UInt8) ∉ key ∨ m.at? (now / 1000) (cString key) = none := by
  by_cases hzero : (0 : UInt8) ∈ key
  · have hne : key ≠ [] := List.ne_nil_of_mem hzero
    rw [h.at?_of_zero hzero, h.at?, ShmKv.get, if_neg hne]
    cases hlookup : kv.lookup (cString key) with
    | none => simp
    | some value =>
      obtain ⟨-, hv⟩ := h.storable _ value hlookup
      simp [hzero, hv.cString_eq, hv.1]
  · refine iff_of_true ?_ (.inl hzero)
    rw [h.at?, ShmKv.get, cString_of_zeroFree hzero]
    cases hlookup : kv.lookup key with
    | none => simp
    | some value =>
      obtain ⟨hk, hv⟩ := h.storable key value hlookup
      simp [hk.1, hv.cString_eq]

/-- **A map that holds** the entries agrees with them at all times. -/
theorem Holds.agrees (h : Holds kv m) (now : Nat) : ShmAgrees now kv m :=
  ⟨fun _ hkey => (h.get_iff now).2 (.inl hkey), h.pairwise_list, fun key value => by rw [h.mem_list, h.at?]⟩

/-- An operation that suits the map answers as it does. -/
theorem Holds.answers (h : Holds kv m) {op : ShmOp} (hsuits : op.Suits now m) : op.Answers now kv m := by
  cases op with
  | kv op =>
    cases op with
    | get key => exact (h.get_iff now).2 hsuits
    | put key value expire => trivial
    | erase key => trivial
    | clear => trivial
    | list => trivial
  | putIfAbsent key value => trivial
  | threw => exact hsuits

/-! ## One operation -/

theorem Holds.insert (h : Holds kv m) (hkey : Storable key) (hvalue : Storable value) :
    Holds (kv.insert (cString key) (cString value)) (Function.update m key (some (putEntry now value 0))) := by
  rw [hkey.cString_eq, hvalue.cString_eq]
  refine ⟨fun k => ?_, fun k v hlookup => ?_⟩
  · by_cases hk : k = key
    · subst hk
      rw [AList.lookup_insert, Function.update_self]
      rfl
    · rw [AList.lookup_insert_ne hk, Function.update_of_ne hk, h.entries]
  · by_cases hk : k = key
    · subst hk
      rw [AList.lookup_insert, Option.some.injEq] at hlookup
      exact ⟨hkey, hlookup ▸ hvalue⟩
    · rw [AList.lookup_insert_ne hk] at hlookup
      exact h.storable k v hlookup

theorem Holds.erase (h : Holds kv m) (hkey : (0 : UInt8) ∉ key ∨ kv.lookup (cString key) = none) :
    Holds (ShmKv.erase kv key) (Function.update m key none) := by
  have hnone : ∀ k, k ≠ key → k ≠ cString key ∨ kv.lookup k = none := by
    intro k hk
    rcases hkey with hzero | hnone
    · exact .inl (by rwa [cString_of_zeroFree hzero])
    · by_cases hk' : k = cString key
      · exact .inr (hk' ▸ hnone)
      · exact .inl hk'
  refine ⟨fun k => ?_, fun k v hlookup => ?_⟩
  · by_cases hk : k = key
    · subst hk
      rw [Function.update_self]
      by_cases hzero : (0 : UInt8) ∈ k
      · have hne : k ≠ cString k := fun heq => zero_notMem_cString k (heq ▸ hzero)
        rw [ShmKv.erase, AList.lookup_erase_ne hne]
        cases hlookup : kv.lookup k with
        | none => rfl
        | some v => exact absurd hzero (h.storable k v hlookup).1.2
      · rw [ShmKv.erase, cString_of_zeroFree hzero, AList.lookup_erase, Option.map_none]
    · rw [Function.update_of_ne hk, h.entries]
      by_cases hk' : k = cString key
      · subst hk'
        rw [(hnone _ hk).resolve_left (not_not.2 rfl), ShmKv.erase, AList.lookup_erase]
      · rw [ShmKv.erase, AList.lookup_erase_ne hk']
  · by_cases hk : k = cString key
    · subst hk
      rw [ShmKv.erase, AList.lookup_erase] at hlookup
      cases hlookup
    · rw [ShmKv.erase, AList.lookup_erase_ne hk] at hlookup
      exact h.storable k v hlookup

/-- **One operation** that suits the map does what it is for. -/
theorem Holds.apply (h : Holds kv m) {op : ShmOp} (hsuits : op.Suits now m) :
    Holds (op.apply kv) ((op.purpose now m).apply m) := by
  cases op with
  | kv op =>
    cases op with
    | put key value expire =>
      obtain ⟨hkey, hvalue, rfl⟩ := hsuits
      rw [ShmOp.apply, ShmKv.put, if_neg (not_or.2 ⟨hkey.1, hvalue.1⟩)]
      exact h.insert hkey hvalue
    | erase key =>
      rw [ShmOp.Suits, h.at?] at hsuits
      exact h.erase hsuits
    | clear => exact Holds.empty
    | get key => exact h
    | list => exact h
  | threw => exact h
  | putIfAbsent key value =>
    rw [ShmOp.Suits, h.at?] at hsuits
    rw [ShmOp.purpose, h.at?, ShmOp.apply, ShmKv.putIfAbsent]
    cases hlookup : kv.lookup key with
    | some old =>
      -- what is there stays
      have hkey := (h.storable key old hlookup).1
      rw [if_neg (Option.some_ne_none old), hkey.cString_eq, hlookup]
      simp only [ite_self]
      exact h
    | none =>
      obtain ⟨hkey, hvalue⟩ := hsuits.resolve_left (not_not.2 hlookup)
      rw [if_pos rfl, if_neg (not_or.2 ⟨hkey.1, hvalue.1⟩), hkey.cString_eq, hlookup]
      have hinsert : Holds _ (Function.update m key (some (putEntry now value 0))) := h.insert hkey hvalue
      rwa [hkey.cString_eq] at hinsert

end Segment

/-! ## Histories -/

section Histories

variable {history : List (Nat × ShmOp)} {e : Nat × ShmOp}

theorem shmRun_concat : shmRun (history ++ [e]) = e.2.apply (shmRun history) := by
  rw [shmRun, List.foldl_append]
  rfl

theorem shmPurpose_concat :
    shmPurpose (history ++ [e]) = (e.2.purpose e.1 (shmPurpose history)).apply (shmPurpose history) := by
  rw [shmPurpose, List.foldl_append]
  rfl

/-- Every operation suits the map that it finds. -/
def Suitable (history : List (Nat × ShmOp)) : Prop :=
  ∀ part e rest, history = part ++ e :: rest → e.2.Suits e.1 (shmPurpose part)

theorem Suitable.part {part : List (Nat × ShmOp)} (h : Suitable history) (hpart : part <+: history) :
    Suitable part := by
  obtain ⟨after, rfl⟩ := hpart
  rintro init e rest rfl
  exact h init e (rest ++ after) (by rw [List.append_assoc, List.cons_append])

theorem suitable_concat : Suitable (history ++ [e]) ↔ Suitable history ∧ e.2.Suits e.1 (shmPurpose history) := by
  constructor
  · exact fun h => ⟨h.part (List.prefix_append _ _), h history e [] rfl⟩
  · rintro ⟨hbefore, hlast⟩ part e' rest heq
    rcases Expiring.snoc_eq_iff.1 heq with ⟨rfl, rfl, rfl⟩ | ⟨init, rfl, rfl⟩
    · exact hlast
    · exact hbefore part e' init rfl

/-- **A history** of operations that suit the map holds its entries. -/
theorem holds_of_suitable (h : Suitable history) : Holds (shmRun history) (shmPurpose history) := by
  induction history using List.reverseRecOn with
  | nil => exact Holds.empty
  | append_singleton history e ih =>
    obtain ⟨hbefore, hlast⟩ := suitable_concat.1 h
    rw [shmRun_concat, shmPurpose_concat]
    exact (ih hbefore).apply hlast

/-- What is put, and is in the list from now on, is storable and does not expire. -/
theorem suits_put {kv kv' : ShmMap} {m : Expiring.Store Nat Bytes Bytes} {now : Nat} {key value : Bytes}
    {expire : UInt32} (h : Holds kv m) (hkeeps : key = [] ∨ value = [] → kv' = kv)
    (hagrees : ∀ t, now ≤ t → ShmAgrees t kv' (Function.update m key (some (putEntry now value expire)))) :
    Storable key ∧ Storable value ∧ expire = 0 := by
  have hat : ∀ s, Expiring.Store.at? (Function.update m key (some (putEntry now value expire))) s key =
      if (putEntry now value expire).AliveAt s then some value else none := by
    intro s
    rw [Expiring.Store.at?, Function.update_self]
    rfl
  have hshown : Expiring.Store.at? (Function.update m key (some (putEntry now value expire))) (now / 1000) key =
      some value := by
    rw [hat]
    refine if_pos fun d hd => ?_
    obtain ⟨hexpire, hd⟩ := Option.ite_none_left_eq_some.1 (show _ = some d from hd)
    have hpos : 0 < expire.toNat := Nat.pos_of_ne_zero fun h0 => hexpire (UInt32.toNat_inj.1 h0)
    cases hd
    omega
  have hlisted := ((hagrees now (Nat.le_refl _)).list key value).2 hshown
  have hnot : ¬(key = [] ∨ value = []) := by
    intro hempty
    rw [hkeeps hempty] at hlisted
    obtain ⟨hkey, hvalue⟩ := h.storable key value (h.mem_list.1 hlisted)
    rcases hempty with rfl | rfl
    · exact hkey.1 rfl
    · exact hvalue.1 rfl
  obtain ⟨hkey, hvalue⟩ := zeroFree_of_mem_list hlisted
  obtain ⟨hkeyNe, hvalueNe⟩ := not_or.1 hnot
  refine ⟨⟨hkeyNe, hkey⟩, ⟨hvalueNe, hvalue⟩, ?_⟩
  by_contra hexpire
  -- it is listed still when it should have expired
  have hlater := ((hagrees (now + expire.toNat * 1000) (Nat.le_add_right _ _)).list key value).1 hlisted
  rw [hat] at hlater
  have halive := (Option.ite_none_right_eq_some.1 hlater).1
  have hlt := halive (now / 1000 + expire.toNat) (show _ ∈ (putEntry now value expire).deadline by
    simp [putEntry, hexpire])
  omega

/-- An operation that answers as the map does, and after which the store agrees with it, suits it. -/
theorem suits_of_agrees {now : Nat} {op : ShmOp} (h : Suitable history)
    (hanswers : op.Answers now (shmRun history) (shmPurpose history))
    (hagrees : ∀ t, now ≤ t → ShmAgrees t (shmRun (history ++ [(now, op)])) (shmPurpose (history ++ [(now, op)]))) :
    op.Suits now (shmPurpose history) := by
  have hholds := holds_of_suitable h
  rw [shmRun_concat, shmPurpose_concat] at hagrees
  cases op with
  | kv op =>
    cases op with
    | put key value expire => exact suits_put hholds (fun hempty => if_pos hempty) hagrees
    | erase key =>
      by_cases hzero : (0 : UInt8) ∈ key
      · refine .inr ?_
        have hne : cString key ≠ key := fun heq => zero_notMem_cString key (by rwa [heq])
        by_contra hthere
        obtain ⟨value, hvalue⟩ := Option.ne_none_iff_exists'.1 hthere
        have hmap : Expiring.Store.at? (Function.update (shmPurpose history) key none) (now / 1000) (cString key) =
            some value := by
          rw [Expiring.Store.at?, Function.update_of_ne hne]
          exact hvalue
        obtain ⟨k, v, hlookup, hk, -⟩ := mem_shmList.1 (((hagrees now (Nat.le_refl _)).list _ _).2 hmap)
        by_cases heq : k = cString key
        · subst heq
          rw [ShmOp.apply, ShmKv.erase, AList.lookup_erase] at hlookup
          cases hlookup
        · have hlookup' := hlookup
          rw [ShmOp.apply, ShmKv.erase, AList.lookup_erase_ne heq] at hlookup'
          exact heq ((hholds.storable k v hlookup').1.cString_eq.symm.trans hk)
      · exact .inl hzero
    | clear => trivial
    | get key => exact (hholds.get_iff now).1 hanswers
    | list => trivial
  | threw => exact hanswers
  | putIfAbsent key value =>
    by_cases hthere : (shmPurpose history).at? (now / 1000) key = none
    · refine .inr ?_
      rw [ShmOp.purpose, if_pos hthere] at hagrees
      obtain ⟨hkey, hvalue, -⟩ := suits_put hholds (fun hempty => if_pos hempty) hagrees
      exact ⟨hkey, hvalue⟩
    · exact .inl hthere

/-- **The store in shared memory** behaves as a map with deadlines in a history iff every operation suits the map that
it finds. -/
theorem shm_behaves_iff (history : List (Nat × ShmOp)) (hclock : history.Pairwise fun e e' => e.1 ≤ e'.1) :
    ShmBehaves history ↔ Suitable history := by
  constructor
  · intro h
    induction history using List.reverseRecOn with
    | nil => exact fun part e rest heq => absurd heq.symm (by simp)
    | append_singleton history e ih =>
      obtain ⟨hbefore, -, hlast⟩ := List.pairwise_append.1 hclock
      have hbehaves : ShmBehaves history :=
        ⟨fun part e' hpart => h.answers part e' (hpart.trans (List.prefix_append _ _)),
          fun part hpart => h.agrees part (hpart.trans (List.prefix_append _ _))⟩
      have hsuitable := ih hbefore hbehaves
      have hanswers := h.answers history e (List.prefix_refl _)
      refine suitable_concat.2 ⟨hsuitable, suits_of_agrees hsuitable hanswers fun t ht => ?_⟩
      refine h.agrees _ (List.prefix_refl _) t fun e' he' => ?_
      rcases List.mem_append.1 he' with he' | he'
      · exact Nat.le_trans (hlast e' he' e (List.mem_singleton_self _)) ht
      · rw [List.mem_singleton.1 he']
        exact ht
  · intro h
    refine ⟨fun part e hpart => ?_, fun part hpart now _ => (holds_of_suitable (h.part hpart)).agrees now⟩
    obtain ⟨hbefore, hlast⟩ := suitable_concat.1 (h.part hpart)
    exact (holds_of_suitable hbefore).answers hlast

end Histories

theorem shm_behaves_iff_at : ShmBehaves [(0, .kv (.put [107] [118] 0)), (5, .putIfAbsent [107] [])] ∧
    ¬ShmBehaves [(0, .kv (.put [107] [118] 0)), (5, .kv (.get [107, 0, 120]))] := by
  have hput : Suitable ([] ++ [(0, .kv (.put [107] [118] 0))]) :=
    suitable_concat.2 ⟨fun part e rest heq => absurd heq.symm (by simp), by decide, by decide, rfl⟩
  have hboth : Suitable ([(0, .kv (.put [107] [118] 0))] ++ [(5, .putIfAbsent [107] [])]) :=
    suitable_concat.2 ⟨hput, .inl (by decide)⟩
  refine ⟨(shm_behaves_iff _ (by simp)).2 hboth, fun hbehaves => ?_⟩
  have hsuitable : Suitable ([(0, .kv (.put [107] [118] 0))] ++ [(5, .kv (.get [107, 0, 120]))]) :=
    (shm_behaves_iff _ (by simp)).1 hbehaves
  rcases (suitable_concat.1 hsuitable).2 with hzero | hnone
  · exact hzero (by decide)
  · exact absurd hnone (by decide)

/-! ## The two stores -/

section Both

variable {P : Protobuf} {history : List (Nat × KvOp)}

/-- The same operation at the same time in shared memory, where it may throw. -/
def OnShm (e : Nat × KvOp) (s : Nat × ShmOp) : Prop := s.1 = e.1 ∧ (s.2 = .kv e.2 ∨ s.2 = .threw)

/-- The same operations in shared memory, none of which throws. -/
def onShm (history : List (Nat × KvOp)) : List (Nat × ShmOp) := history.map fun e => (e.1, .kv e.2)

/-- Where nothing throws, they are the same operations. -/
theorem eq_onShm {shared : List (Nat × ShmOp)} (hsame : List.Forall₂ OnShm history shared)
    (hroom : ∀ s ∈ shared, s.2 ≠ .threw) : shared = onShm history := by
  induction hsame with
  | nil => rfl
  | @cons e s history shared hone hsame ih =>
    obtain ⟨htime, hop⟩ := hone
    have hreturns := hop.resolve_right (hroom s List.mem_cons_self)
    rw [onShm, List.map_cons, ← onShm, ← ih fun s' hs' => hroom s' (List.mem_cons_of_mem _ hs'), ← htime, ← hreturns]

/-- They are for the same. -/
theorem shmPurpose_onShm (history : List (Nat × KvOp)) : shmPurpose (onShm history) = kvPurpose history := by
  rw [shmPurpose, onShm, List.foldl_map, kvPurpose, Expiring.replay, List.foldl_map]
  rfl

/-- Lists in the order of their keys with the same members. -/
theorem eq_of_mem_iff {l l' : List (Bytes × Bytes)} (h : l.Pairwise fun a b => a.1 < b.1)
    (h' : l'.Pairwise fun a b => a.1 < b.1) (hmem : ∀ a, a ∈ l ↔ a ∈ l') : l = l' := by
  have hnodup : ∀ {l : List (Bytes × Bytes)}, (l.Pairwise fun a b => a.1 < b.1) → l.Nodup := by
    refine fun h => h.imp fun {a b} hlt heq => ?_
    rw [heq] at hlt
    exact List.lt_irrefl _ hlt
  have hperm := (List.perm_ext_iff_of_nodup (hnodup h) (hnodup h')).2 hmem
  exact List.Perm.eq_of_pairwise (fun a b _ _ hab hba => absurd hba (List.lt_asymm hab)) h h' hperm

/-- The iterator visits the keys in their order. -/
theorem pairwise_diskList (now : Nat) (db : LevelDb) : (DiskKv.list P now db).Pairwise fun a b => a.1 < b.1 := by
  rw [DiskKv.list, List.pairwise_filterMap]
  refine (pairwise_mergeSort db.entries db.nodupKeys).imp fun {a b} hlt x hx y hy => ?_
  obtain ⟨-, hx⟩ := Option.ite_none_right_eq_some.1 hx
  obtain ⟨-, hy⟩ := Option.ite_none_right_eq_some.1 hy
  rw [← Option.some.inj hx, ← Option.some.inj hy]
  exact hlt

theorem suitable_onShm
    (hput : ∀ now key value expire, (now, .put key value expire) ∈ history →
      Storable key ∧ Storable value ∧ expire = 0)
    (hkeys : ∀ now key, (now, .get key) ∈ history ∨ (now, .erase key) ∈ history → (0 : UInt8) ∉ key) :
    Suitable (onShm history) := by
  intro part e rest heq
  obtain ⟨before, after, hhistory, -, hafter⟩ := List.map_eq_append_iff.1 heq
  obtain ⟨⟨now, op⟩, after, rfl, rfl, -⟩ := List.map_eq_cons_iff.1 hafter
  have hmem : (now, op) ∈ history := by
    rw [hhistory]
    exact List.mem_append_right _ List.mem_cons_self
  cases op with
  | put key value expire => exact hput now key value expire hmem
  | erase key => exact .inl (hkeys now key (.inr hmem))
  | get key => exact .inl (hkeys now key (.inl hmem))
  | clear => trivial
  | list => trivial

end Both

/-- **Two stores**: where the segment has room, every key and value that is put is not empty and has no zero byte,
nothing that is put expires and no key with a zero byte is got or erased, the store on disk and the store in shared
memory give the same for all keys without a zero byte and list the same in the same order, after every part of the
history. -/
theorem stores_agree (P : Protobuf) (history : List (Nat × KvOp)) (shared : List (Nat × ShmOp))
    (hclock : history.Pairwise fun e e' => e.1 ≤ e'.1) (hsame : List.Forall₂ OnShm history shared)
    (hroom : ∀ s ∈ shared, s.2 ≠ .threw)
    (hput : ∀ now key value expire, (now, .put key value expire) ∈ history →
      Storable key ∧ Storable value ∧ expire = 0)
    (hkeys : ∀ now key, (now, .get key) ∈ history ∨ (now, .erase key) ∈ history → (0 : UInt8) ∉ key) :
    ∀ length now, (∀ e ∈ history.take length, e.1 ≤ now) →
      DiskKv.list P now (kvRun P (history.take length)) = ShmKv.list (shmRun (shared.take length)) ∧
      ∀ key, (0 : UInt8) ∉ key →
        (DiskKv.get P now (kvRun P (history.take length)) key).1 = ShmKv.get (shmRun (shared.take length)) key := by
  intro length now hbefore
  have hpart : history.take length <+: history := List.take_prefix _ _
  rw [eq_onShm hsame hroom, onShm, ← List.map_take, ← onShm]
  generalize history.take length = part at hpart hbefore ⊢
  have hdisk : Agrees P now (kvRun P part) (kvPurpose part) := by
    refine behaves_of_puttable hclock (fun t key value expire hmem => ?_) part hpart now hbefore
    obtain ⟨-, hvalue, hexpire⟩ := hput t key value expire hmem
    exact ⟨hvalue.2, .inl hexpire⟩
  have hshm : ShmAgrees now (shmRun (onShm part)) (kvPurpose part) := by
    have hsuitable : Suitable (onShm part) := (suitable_onShm hput hkeys).part (hpart.map _)
    rw [← shmPurpose_onShm]
    exact (holds_of_suitable hsuitable).agrees now
  refine ⟨eq_of_mem_iff (pairwise_diskList now _) hshm.keys fun a => ?_, fun key hkey => ?_⟩
  · exact (hdisk.list a.1 a.2).trans (hshm.list a.1 a.2).symm
  · rw [hdisk.get, hshm.get key hkey]

theorem stores_agree_at :
    (DiskKv.get wire 9 (kvRun wire [(0, .put [107] [118] 0), (5, .get [107])]) [107]).1 =
      ShmKv.get (shmRun [(0, .kv (.put [107] [118] 0)), (5, .kv (.get [107]))]) [107] ∧
    DiskKv.list wire 9 (kvRun wire [(0, .put [107] [118] 0), (5, .get [107])]) =
      ShmKv.list (shmRun [(0, .kv (.put [107] [118] 0)), (5, .kv (.get [107]))]) := by
  have hboth := stores_agree wire [(0, .put [107] [118] 0), (5, .get [107])]
    [(0, .kv (.put [107] [118] 0)), (5, .kv (.get [107]))] (by simp)
    (.cons ⟨rfl, .inl rfl⟩ (.cons ⟨rfl, .inl rfl⟩ .nil)) (by simp) (fun now key value expire hmem => ?_)
    (fun now key hmem => ?_) 2 9 (by simp)
  · exact ⟨hboth.2 _ (by decide), hboth.1⟩
  · simp only [List.mem_cons, Prod.mk.injEq, KvOp.put.injEq, reduceCtorEq, and_false, List.not_mem_nil,
      or_false] at hmem
    obtain ⟨-, rfl, rfl, rfl⟩ := hmem
    exact ⟨by decide, by decide, rfl⟩
  · simp only [List.mem_cons, Prod.mk.injEq, KvOp.get.injEq, reduceCtorEq, and_false, List.not_mem_nil, or_false,
      false_or] at hmem
    obtain ⟨-, rfl⟩ := hmem
    decide

end StDns.Store
