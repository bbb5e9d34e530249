import StDns.Lib.Expiring
import StDns.Store.DiskKv
import Mathlib.Data.List.Sort

/-!
# The store on disk as a map with deadlines

`disk_kv` is for values that are there until a deadline. In a history of its operations it behaves as such a store
(`Expiring`) at every moment iff every value that was put has no zero byte, for `put` cuts it there, and every deadline
is below 2^32, for `put` computes it in 64 bits and stores it in 32 (`behaves_iff`).
-/

namespace StDns.Store

open Lib Proto

/-! ## The source -/

/-- `disk_kv::list`: what its consumer gets. The iterator of LevelDB visits the keys in their order. -/
def DiskKv.list (P : Protobuf) (now : Nat) (db : LevelDb) : List (Bytes × Bytes) :=
  (db.entries.mergeSort fun a b => decide (a.1 ≤ b.1)).filterMap fun entry =>
    let val := P.parseValue entry.2
    if notExpired now val then some (entry.1, val.data) else none

/-- The operations; `put` of two arguments has the expiry 0. -/
inductive KvOp where
  | put (key value : Bytes) (expire : UInt32)
  | get (key : Bytes)
  | erase (key : Bytes)
  | clear
  | list
  deriving DecidableEq

/-- The store after an operation at the time `now`, in milliseconds. -/
def KvOp.apply (P : Protobuf) (now : Nat) (db : LevelDb) : KvOp → LevelDb
  | put key value expire => DiskKv.put P now db key value expire
  | get key => (DiskKv.get P now db key).2
  | erase key => DiskKv.erase db key
  | clear => DiskKv.clear db
  | list => db

/-- The store after a history, operations with the times at which they run. -/
def kvRun (P : Protobuf) (history : List (Nat × KvOp)) : LevelDb :=
  history.foldl (fun db e => e.2.apply P e.1 db) ∅

/-! ## What it is for -/

/-- A value is put until the second of the put plus its expiry, or for ever. -/
def putEntry (now : Nat) (value : Bytes) (expire : UInt32) : Expiring.Entry Nat Bytes :=
  { value := value, deadline := if expire = 0 then none else some (now / 1000 + expire.toNat) }

/-- What an operation is for. -/
def KvOp.purpose (now : Nat) : KvOp → Expiring.Op Nat Bytes Bytes
  | put key value expire => .put key (putEntry now value expire)
  | erase key => .erase key
  | clear => .clear
  | get _ | list => .look

/-- The map with deadlines after a history. -/
def kvPurpose (history : List (Nat × KvOp)) : Expiring.Store Nat Bytes Bytes :=
  Expiring.replay (history.map fun e => e.2.purpose e.1)

/-- At the time `now` the store gives and lists what the map shows. -/
structure Agrees (P : Protobuf) (now : Nat) (db : LevelDb) (m : Expiring.Store Nat Bytes Bytes) : Prop where
  get : ∀ key, (DiskKv.get P now db key).1 = (m.at? (now / 1000) key).getD []
  keys : ((DiskKv.list P now db).map Prod.fst).Nodup
  list : ∀ key value, (key, value) ∈ DiskKv.list P now db ↔ m.at? (now / 1000) key = some value

/-- After every part of the history and at all times from then on the store agrees with the map. -/
def Behaves (P : Protobuf) (history : List (Nat × KvOp)) : Prop :=
  ∀ part, part <+: history → ∀ now, (∀ e ∈ part, e.1 ≤ now) → Agrees P now (kvRun P part) (kvPurpose part)

/-- The value has no zero byte, and the deadline is below 2^32. -/
def Puttable (now : Nat) (value : Bytes) (expire : UInt32) : Prop :=
  (0 : UInt8) ∉ value ∧ (expire = 0 ∨ now / 1000 + expire.toNat < 2 ^ 32)

/-! ## The entries of the store -/

/-- An entry as it is stored. -/
def entryOfValue (val : Value) : Expiring.Entry Nat Bytes :=
  { value := val.data, deadline := if val.expire = 0 then none else some val.expire.toNat }

/-- The store by its entries. -/
def entriesOf (P : Protobuf) (db : LevelDb) : Expiring.Store Nat Bytes Bytes :=
  fun key => (db.lookup key).map fun data => entryOfValue (P.parseValue data)

section Entries

variable {P : Protobuf} {now : Nat} {db : LevelDb} {key value : Bytes} {m : Expiring.Store Nat Bytes Bytes}

theorem notExpired_iff (val : Value) : notExpired now val ↔ (entryOfValue val).AliveAt (now / 1000) := by
  unfold notExpired Expiring.Entry.AliveAt entryOfValue
  by_cases hexpire : val.expire = 0
  · simp [hexpire]
  · simp [hexpire]

/-- What the store shows under a key. -/
theorem at?_entriesOf (now : Nat) : (entriesOf P db).at? (now / 1000) key =
    (db.lookup key).bind fun data => if notExpired now (P.parseValue data) then some (P.parseValue data).data
      else none := by
  rw [Expiring.Store.at?, entriesOf]
  cases db.lookup key with
  | none => rfl
  | some data =>
    simp only [Option.map_some, Option.bind_some, notExpired_iff]
    rfl

theorem get_eq : (DiskKv.get P now db key).1 = ((entriesOf P db).at? (now / 1000) key).getD [] := by
  rw [at?_entriesOf, DiskKv.get]
  cases db.lookup key with
  | none => rfl
  | some data =>
    simp only [Option.bind_some]
    split <;> rfl

theorem mem_list_iff : (key, value) ∈ DiskKv.list P now db ↔
    (entriesOf P db).at? (now / 1000) key = some value := by
  have hentry : ∀ data, (⟨key, data⟩ : Sigma fun _ : Bytes => Bytes) ∈ db.entries ↔ db.lookup key = some data :=
    fun data => AList.mem_lookup_iff.symm
  rw [at?_entriesOf, DiskKv.list, List.mem_filterMap, Option.bind_eq_some_iff]
  simp only [List.mem_mergeSort, Option.ite_none_right_eq_some, Option.some.injEq, Prod.mk.injEq]
  constructor
  · rintro ⟨⟨k, data⟩, hmem, halive, rfl, rfl⟩
    exact ⟨data, (hentry data).1 hmem, halive, rfl⟩
  · rintro ⟨data, hlookup, halive, rfl⟩
    exact ⟨⟨key, data⟩, (hentry data).2 hlookup, halive, rfl, rfl⟩

/-- No key is listed twice. -/
theorem nodup_list : ((DiskKv.list P now db).map Prod.fst).Nodup := by
  have hsub : ∀ entries : List (Sigma fun _ : Bytes => Bytes), ((entries.filterMap fun entry =>
      let val := P.parseValue entry.2
      if notExpired now val then some (entry.1, val.data) else none).map Prod.fst).Sublist (entries.map Sigma.fst) := by
    intro entries
    induction entries with
    | nil => exact .slnil
    | cons entry entries ih =>
      rw [List.filterMap_cons, List.map_cons]
      split
      · exact ih.cons _
      · rename_i listed hlisted
        cases (Option.ite_none_right_eq_some.1 hlisted).2
        exact ih.cons_cons _
  have hkeys : ((db.entries.mergeSort fun a b => decide (a.1 ≤ b.1)).map Sigma.fst).Nodup :=
    ((List.mergeSort_perm _ _).map Sigma.fst).nodup_iff.2 db.nodupKeys
  exact (hsub _).nodup hkeys

/-- **Agreeing** with a map is showing what it shows. -/
theorem agrees_iff : Agrees P now db m ↔ ∀ key, (entriesOf P db).at? (now / 1000) key = m.at? (now / 1000) key := by
  constructor
  · intro h key
    exact Option.ext fun value => mem_list_iff.symm.trans (h.list key value)
  · intro h
    refine ⟨fun key => by rw [get_eq, h], nodup_list, fun key value => ?_⟩
    rw [mem_list_iff, h]

/-- To agree at all times from now on is to show the same from this second on. -/
theorem sameFrom_iff : (∀ t, now ≤ t → Agrees P t db m) ↔ Expiring.SameFrom (now / 1000) (entriesOf P db) m := by
  constructor
  · intro h s hs key
    -- the first moment from now on in the second `s`
    have hagrees := agrees_iff.1 (h (max now (s * 1000)) (Nat.le_max_left _ _)) key
    have hsecond : max now (s * 1000) / 1000 = s := by omega
    rwa [hsecond] at hagrees
  · exact fun h t ht => agrees_iff.2 fun key => h (t / 1000) (Nat.div_le_div_right ht) key

end Entries

/-! ## One operation -/

section Steps

variable {P : Protobuf} {now : Nat} {db : LevelDb} {m : Expiring.Store Nat Bytes Bytes}

/-- The value that `put` stores. -/
def putValue (now : Nat) (value : Bytes) (expire : UInt32) : Value :=
  { data := cString value
    expire := if expire ≠ 0 then UInt32.ofNat (now / 1000 + expire.toNat) else expire }

theorem entriesOf_put (key value : Bytes) (expire : UInt32) : entriesOf P (DiskKv.put P now db key value expire) =
    (Expiring.Op.put key (entryOfValue (putValue now value expire))).apply (entriesOf P db) := by
  funext k
  by_cases hk : k = key
  · subst hk
    rw [entriesOf, DiskKv.put, AList.lookup_insert, Option.map_some, P.value_inverse, Expiring.Op.apply,
      Function.update_self]
    rfl
  · rw [entriesOf, lookup_put_ne hk, Expiring.Op.apply, Function.update_of_ne hk]
    rfl

theorem entriesOf_erase (key : Bytes) :
    entriesOf P (DiskKv.erase db key) = (Expiring.Op.erase key).apply (entriesOf P db) := by
  funext k
  by_cases hk : k = key
  · subst hk
    rw [entriesOf, DiskKv.erase, AList.lookup_erase, Option.map_none, Expiring.Op.apply, Function.update_self]
  · rw [entriesOf, DiskKv.erase, AList.lookup_erase_ne hk, Expiring.Op.apply, Function.update_of_ne hk]
    rfl

theorem entriesOf_clear : entriesOf P (DiskKv.clear db) = Expiring.Op.clear.apply (entriesOf P db) := by
  funext k
  rw [entriesOf, lookup_clear, Option.map_none]
  rfl

/-- `get` may take out what has expired. -/
theorem sameFrom_get (key : Bytes) :
    Expiring.SameFrom (now / 1000) (entriesOf P (DiskKv.get P now db key).2) (entriesOf P db) := by
  rw [DiskKv.get]
  cases hlookup : db.lookup key with
  | none => exact fun t ht k => rfl
  | some data =>
    simp only
    split
    · exact fun t ht k => rfl
    · rename_i hexpired
      have hentry : entriesOf P db key = some (entryOfValue (P.parseValue data)) := by
        rw [entriesOf, hlookup, Option.map_some]
      have herase := Expiring.sameFrom_erase hentry fun halive => hexpired ((notExpired_iff _).2 halive)
      rw [← entriesOf_erase] at herase
      exact herase

/-- What is put is what should be, when the value has no zero and the deadline fits. -/
theorem putValue_eq {value : Bytes} {expire : UInt32} (h : Puttable now value expire) :
    entryOfValue (putValue now value expire) = putEntry now value expire := by
  obtain ⟨hzero, hfits⟩ := h
  unfold entryOfValue putValue putEntry
  rw [cString_of_zeroFree hzero]
  by_cases hexpire : expire = 0
  · simp [hexpire]
  · have hlt := hfits.resolve_left hexpire
    have hpos : 0 < expire.toNat := Nat.pos_of_ne_zero fun h0 => hexpire (UInt32.toNat_inj.1 h0)
    have hdeadline : (UInt32.ofNat (now / 1000 + expire.toNat)).toNat = now / 1000 + expire.toNat :=
      (UInt32.toNat_ofNat' ..).trans (Nat.mod_eq_of_lt hlt)
    have hne : UInt32.ofNat (now / 1000 + expire.toNat) ≠ 0 := by
      intro h0
      rw [h0] at hdeadline
      have hzero : (0 : UInt32).toNat = 0 := rfl
      omega
    simp only [ne_eq, hexpire, not_false_eq_true, if_true, hne, if_false, hdeadline]

/-- **One operation** keeps the store the same as the map. -/
theorem sameFrom_apply (h : Expiring.SameFrom (now / 1000) (entriesOf P db) m) {op : KvOp}
    (hput : ∀ key value expire, op = .put key value expire → Puttable now value expire) :
    Expiring.SameFrom (now / 1000) (entriesOf P (op.apply P now db)) ((op.purpose now).apply m) := by
  cases op with
  | put key value expire =>
    rw [KvOp.apply, entriesOf_put, putValue_eq (hput key value expire rfl)]
    exact h.apply _
  | get key => exact (sameFrom_get key).trans h
  | erase key =>
    rw [KvOp.apply, entriesOf_erase]
    exact h.apply _
  | clear =>
    rw [KvOp.apply, entriesOf_clear]
    exact h.apply _
  | list => exact h

end Steps

/-! ## Histories -/

section Histories

variable {P : Protobuf} {history : List (Nat × KvOp)}

/-- **A history** keeps the store the same as the map. -/
theorem sameFrom_run : ∀ {history : List (Nat × KvOp)} {db : LevelDb} {m : Expiring.Store Nat Bytes Bytes} {now : Nat},
    history.Pairwise (fun e e' => e.1 ≤ e'.1) → (∀ e ∈ history, now ≤ e.1) →
    (∀ t key value expire, (t, .put key value expire) ∈ history → Puttable t value expire) →
    Expiring.SameFrom (now / 1000) (entriesOf P db) m → ∀ later, now ≤ later → (∀ e ∈ history, e.1 ≤ later) →
    Expiring.SameFrom (later / 1000) (entriesOf P (history.foldl (fun db e => e.2.apply P e.1 db) db))
      ((history.map fun e => e.2.purpose e.1).foldl Expiring.Op.apply m)
  | [], _, _, _, _, _, _, h, later, hlater, _ => h.mono (Nat.div_le_div_right hlater)
  | e :: history, db, m, now, hclock, hfrom, hput, h, later, _, hbefore => by
    obtain ⟨hfirst, hclock⟩ := List.pairwise_cons.1 hclock
    have hnow : now ≤ e.1 := hfrom e List.mem_cons_self
    have hstep : Expiring.SameFrom (e.1 / 1000) (entriesOf P (e.2.apply P e.1 db)) ((e.2.purpose e.1).apply m) := by
      refine sameFrom_apply (h.mono (Nat.div_le_div_right hnow)) fun key value expire hop => ?_
      exact hput e.1 key value expire (hop ▸ List.mem_cons_self)
    have hrest : ∀ t key value expire, (t, .put key value expire) ∈ history → Puttable t value expire :=
      fun t key value expire hmem => hput t key value expire (List.mem_cons_of_mem _ hmem)
    exact sameFrom_run hclock hfirst hrest hstep later (hbefore e List.mem_cons_self)
      fun e' he' => hbefore e' (List.mem_cons_of_mem _ he')

/-- A history whose puts are all as they should be. -/
theorem behaves_of_puttable (hclock : history.Pairwise fun e e' => e.1 ≤ e'.1)
    (hput : ∀ now key value expire, (now, .put key value expire) ∈ history → Puttable now value expire) :
    Behaves P history := by
  rintro part ⟨rest, rfl⟩ now hbefore
  have hclock := (List.pairwise_append.1 hclock).1
  have hempty : Expiring.SameFrom (0 / 1000) (entriesOf P ∅) fun _ => none := by
    intro t _ key
    rw [Expiring.Store.at?, entriesOf, AList.lookup_empty]
    rfl
  have hrun := sameFrom_run hclock (fun e _ => Nat.zero_le _)
    (fun t key value expire hmem => hput t key value expire (List.mem_append_left _ hmem)) hempty now (Nat.zero_le _)
    hbefore
  exact sameFrom_iff.2 hrun now (Nat.le_refl _)

/-- A put after which the store agrees with the map at all times. -/
theorem puttable_of_agrees {part : List (Nat × KvOp)} {now : Nat} {key value : Bytes} {expire : UInt32}
    (h : ∀ t, now ≤ t → Agrees P t (kvRun P (part ++ [(now, .put key value expire)]))
      (kvPurpose (part ++ [(now, .put key value expire)]))) : Puttable now value expire := by
  have hstored : entriesOf P (kvRun P (part ++ [(now, .put key value expire)])) key =
      some (entryOfValue (putValue now value expire)) := by
    rw [kvRun, List.foldl_append, List.foldl_cons, List.foldl_nil, KvOp.apply, entriesOf_put, Expiring.Op.apply,
      Function.update_self]
  have hpurpose : kvPurpose (part ++ [(now, .put key value expire)]) key = some (putEntry now value expire) := by
    rw [kvPurpose, List.map_append, Expiring.replay, List.foldl_append]
    exact Function.update_self _ _ _
  have halive : (putEntry now value expire).AliveAt (now / 1000) := by
    intro d hd
    obtain ⟨hexpire, hd⟩ := Option.ite_none_left_eq_some.1 (show _ = some d from hd)
    have hpos : 0 < expire.toNat := Nat.pos_of_ne_zero fun h0 => hexpire (UInt32.toNat_inj.1 h0)
    cases hd
    omega
  have heq := (sameFrom_iff.1 h).entry_eq hstored hpurpose halive
  obtain ⟨hvalue, hdeadline⟩ := Expiring.Entry.mk.inj heq
  refine ⟨?_, ?_⟩
  · rw [← hvalue]
    exact zero_notMem_cString value
  · by_cases hexpire : expire = 0
    · exact .inl hexpire
    · refine .inr ?_
      rw [if_neg hexpire] at hdeadline
      obtain ⟨-, hd⟩ := Option.ite_none_left_eq_some.1 hdeadline
      rw [← Option.some.inj hd]
      exact UInt32.toNat_lt _

/-- **The store on disk** behaves as a map with deadlines in a history iff every value that is put has no zero byte and
every deadline is below 2^32. -/
theorem behaves_iff (P : Protobuf) (history : List (Nat × KvOp)) (hclock : history.Pairwise fun e e' => e.1 ≤ e'.1) :
    Behaves P history ↔
      ∀ now key value expire, (now, .put key value expire) ∈ history → Puttable now value expire := by
  refine ⟨fun h now key value expire hmem => ?_, behaves_of_puttable hclock⟩
  obtain ⟨part, rest, rfl⟩ := List.append_of_mem hmem
  have hagrees : ∀ t, now ≤ t → Agrees P t (kvRun P (part ++ [(now, .put key value expire)]))
      (kvPurpose (part ++ [(now, .put key value expire)])) := by
    intro t ht
    refine h _ ⟨rest, ?_⟩ t fun e he => ?_
    · rw [List.append_assoc, List.singleton_append]
    · rcases List.mem_append.1 he with he | he
      · exact Nat.le_trans ((List.pairwise_append.1 hclock).2.2 e he _ List.mem_cons_self) ht
      · rw [List.mem_singleton.1 he]
        exact ht
  exact puttable_of_agrees hagrees

/-- **What the map shows** under a key: the value of the last put of it that no erase of it and no clear follows, before
its deadline. -/
theorem at?_kvPurpose_iff {s : Nat} {key value : Bytes} : (kvPurpose history).at? s key = some value ↔
    ∃ before after now expire, history = before ++ (now, .put key value expire) :: after ∧
      (∀ e ∈ after, ¬(e.2.purpose e.1).Touches key) ∧ (expire = 0 ∨ s < now / 1000 + expire.toNat) := by
  have halive : ∀ now expire, (putEntry now value expire).AliveAt s ↔ expire = 0 ∨ s < now / 1000 + expire.toNat := by
    intro now expire
    unfold Expiring.Entry.AliveAt putEntry
    by_cases hexpire : expire = 0
    · simp [hexpire]
    · simp [hexpire]
  rw [Expiring.Store.at?, Option.bind_eq_some_iff]
  simp only [kvPurpose, Expiring.replay_eq_some_iff, Option.ite_none_right_eq_some, Option.some.injEq]
  constructor
  · rintro ⟨entry, ⟨before', after', hmap, hafter⟩, hthere, rfl⟩
    obtain ⟨before, rest, rfl, rfl, hrest⟩ := List.map_eq_append_iff.1 hmap
    obtain ⟨⟨now, op⟩, after, rfl, hop, rfl⟩ := List.map_eq_cons_iff.1 hrest
    cases op with
    | put k v expire =>
      cases hop
      refine ⟨before, after, now, expire, rfl, fun e he => ?_, (halive now expire).1 hthere⟩
      exact hafter _ (List.mem_map_of_mem he)
    | _ => cases hop
  · rintro ⟨before, after, now, expire, rfl, hafter, hthere⟩
    refine ⟨putEntry now value expire, ⟨_, _, by rw [List.map_append, List.map_cons]; rfl, fun op hop => ?_⟩,
      (halive now expire).2 hthere, rfl⟩
    obtain ⟨e, he, rfl⟩ := List.mem_map.1 hop
    exact hafter e he

end Histories

theorem behaves_iff_at :
    Behaves wire [(0, .put [107] [118] 10), (5000, .get [107]), (20000, .get [107]), (20000, .list)] ↔
      ∀ now key value expire, (now, KvOp.put key value expire) ∈
        [(0, .put [107] [118] 10), (5000, .get [107]), (20000, .get [107]), (20000, .list)] →
          Puttable now value expire :=
  behaves_iff wire _ (by decide)

/-- A value with a zero byte does not come back. -/
theorem not_behaves : ¬∀ (P : Protobuf) (history : List (Nat × KvOp)),
    (history.Pairwise fun e e' => e.1 ≤ e'.1) → Behaves P history := by
  intro h
  have hagrees := h wire [(0, .put [107] [1, 0, 2] 0)] (by decide) _ (List.prefix_refl _) 0 (by decide)
  exact absurd (hagrees.get [107]) (by decide)

end StDns.Store
