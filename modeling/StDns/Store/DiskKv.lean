import StDns.Store.Proto

/-!
# The key-value store on disk

`disk_kv` over LevelDB, which is a map of byte strings. A value is stored with the second it expires in, 0 for never.
`put` stores the text of a value up to its first zero byte: a value without zero bytes that never expires is what `get`
gives back (`get_put`).
-/

namespace StDns.Store

open Lib Proto

/-- LevelDB. -/
abbrev LevelDb := AList fun _ : Bytes => Bytes

/-- `disk_kv::not_expired` at the time `now`, in milliseconds. -/
def notExpired (now : Nat) (val : Value) : Prop := val.expire = 0 ∨ now / 1000 < val.expire.toNat

instance (now : Nat) (val : Value) : Decidable (notExpired now val) := inferInstanceAs (Decidable (_ ∨ _))

namespace DiskKv

variable (P : Protobuf)

/-- `disk_kv::get`: the value, empty when there is none, and the store, which loses a value that has expired. -/
def get (now : Nat) (db : LevelDb) (key : Bytes) : Bytes × LevelDb :=
  match db.lookup key with
  | none => ([], db)
  | some data =>
    let val := P.parseValue data
    if notExpired now val then (val.data, db) else ([], db.erase key)

/-- `disk_kv::put`. The value goes through `c_str()`. -/
def put (now : Nat) (db : LevelDb) (key value : Bytes) (expire : UInt32) : LevelDb :=
  let val : Value :=
    { data := cString value
      expire := if expire ≠ 0 then UInt32.ofNat (now / 1000 + expire.toNat) else expire }
  db.insert key (P.serializeValue val)

/-- `disk_kv::erase`. -/
def erase (db : LevelDb) (key : Bytes) : LevelDb := AList.erase key db

/-- `disk_kv::clear`: every key that the iterator visits is erased. -/
def clear (db : LevelDb) : LevelDb := db.keys.foldl erase db

end DiskKv

section Laws

variable {P : Protobuf} {now : Nat} {db : LevelDb} {key value : Bytes}

/-- `key` is stored with this value, for ever. -/
def Stores (P : Protobuf) (db : LevelDb) (key value : Bytes) : Prop :=
  db.lookup key = some (P.serializeValue { expire := 0, data := value })

theorem Stores.get (h : Stores P db key value) : DiskKv.get P now db key = (value, db) := by
  rw [DiskKv.get, h]
  simp only [P.value_inverse]
  rw [if_pos (.inl rfl)]

theorem get_of_lookup_none (h : db.lookup key = none) : DiskKv.get P now db key = ([], db) := by
  rw [DiskKv.get, h]

/-- A value without zero bytes is stored whole. -/
theorem stores_put (h : (0 : UInt8) ∉ value) : Stores P (DiskKv.put P now db key value 0) key value := by
  rw [Stores, DiskKv.put, AList.lookup_insert, cString_of_zeroFree h]
  rfl

theorem lookup_put_ne {key' : Bytes} {expire : UInt32} (h : key' ≠ key) :
    (DiskKv.put P now db key value expire).lookup key' = db.lookup key' := AList.lookup_insert_ne h

/-- **Put and get**: a value without zero bytes comes back. -/
theorem get_put (now' : Nat) (h : (0 : UInt8) ∉ value) :
    (DiskKv.get P now' (DiskKv.put P now db key value 0) key).1 = value := by
  rw [(stores_put h).get]

theorem lookup_foldl_erase : ∀ (keys : List Bytes) (db : LevelDb),
    (keys.foldl DiskKv.erase db).lookup key = if key ∈ keys then none else db.lookup key
  | [], db => rfl
  | k :: keys, db => by
    rw [List.foldl_cons, lookup_foldl_erase keys]
    by_cases hk : key = k
    · subst hk
      simp [DiskKv.erase, AList.lookup_erase]
    · rw [DiskKv.erase, AList.lookup_erase_ne hk]
      simp [hk]

@[simp] theorem lookup_clear : (DiskKv.clear db).lookup key = none := by
  rw [DiskKv.clear, lookup_foldl_erase]
  split
  · rfl
  · rename_i h
    exact AList.lookup_eq_none.2 fun hmem => h (AList.mem_keys.1 hmem)

end Laws

/-! ## Values that do not expire -/

/-- What is stored does not expire, and the values are such. -/
def Lasting (P : Protobuf) (db : LevelDb) (Such : Bytes → Bytes → Prop) : Prop :=
  ∀ key, db.lookup key = none ∨ ∃ value, Stores P db key value ∧ Such key value

section Lasting

variable {P : Protobuf} {now : Nat} {db : LevelDb} {key value : Bytes} {Such Such' : Bytes → Bytes → Prop}

theorem lasting_empty : Lasting P ∅ Such := fun _ => .inl (AList.lookup_empty _)

theorem lasting_clear : Lasting P (DiskKv.clear db) Such := fun _ => .inl lookup_clear

theorem Lasting.mono (h : Lasting P db Such) (hsuch : ∀ key value, Such key value → Such' key value) :
    Lasting P db Such' := by
  intro k
  rcases h k with hnone | ⟨v, hstores, hv⟩
  · exact .inl hnone
  · exact .inr ⟨v, hstores, hsuch k v hv⟩

theorem Lasting.put (h : Lasting P db Such) (hsuch : Such key (cString value)) :
    Lasting P (DiskKv.put P now db key value 0) Such := by
  intro k
  by_cases hk : k = key
  · subst hk
    exact .inr ⟨_, AList.lookup_insert _, hsuch⟩
  · unfold Stores
    rw [lookup_put_ne hk]
    exact h k

theorem Lasting.erase (h : Lasting P db Such) : Lasting P (DiskKv.erase db key) Such := by
  intro k
  by_cases hk : k = key
  · subst hk
    exact .inl (AList.lookup_erase _ _)
  · unfold Stores
    rw [DiskKv.erase, AList.lookup_erase_ne hk]
    exact h k

/-- **Reading** what does not expire leaves the store. -/
theorem Lasting.get (h : Lasting P db Such) (now : Nat) (key : Bytes) :
    ∃ value, DiskKv.get P now db key = (value, db) ∧ (value = [] ∨ Such key value) := by
  rcases h key with hnone | ⟨value, hstores, hvalue⟩
  · exact ⟨[], get_of_lookup_none hnone, .inl rfl⟩
  · exact ⟨value, hstores.get, .inr hvalue⟩

end Lasting

end StDns.Store
