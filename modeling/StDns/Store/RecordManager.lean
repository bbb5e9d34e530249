import StDns.Store.DiskKv
import Mathlib.Algebra.Order.Ring.Int

/-!
# The record manager

`dns_record_manager` keeps the addresses of a domain, server by server, as one message in a `disk_kv`, and for every
address the domains that had it in another. A `Table` is what it is for: a record for a domain and a server. The
manager keeps to its table as long as no zero byte gets into a message (`stored_run`), and then an addition changes
the entry of its domain and its server, and nothing else (`add_exact`).
-/

namespace StDns.Store

open Lib Proto

/-! ## `dns_record_manager` -/

structure Manager where
  db : LevelDb := ∅
  reverse : LevelDb := ∅

/-- `to_string` of an address. -/
def ipText (ip : UInt32) : Bytes := (Nat.toDigits 10 ip.toNat).map fun c => UInt8.ofNat c.toNat

namespace Manager

variable (P : Protobuf)

/-- `get_dns_records_pb`. -/
def getDnsRecordsPb (now : Nat) (m : Manager) (domain : Bytes) : Records × Manager :=
  let (data, db) := DiskKv.get P now m.db domain
  let record : Records := if data ≠ [] then P.parseRecords data else {}
  ({ record with domain := domain }, { m with db := db })

/-- `reverse_resolve`. -/
def reverseResolve (now : Nat) (m : Manager) (ip : UInt32) : ReverseRecord × Manager :=
  let (data, reverse) := DiskKv.get P now m.reverse (ipText ip)
  let record : ReverseRecord := if data ≠ [] then P.parseReverse data else {}
  ({ record with ip := ip }, { m with reverse := reverse })

/-- `add_reverse_record`. -/
def addReverseRecord (now : Nat) (m : Manager) (ip : UInt32) (domain : Bytes) : Manager :=
  let (record, m) := m.reverseResolve P now ip
  if domain ∉ record.domains then
    let record := { record with domains := record.domains ++ [domain] }
    { m with reverse := DiskKv.put P now m.reverse (ipText ip) (P.serializeReverse record) 0 }
  else m

/-- The record that `add` stores; its expiry is converted to `uint32_t`. -/
def newRecord (now : Nat) (ips : List UInt32) (expire : Int) : Record :=
  { expire := UInt32.ofInt (expire + now / 1000), ips := ips }

/-- `add` at the time `now`, in milliseconds. -/
def add (now : Nat) (m : Manager) (domain : Bytes) (ips : List UInt32) (dnsServer : Bytes) (expire : Int) : Manager :=
  let (dnsRecords, m) := m.getDnsRecordsPb P now domain
  let m := ips.foldl (fun m ip => m.addReverseRecord P now ip domain) m
  let dnsRecords := { dnsRecords with map := dnsRecords.map.insert dnsServer (newRecord now ips expire) }
  { m with db := DiskKv.put P now m.db domain (P.serializeRecords dnsRecords) 0 }

/-- The message of the domain that `add` stores. -/
def added (now : Nat) (m : Manager) (domain : Bytes) (ips : List UInt32) (dnsServer : Bytes) (expire : Int) : Records :=
  let dnsRecords := (m.getDnsRecordsPb P now domain).1
  { dnsRecords with map := dnsRecords.map.insert dnsServer (newRecord now ips expire) }

/-- `remove`. -/
def remove (m : Manager) (domain : Bytes) : Manager := { m with db := DiskKv.erase m.db domain }

/-- `clear`. -/
def clear (m : Manager) : Manager := { m with db := DiskKv.clear m.db }

end Manager

/-- The calls that change the records. -/
inductive Op where
  | add (now : Nat) (domain : Bytes) (ips : List UInt32) (dnsServer : Bytes) (expire : Int)
  | remove (domain : Bytes)
  | clear
  deriving DecidableEq

def Op.apply (P : Protobuf) (m : Manager) : Op → Manager
  | add now domain ips dnsServer expire => m.add P now domain ips dnsServer expire
  | remove domain => m.remove domain
  | clear => m.clear

/-- The manager after a sequence of calls. -/
def run (P : Protobuf) (ops : List Op) : Manager := ops.foldl (Op.apply P) {}

/-! ## The table -/

/-- The record of a domain from a server. -/
abbrev Table := Bytes → Bytes → Option Record

namespace Table

def empty : Table := fun _ _ => none

def add (t : Table) (domain dnsServer : Bytes) (record : Record) : Table :=
  Function.update t domain (Function.update (t domain) dnsServer (some record))

def remove (t : Table) (domain : Bytes) : Table := Function.update t domain fun _ => none

end Table

/-- What a call is for. -/
def Op.applyTable (t : Table) : Op → Table
  | add now domain ips dnsServer expire => t.add domain dnsServer (Manager.newRecord now ips expire)
  | remove domain => t.remove domain
  | clear => Table.empty

/-- A call that brings no zero byte into a message: the domain and the server have none, the server has a name, no
address is `0.0.0.0`, and the record is not empty. -/
def Op.Storable : Op → Prop
  | add now domain ips dnsServer expire =>
    (0 : UInt8) ∉ domain ∧ dnsServer ≠ [] ∧ (0 : UInt8) ∉ dnsServer ∧ (Manager.newRecord now ips expire).ZeroFree
  | remove _ => True
  | clear => True

/-- The store has the records of the table: for every domain one message without a zero, or nothing. -/
def Stored (P : Protobuf) (db : LevelDb) (t : Table) : Prop :=
  ∀ domain, (db.lookup domain = none ∧ ∀ s, t domain s = none) ∨
    ∃ records : Records, records.ZeroFree ∧ Stores P db domain (P.serializeRecords records) ∧
      ∀ s, records.map.lookup s = t domain s

/-- The store has these records for one domain. -/
def RowOf (P : Protobuf) (db : LevelDb) (domain : Bytes) (row : Bytes → Option Record) : Prop :=
  (db.lookup domain = none ∧ ∀ s, row s = none) ∨
    ∃ records : Records, records.ZeroFree ∧ Stores P db domain (P.serializeRecords records) ∧
      ∀ s, records.map.lookup s = row s

section Refinement

variable {P : Protobuf} {now : Nat} {m : Manager} {t : Table} {domain : Bytes}

/-- What is stored for one domain is read, and the store stays. -/
theorem getDnsRecordsPb_row {row : Bytes → Option Record} (now : Nat) (h : RowOf P m.db domain row) :
    ∃ records : Records, m.getDnsRecordsPb P now domain = ({ records with domain := domain }, m) ∧
      ∀ s, records.map.lookup s = row s := by
  rcases h with ⟨hdb, ht⟩ | ⟨records, -, hdb, ht⟩
  · refine ⟨{}, ?_, fun s => by rw [ht s]; exact AList.lookup_empty s⟩
    rw [Manager.getDnsRecordsPb, get_of_lookup_none hdb]
    rfl
  · have hsame := P.records_inverse records
    rw [Manager.getDnsRecordsPb, hdb.get]
    by_cases hdata : P.serializeRecords records = []
    · -- a message without bytes is the empty one
      have hempty := P.records_inverse {}
      rw [P.records_empty, ← hdata] at hempty
      refine ⟨{}, by simp only [hdata, ne_eq, not_true_eq_false, if_false], fun s => ?_⟩
      rw [← hempty.2 s, hsame.2 s, ht s]
    · exact ⟨P.parseRecords (P.serializeRecords records), by simp only [ne_eq, hdata, not_false_eq_true, if_true],
        fun s => (hsame.2 s).trans (ht s)⟩

/-- **Reading**: the records of a domain are those of the table, and the store stays. -/
theorem getDnsRecordsPb_stored (now : Nat) (domain : Bytes) (h : Stored P m.db t) : ∃ records : Records,
    m.getDnsRecordsPb P now domain = ({ records with domain := domain }, m) ∧
      ∀ s, records.map.lookup s = t domain s := getDnsRecordsPb_row now (h domain)

/-- Reverse records are kept elsewhere. -/
theorem addReverseRecord_db (ip : UInt32) : (m.addReverseRecord P now ip domain).db = m.db := by
  rw [Manager.addReverseRecord]
  by_cases hd : domain ∈ (m.reverseResolve P now ip).1.domains
  · simp only [hd, not_true_eq_false, if_false]
    rfl
  · simp only [hd, not_false_eq_true, if_true]
    rfl

theorem foldl_addReverseRecord_db : ∀ (ips : List UInt32) (m : Manager),
    (ips.foldl (fun m ip => m.addReverseRecord P now ip domain) m).db = m.db
  | [], m => rfl
  | ip :: ips, m => by rw [List.foldl_cons, foldl_addReverseRecord_db ips, addReverseRecord_db]

/-- What an addition stores. -/
theorem add_db (ips : List UInt32) (dnsServer : Bytes) (expire : Int) : (m.add P now domain ips dnsServer expire).db =
    DiskKv.put P now (m.getDnsRecordsPb P now domain).2.db domain
      (P.serializeRecords (m.added P now domain ips dnsServer expire)) 0 := by
  rw [Manager.add]
  simp only [foldl_addReverseRecord_db]
  rfl

/-- What is stored has no zero. -/
theorem Stored.zeroFree (h : Stored P m.db t) {s : Bytes} {record : Record} (ht : t domain s = some record) :
    s ≠ [] ∧ (0 : UInt8) ∉ s ∧ record.ZeroFree := by
  rcases h domain with ⟨-, hnone⟩ | ⟨records, hz, -, hl⟩
  · rw [hnone s] at ht
    cases ht
  · exact hz.2 s record ((hl s).trans ht)

/-- A store that differs from another in one domain. -/
theorem Stored.update {db : LevelDb} {row : Bytes → Option Record} (h : Stored P m.db t)
    (hother : ∀ d, d ≠ domain → db.lookup d = m.db.lookup d)
    (hthis : (db.lookup domain = none ∧ ∀ s, row s = none) ∨
      ∃ records : Records, records.ZeroFree ∧ Stores P db domain (P.serializeRecords records) ∧
        ∀ s, records.map.lookup s = row s) : Stored P db (Function.update t domain row) := by
  intro d
  by_cases hd : d = domain
  · subst hd
    rw [Function.update_self]
    exact hthis
  · unfold Stores
    rw [Function.update_of_ne hd, hother d hd]
    exact h d

/-- One addition. -/
theorem stored_add {ips : List UInt32} {dnsServer : Bytes} {expire : Int} (h : Stored P m.db t)
    (hop : (Op.add now domain ips dnsServer expire).Storable) :
    Stored P (m.add P now domain ips dnsServer expire).db
      (t.add domain dnsServer (Manager.newRecord now ips expire)) := by
  obtain ⟨hd0, hs, hs0, hrecord⟩ := hop
  obtain ⟨records, hget, hlookup⟩ := getDnsRecordsPb_stored now domain h
  let new : Records :=
    { domain := domain, map := records.map.insert dnsServer (Manager.newRecord now ips expire) }
  have hdb : (m.add P now domain ips dnsServer expire).db =
      DiskKv.put P now m.db domain (P.serializeRecords new) 0 := by
    rw [add_db, Manager.added, hget]
  have hrow : ∀ s, new.map.lookup s =
      Function.update (t domain) dnsServer (some (Manager.newRecord now ips expire)) s := by
    intro s
    by_cases hss : s = dnsServer
    · subst hss
      rw [Function.update_self]
      exact AList.lookup_insert _
    · rw [Function.update_of_ne hss]
      exact (AList.lookup_insert_ne hss).trans (hlookup s)
  have hzero : new.ZeroFree := by
    refine ⟨hd0, fun s record hl => ?_⟩
    rw [hrow s] at hl
    by_cases hss : s = dnsServer
    · subst hss
      rw [Function.update_self, Option.some.injEq] at hl
      exact ⟨hs, hs0, hl ▸ hrecord⟩
    · rw [Function.update_of_ne hss] at hl
      exact h.zeroFree hl
  rw [hdb]
  refine h.update (fun d hd => lookup_put_ne hd) (.inr ⟨new, hzero, ?_, hrow⟩)
  exact stores_put (P.records_zeroFree new hzero)

/-- One call. -/
theorem stored_apply {op : Op} (h : Stored P m.db t) (hop : op.Storable) :
    Stored P (op.apply P m).db (op.applyTable t) := by
  cases op with
  | add now domain ips dnsServer expire => exact stored_add h hop
  | remove domain => exact h.update (fun d hd => AList.lookup_erase_ne hd) (.inl ⟨AList.lookup_erase _ _, fun _ => rfl⟩)
  | clear => exact fun domain => .inl ⟨lookup_clear, fun _ => rfl⟩

/-- **All calls**: the store has the records of the table. -/
theorem stored_run {ops : List Op} (hops : ∀ op ∈ ops, op.Storable) :
    Stored P (run P ops).db (ops.foldl Op.applyTable Table.empty) := by
  have key : ∀ (ops : List Op) (m : Manager) (t : Table), (∀ op ∈ ops, op.Storable) → Stored P m.db t →
      Stored P (ops.foldl (Op.apply P) m).db (ops.foldl Op.applyTable t) := by
    intro ops
    induction ops with
    | nil => exact fun _ _ _ h => h
    | cons op ops ih =>
      intro m t hops h
      exact ih _ _ (fun op' h' => hops op' (List.mem_cons_of_mem _ h')) (stored_apply h (hops op (by simp)))
  exact key ops {} Table.empty hops fun domain => .inl ⟨AList.lookup_empty _, fun _ => rfl⟩

/-- The store that an addition to the store of a table leaves. -/
theorem stored_run_add {ops : List Op} {ips : List UInt32} {dnsServer : Bytes} {expire : Int}
    (hops : ∀ op ∈ ops, op.Storable) (hop : (Op.add now domain ips dnsServer expire).Storable) :
    ∃ t, Stored P (run P ops).db t ∧ Stored P ((run P ops).add P now domain ips dnsServer expire).db
      (t.add domain dnsServer (Manager.newRecord now ips expire)) :=
  ⟨_, stored_run hops, stored_add (stored_run hops) hop⟩

end Refinement

/-- What `get_dns_records_pb` gives at the time `now`. -/
def Manager.records (P : Protobuf) (now : Nat) (m : Manager) (domain : Bytes) : Records :=
  (m.getDnsRecordsPb P now domain).1

/-- From `m` to `m'`, read at the times `t` and `t'`, the server has got exactly these addresses for the domain, with an
expiry `expire` seconds after `now`, and nothing else has changed. -/
def Adds (P : Protobuf) (m m' : Manager) (t t' now : Nat) (domain : Bytes) (ips : List UInt32) (dnsServer : Bytes)
    (expire : Int) : Prop :=
  (∃ record, (m'.records P t' domain).map.lookup dnsServer = some record ∧ record.ips = ips ∧
    (record.expire.toNat : Int) = now / 1000 + expire) ∧
  (∀ s, s ≠ dnsServer → (m'.records P t' domain).map.lookup s = (m.records P t domain).map.lookup s) ∧
  ∀ d, d ≠ domain → (m'.records P t' d).Same (m.records P t d)

/-- The records that are read are those of the table. -/
theorem records_stored {P : Protobuf} {m : Manager} {t : Table} (now : Nat) (domain : Bytes) (h : Stored P m.db t) :
    (m.records P now domain).domain = domain ∧ ∀ s, (m.records P now domain).map.lookup s = t domain s := by
  obtain ⟨records, hget, hl⟩ := getDnsRecordsPb_stored now domain h
  rw [Manager.records, hget]
  exact ⟨rfl, hl⟩

/-- **Additions**: in every store that calls without zeros have made, an addition without zeros whose expiry fits in
32 bits gives the server its addresses and changes nothing else. -/
theorem add_exact (P : Protobuf) (ops : List Op) (t t' now : Nat) (domain : Bytes) (ips : List UInt32)
    (dnsServer : Bytes) (expire : Int) (hops : ∀ op ∈ ops, op.Storable)
    (hop : (Op.add now domain ips dnsServer expire).Storable) (hpos : 0 < expire)
    (hfits : now / 1000 + expire < 2 ^ 32) :
    Adds P (run P ops) ((run P ops).add P now domain ips dnsServer expire) t t' now domain ips dnsServer expire := by
  obtain ⟨table, h, h'⟩ := stored_run_add (P := P) hops hop
  refine ⟨⟨Manager.newRecord now ips expire, ?_, rfl, ?_⟩, fun s hs => ?_, fun d hd => ⟨?_, fun s => ?_⟩⟩
  · rw [(records_stored t' domain h').2, Table.add, Function.update_self, Function.update_self]
  · rw [Manager.newRecord, UInt32.ofInt, UInt32.toNat_ofNat']
    omega
  · rw [(records_stored t' domain h').2, (records_stored t domain h).2, Table.add, Function.update_self,
      Function.update_of_ne hs]
  · rw [(records_stored t' d h').1, (records_stored t d h).1]
  · rw [(records_stored t' d h').2, (records_stored t d h).2, Table.add, Function.update_of_ne hd]

/-- `test01.com`. -/
def test01 : Bytes := [116, 101, 115, 116, 48, 49, 46, 99, 111, 109]

/-- `192.168.31.1`. -/
def server1 : Bytes := [49, 57, 50, 46, 49, 54, 56, 46, 51, 49, 46, 49]

/-- `192.168.31.2`. -/
def server2 : Bytes := [49, 57, 50, 46, 49, 54, 56, 46, 51, 49, 46, 50]

theorem add_exact_at :
    let m := run wire [.add 1700000000000 test01 [1, 2, 3] server2 60]
    Adds wire m (m.add wire 1700000001000 test01 [1, 2] server1 60) 1700000000500 1700000002000 1700000001000 test01
      [1, 2] server1 60 :=
  add_exact wire _ _ _ _ _ _ _ _
    (List.forall_mem_singleton.2 ⟨by decide, by decide, by decide, by decide⟩)
    ⟨by decide, by decide, by decide, by decide⟩ (by decide) (by decide)

/-- The zero byte of the address `0.0.0.0` cuts the stored message off, and the entry is lost. -/
theorem add_loses : ¬∀ (P : Protobuf) (ops : List Op) (t t' now : Nat) (domain : Bytes) (ips : List UInt32)
    (dnsServer : Bytes) (expire : Int), 0 < expire →
    Adds P (run P ops) ((run P ops).add P now domain ips dnsServer expire) t t' now domain ips dnsServer expire := by
  intro h
  obtain ⟨⟨record, hl, -⟩, -⟩ := h wire [] 0 0 1700000000000 test01 [0] server1 60 (by decide)
  have hlost : (((run wire []).add wire 1700000000000 test01 [0] server1 60).records wire 0 test01).map.lookup server1 =
      none := by decide +kernel
  rw [hlost] at hl
  cases hl

end StDns.Store
