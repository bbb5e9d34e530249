import StDns.Lib.Protobuf
import Mathlib.Data.List.AList

/-!
# Stored messages

The messages of `kv.proto` and `message.proto`, and the part of the protocol buffer library that the stores use
(`Protobuf`): what it writes is read back, and a message whose content has no zero is written without a zero byte. The
library writes the wire format (`wire`).
-/

namespace StDns.Proto

open Lib

/-! ## The messages -/

/-- `st.kv.proto.value`. -/
structure Value where
  expire : UInt32 := 0
  data : Bytes := []
  deriving DecidableEq

/-- `st.dns.proto.record`. -/
structure Record where
  expire : UInt32 := 0
  ips : List UInt32 := []
  deriving DecidableEq

/-- The records of a domain by server: `map<string, record>`. -/
abbrev ServerMap := AList fun _ : Bytes => Record

/-- `st.dns.proto.records`. -/
structure Records where
  domain : Bytes := []
  map : ServerMap := ∅

/-- `st.dns.proto.reverse_record`. -/
structure ReverseRecord where
  ip : UInt32 := 0
  domains : List Bytes := []
  deriving DecidableEq

/-- The same content: the entries of a map have no order. -/
def Records.Same (r r' : Records) : Prop := r.domain = r'.domain ∧ ∀ s, r.map.lookup s = r'.map.lookup s

/-- A record with an expiry or with addresses, none of them `0.0.0.0`. -/
def Record.ZeroFree (r : Record) : Prop := (r.expire ≠ 0 ∨ r.ips ≠ []) ∧ 0 ∉ r.ips

instance (r : Record) : Decidable r.ZeroFree := inferInstanceAs (Decidable (_ ∧ _))

/-- No zero byte in the domain or in a server, no server without a name, no zero in a record. -/
def Records.ZeroFree (r : Records) : Prop :=
  (0 : UInt8) ∉ r.domain ∧
    ∀ s record, r.map.lookup s = some record → s ≠ [] ∧ (0 : UInt8) ∉ s ∧ record.ZeroFree

/-- A text that a field of type `string` can hold: the library does not read a message with another. -/
def Utf8 (bs : Bytes) : Prop := (ByteArray.mk bs.toArray).IsValidUTF8

/-- `SerializeAsString` and `ParseFromString` of the messages. What is parsed from bytes that are no message is left
open. -/
structure Protobuf where
  serializeValue : Value → Bytes
  parseValue : Bytes → Value
  serializeRecords : Records → Bytes
  parseRecords : Bytes → Records
  serializeReverse : ReverseRecord → Bytes
  parseReverse : Bytes → ReverseRecord
  value_inverse : ∀ v, parseValue (serializeValue v) = v
  records_inverse : ∀ r, (parseRecords (serializeRecords r)).Same r
  reverse_inverse : ∀ r, parseReverse (serializeReverse r) = r
  records_empty : serializeRecords {} = []
  records_zeroFree : ∀ r, r.ZeroFree → (0 : UInt8) ∉ serializeRecords r

/-- What the library does besides with a message that is cut off and with an empty one: of records that are cut off only
entries that were there are read, and a reverse record without zeros in its domains is written without a zero byte. -/
structure Protobuf.Cuts (P : Protobuf) : Prop where
  records_cut : ∀ r bs, bs <+: P.serializeRecords r → ∀ s record, (P.parseRecords bs).map.lookup s = some record →
    r.map.lookup s = some record
  reverse_empty : P.serializeReverse {} = []
  reverse_zeroFree : ∀ r, (∀ domain ∈ r.domains, domain ≠ [] ∧ (0 : UInt8) ∉ domain) →
    (0 : UInt8) ∉ P.serializeReverse r

/-! ## The wire format of the messages -/

/-- A field that is left out when its content is the default. -/
def optional {α : Type} [DecidableEq α] (default a : α) (field : Field) : List Field :=
  if a = default then [] else [field]

theorem mem_optional {α : Type} [DecidableEq α] {default a : α} {field f : Field} :
    f ∈ optional default a field ↔ a ≠ default ∧ f = field := by
  unfold optional
  split <;> simp_all

namespace Value

def fields (v : Value) : List Field :=
  optional 0 v.expire (.number 1 v.expire.toNat) ++ optional [] v.data (.run 2 v.data)

def add (v : Value) : Field → Value
  | .number 1 n => { v with expire := UInt32.ofNat n }
  | .run 2 bs => { v with data := bs }
  | _ => v

def serialize (v : Value) : Bytes := fieldBytes v.fields

def parse (bs : Bytes) : Value := (readFields bs).foldl add {}

theorem parse_serialize (v : Value) : parse v.serialize = v := by
  obtain ⟨expire, data⟩ := v
  rw [parse, serialize, readFields_bytes]
  by_cases he : expire = 0 <;> by_cases hd : data = [] <;> simp [fields, optional, he, hd, add]

end Value

namespace Record

/-- The addresses in one run of bytes. -/
def packed (ips : List UInt32) : Bytes := (ips.map UInt32.toNat).flatMap varint

def unpacked (bs : Bytes) : List UInt32 := (readVarints bs.length bs).map UInt32.ofNat

theorem unpacked_packed (ips : List UInt32) : unpacked (packed ips) = ips := by
  rw [unpacked, packed, readVarints_flatMap (Nat.le_refl _), List.map_map]
  exact List.map_id'' (fun x => UInt32.ofNat_toNat) ips

def fields (r : Record) : List Field :=
  optional 0 r.expire (.number 1 r.expire.toNat) ++ optional [] r.ips (.run 4 (packed r.ips))

def add (r : Record) : Field → Record
  | .number 1 n => { r with expire := UInt32.ofNat n }
  | .number 4 n => { r with ips := r.ips ++ [UInt32.ofNat n] }
  | .run 4 bs => { r with ips := r.ips ++ unpacked bs }
  | _ => r

def serialize (r : Record) : Bytes := fieldBytes r.fields

def parse (bs : Bytes) : Record := (readFields bs).foldl add {}

theorem parse_serialize (r : Record) : parse r.serialize = r := by
  obtain ⟨expire, ips⟩ := r
  rw [parse, serialize, readFields_bytes]
  by_cases he : expire = 0 <;> by_cases hd : ips = [] <;> simp [fields, optional, he, hd, add, unpacked_packed]

/-- A record without zeros has bytes, none of them zero. -/
theorem ZeroFree.serialize {r : Record} (h : r.ZeroFree) : r.serialize ≠ [] ∧ (0 : UInt8) ∉ r.serialize := by
  have hpos : ∀ ip : UInt32, ip ≠ 0 → 0 < ip.toNat := fun ip h => Nat.pos_of_ne_zero fun h0 => h (UInt32.toNat_inj.1 h0)
  have hpacked : (0 : UInt8) ∉ packed r.ips := by
    rw [packed, List.mem_flatMap]
    rintro ⟨n, hn, h0⟩
    obtain ⟨ip, hip, rfl⟩ := List.mem_map.1 hn
    exact zero_notMem_varint (hpos ip fun e => h.2 (e ▸ hip)) h0
  have hne : r.ips ≠ [] → packed r.ips ≠ [] := by
    intro hips
    obtain ⟨ip, ips, he⟩ := List.exists_cons_of_ne_nil hips
    rw [packed, he, List.map_cons, List.flatMap_cons]
    exact fun e => varintUpTo_ne_nil _ _ (List.append_eq_nil_iff.1 e).1
  refine ⟨?_, zero_notMem_fieldBytes fun f hf => ?_⟩
  · obtain ⟨f, hf⟩ : ∃ f, f ∈ r.fields := by
      simp only [fields, List.mem_append, mem_optional]
      rcases h.1 with he | hips
      · exact ⟨_, .inl ⟨he, rfl⟩⟩
      · exact ⟨_, .inr ⟨hips, rfl⟩⟩
    exact fieldBytes_ne_nil hf
  · rw [fields, List.mem_append, mem_optional, mem_optional] at hf
    rcases hf with ⟨he, rfl⟩ | ⟨hips, rfl⟩
    · exact ⟨by decide, hpos _ he⟩
    · exact ⟨hne hips, hpacked⟩

end Record

namespace Records

/-- An entry of the map: its key and its value. -/
def entryBytes (s : Bytes) (r : Record) : Bytes := fieldBytes [.run 1 s, .run 2 r.serialize]

def addEntry (e : Bytes × Record) : Field → Bytes × Record
  | .run 1 bs => (bs, e.2)
  | .run 2 bs => (e.1, Record.parse bs)
  | _ => e

def entryOf (bs : Bytes) : Bytes × Record := (readFields bs).foldl addEntry ([], {})

theorem entryOf_entryBytes (s : Bytes) (r : Record) : entryOf (entryBytes s r) = (s, r) := by
  simp [entryOf, entryBytes, readFields_bytes, addEntry, Record.parse_serialize]

def fields (r : Records) : List Field :=
  optional [] r.domain (.run 1 r.domain) ++ r.map.entries.map fun e => .run 2 (entryBytes e.1 e.2)

def add (r : Records) : Field → Records
  | .run 1 bs => { r with domain := bs }
  | .run 2 bs => { r with map := r.map.insert (entryOf bs).1 (entryOf bs).2 }
  | _ => r

def serialize (r : Records) : Bytes := fieldBytes r.fields

def parse (bs : Bytes) : Records := (readFields bs).foldl add {}

/-- Entries that are added one by one, under different servers, are found. -/
theorem foldl_add_entries : ∀ {es : List (Sigma fun _ : Bytes => Record)} {r : Records}, es.NodupKeys →
    ((es.map fun e => Field.run 2 (entryBytes e.1 e.2)).foldl add r).domain = r.domain ∧
      ∀ s, ((es.map fun e => Field.run 2 (entryBytes e.1 e.2)).foldl add r).map.lookup s =
        (es.dlookup s).or (r.map.lookup s)
  | [], r, _ => ⟨rfl, fun s => rfl⟩
  | ⟨k, v⟩ :: es, r, h => by
    obtain ⟨hnot, hrest⟩ := List.nodupKeys_cons.1 h
    obtain ⟨hd, hl⟩ := foldl_add_entries (r := { r with map := r.map.insert k v }) hrest
    have hadd : add r (.run 2 (entryBytes k v)) = { r with map := r.map.insert k v } := by
      rw [add, entryOf_entryBytes]
    rw [List.map_cons, List.foldl_cons, hadd]
    refine ⟨hd, fun s => ?_⟩
    rw [hl]
    by_cases hs : s = k
    · subst hs
      rw [List.dlookup_eq_none.2 hnot, AList.lookup_insert, List.dlookup_cons_eq]
      rfl
    · have hne : List.dlookup s (⟨k, v⟩ :: es) = List.dlookup s es := List.dlookup_cons_ne es ⟨k, v⟩ hs
      rw [AList.lookup_insert_ne hs, hne]

/-- **Records** are read back. -/
theorem parse_serialize (r : Records) : (parse r.serialize).Same r := by
  rw [parse, serialize, readFields_bytes, fields, List.foldl_append]
  have hdomain : (optional [] r.domain (.run 1 r.domain)).foldl add {} = { domain := r.domain, map := ∅ } := by
    by_cases hd : r.domain = [] <;> simp [optional, hd, add]
  rw [hdomain]
  obtain ⟨hd, hl⟩ := foldl_add_entries (r := { domain := r.domain, map := ∅ }) r.map.nodupKeys
  refine ⟨hd, fun s => ?_⟩
  rw [hl, AList.lookup_empty, Option.or_none]
  rfl

/-- Adding fields of `r` adds entries of `r`. -/
theorem lookup_foldl_add {r r' : Records} {fs : List Field} (hfs : ∀ f ∈ fs, f ∈ r.fields)
    (h : ∀ s record, r'.map.lookup s = some record → r.map.lookup s = some record) :
    ∀ s record, (fs.foldl add r').map.lookup s = some record → r.map.lookup s = some record := by
  induction fs generalizing r' with
  | nil => exact h
  | cons f fs ih =>
    refine ih (fun f' h' => hfs f' (List.mem_cons_of_mem _ h')) fun s record hl => ?_
    have hf := hfs f List.mem_cons_self
    rw [fields, List.mem_append, mem_optional, List.mem_map] at hf
    rcases hf with ⟨-, rfl⟩ | ⟨⟨k, v⟩, he, rfl⟩
    · exact h s record hl
    · rw [add, entryOf_entryBytes] at hl
      by_cases hs : s = k
      · subst hs
        rw [AList.lookup_insert, Option.some.injEq] at hl
        exact AList.mem_lookup_iff.2 (hl ▸ he)
      · exact h s record ((AList.lookup_insert_ne hs).symm.trans hl)

/-- **Records that are cut off** have entries that were there. -/
theorem parse_cut {r : Records} {bs : Bytes} (h : bs <+: r.serialize) {s : Bytes} {record : Record}
    (hl : (parse bs).map.lookup s = some record) : r.map.lookup s = some record := by
  refine lookup_foldl_add (fun f hf => (readFields_cut h).subset hf) (fun s record hl => ?_) s record hl
  rw [AList.lookup_empty] at hl
  cases hl

theorem ZeroFree.serialize {r : Records} (h : r.ZeroFree) : (0 : UInt8) ∉ r.serialize := by
  refine zero_notMem_fieldBytes fun f hf => ?_
  rw [fields, List.mem_append, mem_optional, List.mem_map] at hf
  rcases hf with ⟨hd, rfl⟩ | ⟨⟨s, record⟩, he, rfl⟩
  · exact ⟨hd, h.1⟩
  · obtain ⟨hs, hs0, hrecord⟩ := h.2 s record (AList.mem_lookup_iff.2 he)
    obtain ⟨hr, hr0⟩ := hrecord.serialize
    refine ⟨fieldBytes_ne_nil (List.mem_cons_self ..), zero_notMem_fieldBytes fun f hf => ?_⟩
    rw [List.mem_cons, List.mem_singleton] at hf
    rcases hf with rfl | rfl
    · exact ⟨hs, hs0⟩
    · exact ⟨hr, hr0⟩

end Records

namespace ReverseRecord

def fields (r : ReverseRecord) : List Field :=
  optional 0 r.ip (.number 1 r.ip.toNat) ++ r.domains.map fun domain => .run 2 domain

def add (r : ReverseRecord) : Field → ReverseRecord
  | .number 1 n => { r with ip := UInt32.ofNat n }
  | .run 2 bs => { r with domains := r.domains ++ [bs] }
  | _ => r

def serialize (r : ReverseRecord) : Bytes := fieldBytes r.fields

def parse (bs : Bytes) : ReverseRecord := (readFields bs).foldl add {}

theorem foldl_add_domains : ∀ (domains : List Bytes) (r : ReverseRecord),
    (domains.map fun domain => Field.run 2 domain).foldl add r = { r with domains := r.domains ++ domains }
  | [], r => by simp
  | domain :: domains, r => by
    rw [List.map_cons, List.foldl_cons, foldl_add_domains domains]
    simp [add]

theorem parse_serialize (r : ReverseRecord) : parse r.serialize = r := by
  obtain ⟨ip, domains⟩ := r
  rw [parse, serialize, readFields_bytes, fields, List.foldl_append, foldl_add_domains]
  by_cases hip : ip = 0 <;> simp [optional, hip, add]

theorem zero_notMem_serialize {r : ReverseRecord} (h : ∀ domain ∈ r.domains, domain ≠ [] ∧ (0 : UInt8) ∉ domain) :
    (0 : UInt8) ∉ r.serialize := by
  refine zero_notMem_fieldBytes fun f hf => ?_
  rw [fields, List.mem_append, mem_optional, List.mem_map] at hf
  rcases hf with ⟨hip, rfl⟩ | ⟨domain, hd, rfl⟩
  · exact ⟨by decide, Nat.pos_of_ne_zero fun h0 => hip (UInt32.toNat_inj.1 h0)⟩
  · exact h domain hd

end ReverseRecord

/-- **The wire format** does what the stores rely on. -/
def wire : Protobuf where
  serializeValue := Value.serialize
  parseValue := Value.parse
  serializeRecords := Records.serialize
  parseRecords := Records.parse
  serializeReverse := ReverseRecord.serialize
  parseReverse := ReverseRecord.parse
  value_inverse := Value.parse_serialize
  records_inverse := Records.parse_serialize
  reverse_inverse := ReverseRecord.parse_serialize
  records_empty := rfl
  records_zeroFree := fun _ h => h.serialize

theorem wire_cuts : wire.Cuts where
  records_cut := fun _ _ h _ _ hl => Records.parse_cut h hl
  reverse_empty := rfl
  reverse_zeroFree := fun _ h => ReverseRecord.zero_notMem_serialize h

end StDns.Proto
