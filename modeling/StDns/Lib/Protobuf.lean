import StDns.Lib.Memory

/-!
# The protocol buffer wire format

Numbers are written seven bits to a byte, lowest first, every byte but the last with its high bit set (`varint`). A
message is a run of fields, each a tag and a number or a counted run of bytes. Reading undoes writing
(`readFields_bytes`), a message that is cut off reads as the fields that were whole (`readFields_cut`), and a message of
fields without zero bytes has none (`zero_notMem_fieldBytes`).
-/

namespace StDns.Lib

/-! ## Numbers -/

/-- The bytes of `n`, at most `k + 1` of them. -/
def varintUpTo : Nat → Nat → Bytes
  | 0, n => [UInt8.ofNat n]
  | k + 1, n => if n < 128 then [UInt8.ofNat n] else UInt8.ofNat (n % 128 + 128) :: varintUpTo k (n / 128)

def varint (n : Nat) : Bytes := varintUpTo n n

/-- The number at the start of the bytes, and the bytes behind it. -/
def readVarint : Bytes → Option (Nat × Bytes)
  | [] => none
  | b :: bs =>
    if b.toNat < 128 then some (b.toNat, bs)
    else (readVarint bs).map fun p => (b.toNat % 128 + 128 * p.1, p.2)

section Numbers

variable {k n : Nat}

theorem readVarint_varintUpTo (rest : Bytes) : ∀ {k n : Nat}, n ≤ k →
    readVarint (varintUpTo k n ++ rest) = some (n, rest)
  | 0, n, h => by
    obtain rfl : n = 0 := by omega
    rfl
  | k + 1, n, h => by
    rw [varintUpTo]
    split
    · rename_i hn
      have hb : (UInt8.ofNat n).toNat = n := by rw [UInt8.toNat_ofNat']; omega
      rw [List.singleton_append, readVarint, hb, if_pos hn]
    · have hb : (UInt8.ofNat (n % 128 + 128)).toNat = n % 128 + 128 := by rw [UInt8.toNat_ofNat']; omega
      rw [List.cons_append, readVarint, hb, if_neg (by omega), readVarint_varintUpTo rest (by omega), Option.map_some,
        Option.some.injEq, Prod.mk.injEq]
      exact ⟨by omega, rfl⟩

/-- **Numbers** are read back. -/
theorem readVarint_varint (n : Nat) (rest : Bytes) : readVarint (varint n ++ rest) = some (n, rest) :=
  readVarint_varintUpTo rest (Nat.le_refl n)

/-- Bytes that are cut off in `a ++ b` are cut off in `a`, or behind it. -/
theorem cut_append {bs a b : Bytes} (h : bs <+: a ++ b) : (bs <+: a ∧ bs ≠ a) ∨ ∃ c, bs = a ++ c ∧ c <+: b := by
  rcases List.prefix_or_prefix_of_prefix h (List.prefix_append a b) with hle | ⟨c, rfl⟩
  · by_cases he : bs = a
    · exact .inr ⟨[], by rw [he, List.append_nil], List.nil_prefix⟩
    · exact .inl ⟨hle, he⟩
  · exact .inr ⟨c, rfl, (List.prefix_append_right_inj a).1 h⟩

/-- A number that is cut off is none. -/
theorem readVarintUpTo_cut : ∀ {k n : Nat} {bs : Bytes}, n ≤ k → bs <+: varintUpTo k n → bs ≠ varintUpTo k n →
    readVarint bs = none
  | _, _, [], _, _, _ => rfl
  | 0, n, b :: bs, _, h, hne => by
    rw [varintUpTo, List.cons_prefix_cons, List.prefix_nil] at h
    exact absurd (by rw [varintUpTo, h.1, h.2]) hne
  | k + 1, n, b :: bs, hk, h, hne => by
    rw [varintUpTo] at h hne
    split at h
    · rename_i hn
      rw [List.cons_prefix_cons, List.prefix_nil] at h
      exact absurd (by rw [if_pos hn, h.1, h.2]) hne
    · rename_i hn
      obtain ⟨rfl, hbs⟩ := List.cons_prefix_cons.1 h
      have hb : (UInt8.ofNat (n % 128 + 128)).toNat = n % 128 + 128 := by rw [UInt8.toNat_ofNat']; omega
      have hcut : bs ≠ varintUpTo k (n / 128) := by
        rintro rfl
        exact hne (by rw [if_neg hn])
      rw [readVarint, hb, if_neg (by omega), readVarintUpTo_cut (by omega) hbs hcut, Option.map_none]

theorem readVarint_cut {bs : Bytes} (h : bs <+: varint n) (hne : bs ≠ varint n) : readVarint bs = none :=
  readVarintUpTo_cut (Nat.le_refl n) h hne

theorem varintUpTo_ne_nil (k n : Nat) : varintUpTo k n ≠ [] := by
  cases k with
  | zero => exact List.cons_ne_nil _ _
  | succ k =>
    rw [varintUpTo]
    split <;> exact List.cons_ne_nil _ _

/-- Only zero is written with a zero byte. -/
theorem zero_notMem_varintUpTo : ∀ {k n : Nat}, n ≤ k → 0 < n → (0 : UInt8) ∉ varintUpTo k n
  | 0, _, h, h' => by omega
  | k + 1, n, h, h' => by
    have hb : ∀ v, 0 < v → v < 256 → (0 : UInt8) ≠ UInt8.ofNat v := by
      intro v hv hv' he
      have he := congrArg UInt8.toNat he
      rw [UInt8.toNat_ofNat'] at he
      simp at he
      omega
    rw [varintUpTo]
    split
    · rw [List.mem_singleton]
      exact hb n h' (by omega)
    · rw [List.mem_cons, not_or]
      exact ⟨hb _ (by omega) (by omega), zero_notMem_varintUpTo (by omega) (by omega)⟩

theorem zero_notMem_varint (h : 0 < n) : (0 : UInt8) ∉ varint n := zero_notMem_varintUpTo (Nat.le_refl n) h

/-- The numbers of a packed field. -/
def readVarints : Nat → Bytes → List Nat
  | 0, _ => []
  | k + 1, bs =>
    match readVarint bs with
    | some (n, rest) => n :: readVarints k rest
    | none => []

theorem readVarints_flatMap : ∀ {k : Nat} {ns : List Nat}, (ns.flatMap varint).length ≤ k →
    readVarints k (ns.flatMap varint) = ns
  | 0, ns, h => by
    cases ns with
    | nil => rfl
    | cons n ns =>
      have hn : (varint n).length ≠ 0 := fun h => varintUpTo_ne_nil n n (List.length_eq_zero_iff.1 h)
      rw [List.flatMap_cons, List.length_append] at h
      omega
  | k + 1, [], _ => rfl
  | k + 1, n :: ns, h => by
    have hn : (varint n).length ≠ 0 := fun h => varintUpTo_ne_nil n n (List.length_eq_zero_iff.1 h)
    rw [List.flatMap_cons, List.length_append] at h
    rw [List.flatMap_cons, readVarints, readVarint_varint]
    simp only [readVarints_flatMap (show (ns.flatMap varint).length ≤ k by omega)]

end Numbers

/-! ## Fields -/

/-- A field with its number: a number, or a counted run of bytes. -/
inductive Field where
  | number (num value : Nat)
  | run (num : Nat) (bytes : Bytes)
  deriving DecidableEq

namespace Field

/-- A field is written behind its tag, the number of the field and its kind. -/
def bytes : Field → Bytes
  | number num value => varint (num * 8) ++ varint value
  | run num bs => varint (num * 8 + 2) ++ (varint bs.length ++ bs)

/-- The first field, and the bytes behind it. -/
def read (bs : Bytes) : Option (Field × Bytes) := do
  let (tag, rest) ← readVarint bs
  if tag % 8 = 0 then
    let (value, rest) ← readVarint rest
    return (number (tag / 8) value, rest)
  else if tag % 8 = 2 then
    let (len, rest) ← readVarint rest
    if len ≤ rest.length then return (run (tag / 8) (rest.take len), rest.drop len) else none
  else none

theorem read_bytes (f : Field) (rest : Bytes) : read (f.bytes ++ rest) = some (f, rest) := by
  cases f with
  | number num value =>
    have htag : num * 8 / 8 = num := by omega
    simp only [bytes, read, List.append_assoc, readVarint_varint, Option.bind_eq_bind, Option.bind_some]
    rw [if_pos (by omega), htag]
    rfl
  | run num bs =>
    have htag : (num * 8 + 2) / 8 = num := by omega
    simp only [bytes, read, List.append_assoc, readVarint_varint, Option.bind_eq_bind, Option.bind_some]
    rw [if_neg (by omega), if_pos (by omega), if_pos (by simp), List.take_left, List.drop_left, htag]
    rfl

/-- A field that is cut off is none. -/
theorem read_cut {f : Field} {bs : Bytes} (h : bs <+: f.bytes) (hne : bs ≠ f.bytes) : read bs = none := by
  cases f with
  | number num value =>
    rcases cut_append h with ⟨htag, htag'⟩ | ⟨c, rfl, hc⟩
    · rw [read, readVarint_cut htag htag']
      rfl
    · have hc' : c ≠ varint value := fun he => hne (by rw [he, bytes])
      simp only [read, readVarint_varint, readVarint_cut hc hc', Option.bind_eq_bind, Option.bind_some,
        Option.bind_none]
      rw [if_pos (by omega)]
  | run num content =>
    rcases cut_append h with ⟨htag, htag'⟩ | ⟨c, rfl, hc⟩
    · rw [read, readVarint_cut htag htag']
      rfl
    · simp only [read, readVarint_varint, Option.bind_eq_bind, Option.bind_some]
      rw [if_neg (by omega), if_pos (by omega)]
      rcases cut_append hc with ⟨hlen, hlen'⟩ | ⟨d, rfl, hd⟩
      · rw [readVarint_cut hlen hlen', Option.bind_none]
      · -- the bytes that are counted are not all there
        have hshort : ¬content.length ≤ d.length := by
          intro hl
          exact hne (by rw [hd.eq_of_length_le hl, bytes])
        rw [readVarint_varint, Option.bind_some, if_neg hshort]

theorem length_bytes_pos (f : Field) : 0 < f.bytes.length := by
  have hpos : ∀ n, 0 < (varint n).length := fun n => List.length_pos_iff.2 (varintUpTo_ne_nil n n)
  cases f with
  | number num value =>
    rw [bytes, List.length_append]
    exact Nat.add_pos_left (hpos _) _
  | run num bs =>
    rw [bytes, List.length_append]
    exact Nat.add_pos_left (hpos _) _

/-- The fields at the start of the bytes, at most `k`: those before the first that is malformed or cut off. -/
def readAll : Nat → Bytes → List Field
  | 0, _ => []
  | k + 1, bs =>
    match read bs with
    | some (f, rest) => f :: readAll k rest
    | none => []

theorem readAll_flatMap : ∀ {k : Nat} {fs : List Field}, (fs.flatMap bytes).length ≤ k →
    readAll k (fs.flatMap bytes) = fs
  | 0, [], _ => rfl
  | 0, f :: fs, h => by
    have hf := f.length_bytes_pos
    rw [List.flatMap_cons, List.length_append] at h
    omega
  | k + 1, [], _ => rfl
  | k + 1, f :: fs, h => by
    have hf := f.length_bytes_pos
    rw [List.flatMap_cons, List.length_append] at h
    rw [List.flatMap_cons, readAll, read_bytes]
    simp only [readAll_flatMap (show (fs.flatMap bytes).length ≤ k by omega)]

/-- Of fields that are cut off those at the start are read. -/
theorem readAll_cut : ∀ {k : Nat} {fs : List Field} {bs : Bytes}, bs <+: fs.flatMap bytes → readAll k bs <+: fs
  | 0, _, _, _ => List.nil_prefix
  | k + 1, [], bs, h => by
    rw [List.flatMap_nil, List.prefix_nil] at h
    subst h
    exact List.nil_prefix
  | k + 1, f :: fs, bs, h => by
    rw [List.flatMap_cons] at h
    rcases cut_append h with ⟨hf, hne⟩ | ⟨c, rfl, hc⟩
    · rw [readAll, read_cut hf hne]
      exact List.nil_prefix
    · rw [readAll, read_bytes]
      exact List.cons_prefix_cons.2 ⟨rfl, readAll_cut hc⟩

/-- A field that is written without a zero byte: its number and value are not zero, its run is not empty and has no
zero byte. -/
def ZeroFree : Field → Prop
  | number num value => 0 < num ∧ 0 < value
  | run _ bs => bs ≠ [] ∧ (0 : UInt8) ∉ bs

theorem ZeroFree.zero_notMem {f : Field} (h : f.ZeroFree) : (0 : UInt8) ∉ f.bytes := by
  cases f with
  | number num value =>
    rw [bytes, List.mem_append, not_or]
    exact ⟨zero_notMem_varint (by have := h.1; omega), zero_notMem_varint h.2⟩
  | run num bs =>
    rw [bytes, List.mem_append, List.mem_append, not_or, not_or]
    exact ⟨zero_notMem_varint (by omega), zero_notMem_varint (List.length_pos_iff.2 h.1), h.2⟩

end Field

/-- The fields of a message. -/
def readFields (bs : Bytes) : List Field := Field.readAll bs.length bs

def fieldBytes (fs : List Field) : Bytes := fs.flatMap Field.bytes

/-- **Messages** are read back. -/
theorem readFields_bytes (fs : List Field) : readFields (fieldBytes fs) = fs := Field.readAll_flatMap (Nat.le_refl _)

/-- **Messages that are cut off** read as fields at their start. -/
theorem readFields_cut {fs : List Field} {bs : Bytes} (h : bs <+: fieldBytes fs) : readFields bs <+: fs :=
  Field.readAll_cut h

theorem fieldBytes_ne_nil {f : Field} {fs : List Field} (h : f ∈ fs) : fieldBytes fs ≠ [] := by
  intro he
  exact absurd (List.flatMap_eq_nil_iff.1 he f h) (List.length_pos_iff.1 f.length_bytes_pos)

/-- A message of fields without zero bytes has none. -/
theorem zero_notMem_fieldBytes {fs : List Field} (h : ∀ f ∈ fs, f.ZeroFree) : (0 : UInt8) ∉ fieldBytes fs := by
  rw [fieldBytes, List.mem_flatMap]
  rintro ⟨f, hf, h0⟩
  exact (h f hf).zero_notMem h0

end StDns.Lib
