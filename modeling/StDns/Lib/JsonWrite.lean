import StDns.Lib.JsonText
import Mathlib.Tactic.IntervalCases

/-!
# Writing JSON

A writer puts every text between quotes, with its characters escaped one by one. What is between the quotes is read
back whatever it is (`readString_escaped`). `boostWriter` is one.
-/

namespace StDns.Lib.Json

/-! ## Reading one character -/

section Characters

variable {c : UInt8}

theorem readString_quote (text : Bytes) : readString (quote :: text) = some ([], text) := by
  rw [readString.eq_def]
  exact if_pos rfl

theorem readString_plain (hquote : c ≠ quote) (hbackslash : c ≠ backslash) (hc : ¬c < 32) (text : Bytes) :
    readString (c :: text) = (readString text).map fun r => (c :: r.1, r.2) := by
  rw [readString.eq_def]
  simp only [if_neg hquote, if_neg hbackslash, if_neg hc]

theorem readString_letter (hc : c ≠ 117) (text : Bytes) : readString (backslash :: c :: text) =
    (unescape c).bind fun d => (readString text).map fun r => (d :: r.1, r.2) := by
  rw [readString.eq_def]
  cases h : unescape c <;> simp [backslash, quote, hc, h]

/-- An escape by number stands for that character. -/
theorem readString_unit {a b c d : UInt8} {n : Nat} (hunit : unit a b c d = some n) (hn : n < 0xD800) (text : Bytes) :
    readString (backslash :: 117 :: a :: b :: c :: d :: text) =
      (readString text).map fun r => (encodeUtf8 n ++ r.1, r.2) := by
  rw [readString.eq_def]
  simp [backslash, quote, hunit, hn]

end Characters

/-! ## Writers -/

/-- How texts are written, and what is behind the object. -/
structure Writer where
  escape : UInt8 → Bytes
  ending : Bytes
  reads : ∀ c text, readString (escape c ++ text) = (readString text).map fun r => (c :: r.1, r.2)
  escape_quote : escape quote = [backslash, quote]
  quote_notMem : ∀ c, c ≠ quote → quote ∉ escape c
  escape_digit : ∀ c, isDigit c = true ∨ c = point → escape c = [c]
  plain_or_escaped : ∀ c, escape c = [c] ∨ backslash ∈ escape c
  high : ∀ c, 128 ≤ c → escape c = [c]
  low : ∀ c, c < 128 → escape c ≠ [] ∧ ∀ d ∈ escape c, d < 128
  white : skipWhite ending = []

namespace Writer

variable (w : Writer)

def escaped (s : Bytes) : Bytes := s.flatMap w.escape

def quoted (s : Bytes) : Bytes := quote :: (w.escaped s ++ [quote])

/-- The text of a tree; nothing when a tree with subtrees has data, or the outermost tree has. -/
def write (tree : Tree) : Option Bytes :=
  match tree with
  | .node data children =>
    if data = [] ∧ children.writable = true then some (text w.quoted w.quoted tree ++ w.ending) else none

section Laws

variable {w} {s rest : Bytes} {c : UInt8} {fuel : Nat}

theorem escaped_cons : w.escaped (c :: s) = w.escape c ++ w.escaped s := List.flatMap_cons

theorem escaped_append : w.escaped (s ++ rest) = w.escaped s ++ w.escaped rest := List.flatMap_append

/-- Digits and points are written as they are. -/
theorem escaped_digits (h : ∀ c ∈ s, isDigit c = true ∨ c = point) : w.escaped s = s := by
  induction s with
  | nil => rfl
  | cons c s ih =>
    obtain ⟨hc, hs⟩ := List.forall_mem_cons.1 h
    rw [escaped_cons, w.escape_digit c hc, ih hs, List.singleton_append]

theorem readString_append (s text : Bytes) :
    readString (w.escaped s ++ text) = (readString text).map fun r => (s ++ r.1, r.2) := by
  induction s with
  | nil => cases h : readString text <;> simp [escaped, h]
  | cons c s ih =>
    rw [escaped_cons, List.append_assoc, w.reads, ih, Option.map_map]
    rfl

/-- **What is written** for a text, up to its second quote, is read as that text. -/
theorem readString_escaped (s text : Bytes) : readString (w.escaped s ++ quote :: text) = some (s, text) := by
  rw [readString_append, readString_quote, Option.map_some, List.append_nil]

theorem readName_quoted (s text : Bytes) : readName (w.quoted s ++ colon :: text) = some (s, text) := by
  rw [quoted, List.cons_append, List.append_assoc, List.singleton_append, readName, skipWhite_cons rfl]
  simp only [if_true, readString_escaped, Option.bind_eq_bind, Option.bind_some]
  rw [skipWhite_cons rfl]
  exact if_pos rfl

theorem readValue_quote (rest : Bytes) :
    readValue (fuel + 1) (quote :: rest) = (readString rest).map fun r => (leaf r.1, r.2) := by
  rw [readValue, skipWhite_cons rfl]
  exact if_pos rfl

theorem readValue_quoted (s text : Bytes) : readValue (fuel + 1) (w.quoted s ++ text) = some (leaf s, text) := by
  rw [quoted, List.cons_append, List.append_assoc, List.singleton_append, readValue_quote, readString_escaped]
  rfl

/-- Escaping keeps an encoding. -/
theorem wellFormed_quoted {enc : Encoding} : enc.WellFormed (w.quoted s) ↔ enc.WellFormed s := by
  rw [quoted, Encoding.wellFormed_cons (by decide), wellFormed_concat (by decide), Encoding.WellFormed, escaped,
    Encoding.run_flatMap w.high w.low, Encoding.WellFormed]

end Laws

end Writer

/-! ## The writer of boost -/

/-- A hexadecimal digit, in upper case. -/
def hexDigit (n : Nat) : UInt8 := UInt8.ofNat (if n < 10 then 48 + n else 55 + n)

/-- The characters that are written as they are. -/
def isPlain (c : UInt8) : Bool := c = 0x20 ∨ c = 0x21 ∨ within 0x23 0x2E c ∨ within 0x30 0x5B c ∨ 0x5D ≤ c

/-- The characters that have a letter, with it. -/
def letters : List (UInt8 × UInt8) := [(8, 98), (12, 102), (10, 110), (13, 114), (9, 116), (47, 47), (34, 34), (92, 92)]

/-- `create_escapes` for one character. -/
def createEscape (c : UInt8) : Bytes :=
  if isPlain c then [c]
  else
    match letters.find? fun l => l.1 = c with
    | some l => [backslash, l.2]
    | none => [backslash, 117, 48, 48, hexDigit (c.toNat / 16), hexDigit (c.toNat % 16)]

section Escapes

theorem hexValue_hexDigit {n : Nat} (h : n < 16) : hexValue (hexDigit n) = some n := by
  interval_cases n <;> rfl

theorem hexDigit_ascii {n : Nat} (h : n < 16) : hexDigit n < 128 ∧ quote ≠ hexDigit n := by
  interval_cases n <;> decide

/-- Four digits are read as the character they write. -/
theorem unit_hexDigits (c : UInt8) : unit 48 48 (hexDigit (c.toNat / 16)) (hexDigit (c.toNat % 16)) = some c.toNat := by
  have hc := c.toNat_lt
  have hzero : hexValue 48 = some 0 := rfl
  simp only [unit, hzero, hexValue_hexDigit (show c.toNat / 16 < 16 by omega),
    hexValue_hexDigit (show c.toNat % 16 < 16 by omega), Option.bind_eq_bind, Option.bind_some, Option.pure_def,
    Option.some.injEq]
  omega

theorem of_isPlain {c : UInt8} (h : isPlain c = true) : c ≠ quote ∧ c ≠ backslash ∧ ¬c < 32 := by
  simp only [isPlain, within, decide_eq_true_eq, UInt8.le_iff_toNat_le, UInt8.lt_iff_toNat_lt, ← UInt8.toNat_inj,
    UInt8.toNat_ofNat, ne_eq, quote, backslash] at h ⊢
  omega

/-- A character that is neither written as it is nor has a letter is a control character. -/
theorem lt_of_not_isPlain {c : UInt8} (h : isPlain c = false) (hletter : letters.find? (fun l => l.1 = c) = none) :
    c < 32 := by
  simp only [isPlain, within, decide_eq_false_iff_not, decide_eq_true_eq, UInt8.le_iff_toNat_le, ← UInt8.toNat_inj,
    UInt8.toNat_ofNat] at h
  simp only [List.find?_eq_none, letters, decide_eq_true_eq, ← UInt8.toNat_inj] at hletter
  simp at hletter
  rw [UInt8.lt_iff_toNat_lt]
  simp
  omega

/-- A character is written as it is, with a letter, or by its number. -/
theorem createEscape_cases (c : UInt8) :
    (createEscape c = [c] ∧ isPlain c = true) ∨ (∃ l ∈ letters, l.1 = c ∧ createEscape c = [backslash, l.2]) ∨
      (createEscape c = [backslash, 117, 48, 48, hexDigit (c.toNat / 16), hexDigit (c.toNat % 16)] ∧ c < 32) := by
  unfold createEscape
  split
  · rename_i hplain
    exact .inl ⟨rfl, hplain⟩
  · rename_i hplain
    split
    · rename_i l hl
      exact .inr (.inl ⟨l, List.mem_of_find?_eq_some hl, by simpa using List.find?_some hl, rfl⟩)
    · rename_i hnone
      exact .inr (.inr ⟨rfl, lt_of_not_isPlain (by simpa using hplain) hnone⟩)

/-- The letters are read as their characters. -/
theorem letters_read {l : UInt8 × UInt8} (h : l ∈ letters) : l.2 ≠ 117 ∧ unescape l.2 = some l.1 ∧ l.2 < 128 ∧
    l.1 < 128 ∧ (l.2 = quote → l.1 = quote) ∧ isDigit l.1 = false ∧ l.1 ≠ point := by
  have hall : letters.all (fun l => l.2 ≠ 117 ∧ unescape l.2 = some l.1 ∧ l.2 < 128 ∧ l.1 < 128 ∧
      (l.2 = quote → l.1 = quote) ∧ isDigit l.1 = false ∧ l.1 ≠ point) = true := by decide
  exact of_decide_eq_true (List.all_eq_true.1 hall l h)

theorem encodeUtf8_of_lt {c : UInt8} (h : c < 128) : encodeUtf8 c.toNat = [c] := by
  have hn : c.toNat < 0x80 := UInt8.lt_iff_toNat_lt.1 h
  rw [encodeUtf8, if_pos hn, UInt8.ofNat_toNat]

theorem createEscape_reads (c : UInt8) (text : Bytes) :
    readString (createEscape c ++ text) = (readString text).map fun r => (c :: r.1, r.2) := by
  rcases createEscape_cases c with ⟨he, hplain⟩ | ⟨l, hl, rfl, he⟩ | ⟨he, hc⟩
  · obtain ⟨hquote, hbackslash, hc⟩ := of_isPlain hplain
    rw [he]
    exact readString_plain hquote hbackslash hc text
  · obtain ⟨hu, hread, -⟩ := letters_read hl
    rw [he, List.cons_append, List.singleton_append, readString_letter hu, hread]
    rfl
  · have hlow : c < 128 := UInt8.lt_trans hc (by decide)
    have hn : c.toNat < 0xD800 := by have := c.toNat_lt; omega
    rw [he]
    exact (readString_unit (unit_hexDigits c) hn text).trans (by rw [encodeUtf8_of_lt hlow]; rfl)

/-- An escape is the character itself, or a backslash and characters of ASCII behind it that are no quotes but for a
quote. -/
theorem createEscape_eq (c : UInt8) : createEscape c = [c] ∧ c ≠ quote ∨
    ∃ rest, createEscape c = backslash :: rest ∧ c < 128 ∧ (∀ d ∈ rest, d < 128) ∧ (c ≠ quote → quote ∉ rest) ∧
      isDigit c = false ∧ c ≠ point := by
  rcases createEscape_cases c with ⟨he, hplain⟩ | ⟨l, hl, rfl, he⟩ | ⟨he, hc⟩
  · exact .inl ⟨he, (of_isPlain hplain).1⟩
  · obtain ⟨-, -, hlow, hchar, hquote, hdigit, hpoint⟩ := letters_read hl
    have hfree : l.1 ≠ quote → quote ∉ [l.2] := fun hne => by simpa using fun h => hne (hquote h.symm)
    exact .inr ⟨_, he, hchar, by simpa using hlow, hfree, hdigit, hpoint⟩
  · have hn := c.toNat_lt
    have hhigh := hexDigit_ascii (show c.toNat / 16 < 16 by omega)
    have hlow := hexDigit_ascii (show c.toNat % 16 < 16 by omega)
    refine .inr ⟨_, he, UInt8.lt_trans hc (by decide), ?_, fun _ => ?_, ?_, ?_⟩
    · simp [hhigh.1, hlow.1]
    · simpa using ⟨by decide, by decide, hhigh.2, hlow.2⟩
    · rw [UInt8.lt_iff_toNat_lt] at hc
      rw [isDigit, decide_eq_false_iff_not, UInt8.le_iff_toNat_le]
      exact fun h => absurd (Nat.lt_of_le_of_lt h.1 hc) (by decide)
    · rintro rfl
      exact absurd hc (by decide)

/-- `write_json` of boost, without a line end behind the object. -/
def boostWriter : Writer where
  escape := createEscape
  ending := []
  reads := createEscape_reads
  escape_quote := rfl
  quote_notMem c hc := by
    rcases createEscape_eq c with ⟨he, hne⟩ | ⟨rest, he, -, -, hquote, -⟩
    · simpa [he] using hne.symm
    · rw [he, List.mem_cons, not_or]
      exact ⟨by decide, hquote hc⟩
  escape_digit c hc := by
    rcases createEscape_eq c with ⟨he, -⟩ | ⟨rest, -, -, -, -, hdigit, hpoint⟩
    · exact he
    · rw [hdigit] at hc
      exact absurd hc (by simpa using hpoint)
  plain_or_escaped c := by
    rcases createEscape_eq c with ⟨he, -⟩ | ⟨rest, he, -⟩
    · exact .inl he
    · exact .inr (he ▸ List.mem_cons_self)
  high c hc := by
    rcases createEscape_eq c with ⟨he, -⟩ | ⟨rest, -, hlow, -⟩
    · exact he
    · exact absurd hlow (UInt8.not_lt.2 hc)
  low c hc := by
    rcases createEscape_eq c with ⟨he, -⟩ | ⟨rest, he, -, hrest, -⟩
    · exact he ▸ ⟨by simp, by simpa using hc⟩
    · exact he ▸ ⟨by simp, List.forall_mem_cons.2 ⟨by decide, hrest⟩⟩
  white := rfl

end Escapes

end StDns.Lib.Json
