import StDns.Lib.Memory
import Mathlib.Logic.Function.Basic

/-!
# Decimal texts

The text of a number in decimal digits, as bytes, and the number that a text of digits stands for; no two numbers have
the same text (`decimal_injective`). `stoi` reads a number from the start of a text.
-/

namespace StDns.Lib

/-- The digits of a number. -/
def decimal (n : Nat) : Bytes := (Nat.toDigits 10 n).map fun c => UInt8.ofNat c.toNat

/-- `isdigit` in the C locale. -/
def isDigit (c : UInt8) : Bool := 48 ≤ c ∧ c ≤ 57

/-- The number that digits stand for. -/
def digitsValue (digits : Bytes) : Nat := digits.foldl (fun n c => 10 * n + (c.toNat - 48)) 0

/-! ## Texts of numbers -/

/-- A digit as a character and as a byte. -/
theorem toNat_digit {c : Char} (h : c.isDigit) : (UInt8.ofNat c.toNat).toNat = c.toNat := by
  rw [Char.isDigit, Bool.and_eq_true, decide_eq_true_eq, decide_eq_true_eq] at h
  have hle : c.toNat ≤ 57 := h.2
  rw [UInt8.toNat_ofNat']
  omega

theorem isDigit_of_mem_decimal {n : Nat} {c : UInt8} (h : c ∈ decimal n) : isDigit c = true := by
  obtain ⟨d, hd, rfl⟩ := List.mem_map.1 h
  have hdigit := Nat.isDigit_of_mem_toDigits (by omega) (by omega) hd
  have hsame := toNat_digit hdigit
  rw [Char.isDigit, Bool.and_eq_true, decide_eq_true_eq, decide_eq_true_eq] at hdigit
  have hlow : 48 ≤ d.toNat := hdigit.1
  have hhigh : d.toNat ≤ 57 := hdigit.2
  rw [isDigit, decide_eq_true_eq, UInt8.le_iff_toNat_le, UInt8.le_iff_toNat_le, hsame]
  exact ⟨hlow, hhigh⟩

theorem decimal_ne_nil (n : Nat) : decimal n ≠ [] := by
  rw [decimal, ne_eq, List.map_eq_nil_iff]
  exact Nat.toDigits_ne_nil

theorem length_decimal_le {n k : Nat} (hk : 0 < k) (h : n < 10 ^ k) : (decimal n).length ≤ k := by
  rw [decimal, List.length_map]
  exact (Nat.length_toDigits_le_iff (by omega) hk).2 h

/-- Reading digits as characters or as bytes is the same. -/
theorem foldl_digits (digits : List Char) (h : ∀ c ∈ digits, c.isDigit) (n : Nat) :
    (digits.map fun c => UInt8.ofNat c.toNat).foldl (fun n c => 10 * n + (c.toNat - 48)) n =
      Nat.ofDigitChars 10 digits n := by
  induction digits generalizing n with
  | nil => rfl
  | cons c digits ih =>
    rw [List.map_cons, List.foldl_cons, Nat.ofDigitChars_cons, toNat_digit (h c List.mem_cons_self)]
    exact ih (fun d hd => h d (List.mem_cons_of_mem _ hd)) _

theorem digitsValue_decimal (n : Nat) : digitsValue (decimal n) = n := by
  rw [digitsValue, decimal, foldl_digits _ fun c hc => Nat.isDigit_of_mem_toDigits (by omega) (by omega) hc]
  exact Nat.ofDigitChars_ten_toDigits

/-- **Two numbers** have two texts. -/
theorem decimal_injective : Function.Injective decimal := Function.LeftInverse.injective digitsValue_decimal

/-! ## Numbers in texts -/

/-- `isspace` in the C locale. -/
def isSpace (c : UInt8) : Bool := c = 32 ∨ (9 ≤ c ∧ c ≤ 13)

/-- The sign in front of a number, and what is behind it. -/
def splitSign : Bytes → Bool × Bytes
  | 45 :: text => (true, text)
  | 43 :: text => (false, text)
  | text => (false, text)

/-- `std::stoi`: the `int` that a text begins with; nothing when it throws, because there is no digit or the number is
out of range. -/
def stoi (text : Bytes) : Option Int :=
  let (negative, text) := splitSign (text.dropWhile isSpace)
  let digits := text.takeWhile isDigit
  if digits = [] then none
  else
    let n : Int := if negative then -digitsValue digits else digitsValue digits
    if -2 ^ 31 ≤ n ∧ n < 2 ^ 31 then some n else none

theorem isSpace_of_isDigit {c : UInt8} (h : isDigit c = true) : isSpace c = false := by
  rw [isDigit, decide_eq_true_eq, UInt8.le_iff_toNat_le] at h
  have hlow : 48 ≤ c.toNat := h.1
  rw [isSpace, decide_eq_false_iff_not, UInt8.le_iff_toNat_le, UInt8.le_iff_toNat_le]
  rintro (rfl | ⟨-, hle⟩)
  · exact absurd hlow (by decide)
  · have hle' : c.toNat ≤ 13 := hle
    omega

/-- In front of a digit there is no sign. -/
theorem splitSign_of_isDigit {c : UInt8} (h : isDigit c = true) (text : Bytes) :
    splitSign (c :: text) = (false, c :: text) := by
  rw [isDigit, decide_eq_true_eq, UInt8.le_iff_toNat_le] at h
  have hlow : 48 ≤ c.toNat := h.1
  unfold splitSign
  split
  · exact absurd hlow (by simp_all)
  · exact absurd hlow (by simp_all)
  · rfl

/-- Digits end where something else begins. -/
theorem span_digits {digits text : Bytes} (hdigits : ∀ c ∈ digits, isDigit c = true)
    (htext : ∀ c ∈ text.head?, isDigit c = false) :
    (digits ++ text).takeWhile isDigit = digits ∧ (digits ++ text).dropWhile isDigit = text := by
  rw [List.takeWhile_append_of_pos hdigits, List.dropWhile_append_of_pos hdigits]
  cases text with
  | nil => exact ⟨List.append_nil _, rfl⟩
  | cons c text =>
    have hc : ¬isDigit c = true := by simp [htext c rfl]
    rw [List.takeWhile_cons_of_neg hc, List.dropWhile_cons_of_neg hc]
    exact ⟨List.append_nil _, rfl⟩

/-- The digits that a text begins with are read as their number, whatever is behind them. -/
theorem stoi_digits {digits text : Bytes} (hne : digits ≠ []) (hdigits : ∀ c ∈ digits, isDigit c = true)
    (htext : ∀ c ∈ text.head?, isDigit c = false) (h : digitsValue digits < 2 ^ 31) :
    stoi (digits ++ text) = some (digitsValue digits : Int) := by
  obtain ⟨c, rest, rfl⟩ := List.exists_cons_of_ne_nil hne
  have hdigit : isDigit c = true := hdigits c List.mem_cons_self
  have hskip : (c :: rest ++ text).dropWhile isSpace = c :: (rest ++ text) :=
    List.dropWhile_cons_of_neg (by simp [isSpace_of_isDigit hdigit])
  have htake : (c :: (rest ++ text)).takeWhile isDigit = c :: rest := by
    rw [← List.cons_append, (span_digits hdigits htext).1]
  simp only [stoi, hskip, splitSign_of_isDigit hdigit, htake, if_neg hne, Bool.false_eq_true, if_false]
  rw [if_pos ⟨by omega, by omega⟩]

/-- The text of an `int` is read as that number. -/
theorem stoi_decimal {n : Nat} (h : n < 2 ^ 31) : stoi (decimal n) = some (n : Int) := by
  have hread := @stoi_digits (decimal n) [] (decimal_ne_nil n) (fun _ => isDigit_of_mem_decimal) (by simp)
    (by rwa [digitsValue_decimal])
  rwa [List.append_nil, digitsValue_decimal] at hread

end StDns.Lib
