import StDns.Lib.Memory
import Mathlib.Logic.Basic

/-!
# Encodings that keep ASCII

An encoding of texts as bytes is checked byte by byte. In one that keeps ASCII, a byte below 128 is a character of its
own, so that a text with such a byte in it is well-formed iff what is on both sides of it is
(`wellFormed_append_cons`). UTF-8 is one of them.
-/

namespace StDns.Lib

structure Encoding where
  State : Type
  [decEq : DecidableEq State]
  start : State
  step : State → UInt8 → Option State
  ascii : ∀ s c, c < 128 → step s c = if s = start then some start else none

attribute [instance] Encoding.decEq

namespace Encoding

variable (enc : Encoding)

/-- The check of some bytes. -/
def run (s : enc.State) (bs : Bytes) : Option enc.State := bs.foldlM enc.step s

/-- The bytes are whole characters. -/
def WellFormed (bs : Bytes) : Prop := enc.run enc.start bs = some enc.start

instance (bs : Bytes) : Decidable (enc.WellFormed bs) := inferInstanceAs (Decidable (_ = _))

section Laws

variable {enc : Encoding} {s : enc.State} {a b bs : Bytes} {c : UInt8}

@[simp] theorem run_nil : enc.run s [] = some s := rfl

theorem run_cons : enc.run s (c :: bs) = (enc.step s c).bind fun s => enc.run s bs := List.foldlM_cons ..

theorem run_append : enc.run s (a ++ b) = (enc.run s a).bind fun s => enc.run s b := List.foldlM_append ..

theorem run_ascii_cons (h : c < 128) : enc.run s (c :: bs) = if s = enc.start then enc.run enc.start bs else none := by
  rw [run_cons, enc.ascii s c h]
  split <;> rfl

/-- ASCII is read between characters only, whatever its length. -/
theorem run_ascii (hne : bs ≠ []) (h : ∀ c ∈ bs, c < 128) :
    enc.run s bs = if s = enc.start then some enc.start else none := by
  induction bs generalizing s with
  | nil => exact absurd rfl hne
  | cons c bs ih =>
    obtain ⟨hc, hbs⟩ := List.forall_mem_cons.1 h
    rw [run_ascii_cons hc]
    cases bs with
    | nil => rfl
    | cons d bs => rw [ih (List.cons_ne_nil _ _) hbs, if_pos rfl]

@[simp] theorem wellFormed_nil : enc.WellFormed [] := rfl

theorem wellFormed_cons (h : c < 128) : enc.WellFormed (c :: bs) ↔ enc.WellFormed bs := by
  rw [WellFormed, run_ascii_cons h, if_pos rfl]
  rfl

theorem wellFormed_of_ascii (h : ∀ c ∈ bs, c < 128) : enc.WellFormed bs := by
  cases bs with
  | nil => rfl
  | cons c bs => rw [WellFormed, run_ascii (List.cons_ne_nil _ _) h, if_pos rfl]

/-- **A byte of ASCII** parts a text. -/
theorem wellFormed_append_cons (h : c < 128) :
    enc.WellFormed (a ++ c :: b) ↔ enc.WellFormed a ∧ enc.WellFormed b := by
  rw [WellFormed, run_append, WellFormed, WellFormed]
  cases enc.run enc.start a with
  | none => simp
  | some s =>
    rw [Option.bind_some, run_ascii_cons h, Option.some.injEq]
    split
    · rename_i hs
      rw [and_iff_right hs]
    · rename_i hs
      simp [hs]

/-- What is written for the bytes one by one, ASCII for ASCII, is well-formed as they are. -/
theorem run_flatMap {f : UInt8 → Bytes} (hhigh : ∀ c, 128 ≤ c → f c = [c])
    (hlow : ∀ c, c < 128 → f c ≠ [] ∧ ∀ d ∈ f c, d < 128) : enc.run s (bs.flatMap f) = enc.run s bs := by
  induction bs generalizing s with
  | nil => rfl
  | cons c bs ih =>
    have hstep : enc.run s (f c) = enc.run s [c] := by
      rcases UInt8.lt_or_le c 128 with hc | hc
      · rw [run_ascii (hlow c hc).1 (hlow c hc).2, run_ascii_cons hc]
        rfl
      · rw [hhigh c hc]
    rw [List.flatMap_cons, run_append, hstep, run_cons, run_cons]
    cases enc.step s c with
    | none => rfl
    | some s' => exact ih

end Laws

end Encoding

/-! ## UTF-8 -/

/-- What of a character is still to come: nothing, one to three bytes, or what may follow certain first bytes. -/
inductive Utf8State where
  | start
  | one
  | two
  | three
  | afterE0
  | afterED
  | afterF0
  | afterF4
  deriving DecidableEq

/-- The byte is from a range. -/
def within (low high c : UInt8) : Bool := low ≤ c ∧ c ≤ high

def Utf8State.step : Utf8State → UInt8 → Option Utf8State
  | start, c =>
    if c < 128 then some start
    else if within 0xC2 0xDF c then some one
    else if c = 0xE0 then some afterE0
    else if c = 0xED then some afterED
    else if within 0xE1 0xEF c then some two
    else if c = 0xF0 then some afterF0
    else if within 0xF1 0xF3 c then some three
    else if c = 0xF4 then some afterF4
    else none
  | one, c => if within 0x80 0xBF c then some start else none
  | two, c => if within 0x80 0xBF c then some one else none
  | three, c => if within 0x80 0xBF c then some two else none
  | afterE0, c => if within 0xA0 0xBF c then some one else none
  | afterED, c => if within 0x80 0x9F c then some one else none
  | afterF0, c => if within 0x90 0xBF c then some two else none
  | afterF4, c => if within 0x80 0x8F c then some two else none

theorem not_within {low high c : UInt8} (hlow : 128 ≤ low) (h : c < 128) : within low high c = false := by
  rw [within, decide_eq_false_iff_not]
  exact fun hw => absurd (UInt8.lt_of_lt_of_le h (UInt8.le_trans hlow hw.1)) (UInt8.lt_irrefl c)

def utf8 : Encoding where
  State := Utf8State
  start := .start
  step := Utf8State.step
  ascii s c h := by
    cases s with
    | start => exact if_pos h
    | one => exact if_neg (by rw [not_within (by decide) h]; decide)
    | two => exact if_neg (by rw [not_within (by decide) h]; decide)
    | three => exact if_neg (by rw [not_within (by decide) h]; decide)
    | afterE0 => exact if_neg (by rw [not_within (by decide) h]; decide)
    | afterED => exact if_neg (by rw [not_within (by decide) h]; decide)
    | afterF0 => exact if_neg (by rw [not_within (by decide) h]; decide)
    | afterF4 => exact if_neg (by rw [not_within (by decide) h]; decide)

end StDns.Lib
