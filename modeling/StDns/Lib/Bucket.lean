import Mathlib.Algebra.Order.Field.Basic
import Mathlib.Tactic.Linarith

/-!
# Token buckets

A bucket has a level. A refill adds some amount, but not beyond the capacity; a take needs a whole token and takes it.
However refills and takes follow each other, the level stays between zero and the capacity (`Path.within`), and the
tokens taken are no more than what the bucket had and what was refilled (`Path.takes_le`).
-/

namespace StDns.Lib.Bucket

/-- What happens to a bucket. -/
inductive Change where
  | refill
  | take
  | keep
  deriving DecidableEq

variable {K : Type} [Field K] [LinearOrder K]

/-- One change of the level. -/
inductive Step (capacity amount : K) : K → Change → K → Prop
  | refill (level : K) : Step capacity amount level .refill (min capacity (level + amount))
  | take {level : K} : 1 ≤ level → Step capacity amount level .take (level - 1)
  | keep (level : K) : Step capacity amount level .keep level

/-- Changes one after the other, the last of them at the end. -/
inductive Path (capacity amount : K) (start : K) : List Change → K → Prop
  | start : Path capacity amount start [] start
  | next {changes : List Change} {change : Change} {level level' : K} : Path capacity amount start changes level →
    Step capacity amount level change level' → Path capacity amount start (changes ++ [change]) level'

section Bounds

variable [IsStrictOrderedRing K] {capacity amount start level level' : K} {changes : List Change} {change : Change}

theorem Step.within (hamount : 0 ≤ amount) (h : Step capacity amount level change level')
    (hlevel : 0 ≤ level ∧ level ≤ capacity) : 0 ≤ level' ∧ level' ≤ capacity := by
  cases h with
  | refill => exact ⟨le_min (hlevel.1.trans hlevel.2) (add_nonneg hlevel.1 hamount), min_le_left _ _⟩
  | take hone => exact ⟨sub_nonneg.2 hone, (sub_le_self _ zero_le_one).trans hlevel.2⟩
  | keep => exact hlevel

/-- **The level** stays between zero and the capacity. -/
theorem Path.within (hamount : 0 ≤ amount) (h : Path capacity amount start changes level)
    (hstart : 0 ≤ start ∧ start ≤ capacity) : 0 ≤ level ∧ level ≤ capacity := by
  induction h with
  | start => exact hstart
  | next _ hstep ih => exact hstep.within hamount ih

/-- What is taken and what is left come from what was there and what was refilled. -/
theorem Path.balance (h : Path capacity amount start changes level) :
    (changes.count .take : K) + level ≤ start + changes.count .refill * amount := by
  induction h with
  | start => simp
  | @next changes change level level' _ hstep ih =>
    simp only [List.count_append]
    cases hstep with
    | refill =>
      have hle := min_le_right capacity (level + amount)
      have htakes : [Change.refill].count .take = 0 := by decide
      have hrefills : [Change.refill].count .refill = 1 := by decide
      rw [htakes, hrefills, Nat.add_zero, Nat.cast_add, Nat.cast_one]
      linarith
    | take =>
      have htakes : [Change.take].count .take = 1 := by decide
      have hrefills : [Change.take].count .refill = 0 := by decide
      rw [htakes, hrefills, Nat.cast_add, Nat.cast_one, Nat.add_zero]
      linarith
    | keep =>
      have htakes : [Change.keep].count .take = 0 := by decide
      have hrefills : [Change.keep].count .refill = 0 := by decide
      rw [htakes, hrefills]
      exact ih

/-- **The tokens taken** from a bucket that is not over its capacity. -/
theorem Path.takes_le (hamount : 0 ≤ amount) (h : Path capacity amount start changes level)
    (hstart : 0 ≤ start ∧ start ≤ capacity) :
    (changes.count .take : K) ≤ capacity + changes.count .refill * amount := by
  have hbalance := h.balance
  have hlevel := (h.within hamount hstart).1
  linarith [hstart.2]

end Bounds

end StDns.Lib.Bucket
