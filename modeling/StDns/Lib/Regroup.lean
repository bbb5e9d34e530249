import Mathlib.Data.List.Range
import Mathlib.Tactic.Ring

/-!
# Regrouping of bits

Words of one width as words of another, the highest bit first. To narrower words what is missing in the last one is
filled with zeros, to wider words what is left over is dropped. Narrowing and widening again gives the words back
(`widen_narrow`).
-/

namespace StDns.Lib.Regroup

section Words

variable {w : Nat}

def toBits (x : BitVec w) : List Bool := (List.range w).map x.getMsbD

/-- The first bits, with zeros where there are none. -/
def ofBits (w : Nat) (bits : List Bool) : BitVec w :=
  (BitVec.ofBoolListBE ((List.range w).map fun i => bits.getD i false)).cast (by simp)

/-- The first `n` words of the bits. -/
def regroup (w n : Nat) (bits : List Bool) : List (BitVec w) := (List.range n).map fun i => ofBits w (bits.drop (w * i))

@[simp] theorem length_toBits (x : BitVec w) : (toBits x).length = w := by simp [toBits]

@[simp] theorem length_regroup (n : Nat) (bits : List Bool) : (regroup w n bits).length = n := by simp [regroup]

theorem getMsbD_ofBits {bits : List Bool} {i : Nat} (h : i < w) : (ofBits w bits).getMsbD i = bits.getD i false := by
  rw [ofBits, BitVec.getMsbD_cast, BitVec.getMsbD_ofBoolListBE]
  simp [List.getD_eq_getElem?_getD, h]

theorem toBits_ofBits (bits : List Bool) : toBits (ofBits w bits) = (List.range w).map fun i => bits.getD i false :=
  List.map_congr_left fun _ hi => getMsbD_ofBits (List.mem_range.1 hi)

/-- A word is read from the first bits only. -/
theorem ofBits_congr {bits bits' : List Bool} (h : ∀ i < w, bits.getD i false = bits'.getD i false) :
    ofBits w bits = ofBits w bits' :=
  BitVec.eq_of_getMsbD_eq fun i hi => by rw [getMsbD_ofBits hi, getMsbD_ofBits hi, h i hi]

theorem ofBits_toBits_append (x : BitVec w) (rest : List Bool) : ofBits w (toBits x ++ rest) = x :=
  BitVec.eq_of_getMsbD_eq fun i hi => by
    rw [getMsbD_ofBits hi, List.getD_eq_getElem?_getD, List.getElem?_append_left (by simpa using hi)]
    simp [toBits, hi]

theorem getD_drop (bits : List Bool) (n i : Nat) : (bits.drop n).getD i false = bits.getD (n + i) false := by
  rw [List.getD_eq_getElem?_getD, List.getD_eq_getElem?_getD, List.getElem?_drop]

theorem regroup_congr {bits bits' : List Bool} {n : Nat} (h : ∀ i < w * n, bits.getD i false = bits'.getD i false) :
    regroup w n bits = regroup w n bits' := by
  refine List.map_congr_left fun i hi => ofBits_congr fun j hj => ?_
  rw [getD_drop, getD_drop]
  refine h _ ?_
  calc w * i + j < w * i + w := Nat.add_lt_add_left hj _
    _ = w * (i + 1) := by ring
    _ ≤ w * n := Nat.mul_le_mul_left w (List.mem_range.1 hi)

/-- **The bits of the words** are the bits, with zeros where there are none. -/
theorem flatMap_regroup (bits : List Bool) (n : Nat) :
    (regroup w n bits).flatMap toBits = (List.range (w * n)).map fun i => bits.getD i false := by
  induction n with
  | zero => simp [regroup]
  | succ n ih =>
    have hlast : (ofBits w (bits.drop (w * n)) :: []).flatMap toBits =
        (List.range w).map fun i => bits.getD (w * n + i) false := by
      rw [List.flatMap_singleton, toBits_ofBits]
      exact List.map_congr_left fun i _ => getD_drop bits _ i
    have hsplit : regroup w (n + 1) bits = regroup w n bits ++ [ofBits w (bits.drop (w * n))] := by
      rw [regroup, List.range_succ, List.map_append]
      rfl
    rw [hsplit, List.flatMap_append, ih, hlast, Nat.mul_succ, List.range_add, List.map_append, List.map_map]
    rfl

/-- All bits of some words give the words. -/
theorem regroup_flatMap (xs : List (BitVec w)) : regroup w xs.length (xs.flatMap toBits) = xs := by
  induction xs with
  | nil => rfl
  | cons x xs ih =>
    have hrest : ∀ i, (toBits x ++ xs.flatMap toBits).drop (w * (i + 1)) = (xs.flatMap toBits).drop (w * i) := by
      intro i
      rw [Nat.mul_succ, Nat.add_comm, ← List.drop_drop, List.drop_left' (length_toBits x)]
    rw [List.flatMap_cons, List.length_cons, regroup, List.range_succ_eq_map, List.map_cons, List.map_map,
      Nat.mul_zero, List.drop_zero, ofBits_toBits_append]
    congr 1
    refine Eq.trans (List.map_congr_left fun i _ => ?_) ih
    exact congrArg (ofBits w) (hrest i)

theorem length_flatMap (xs : List (BitVec w)) : (xs.flatMap toBits).length = w * xs.length := by
  induction xs with
  | nil => rfl
  | cons x xs ih => rw [List.flatMap_cons, List.length_append, length_toBits, ih, List.length_cons, Nat.mul_succ,
      Nat.add_comm]

end Words

section Widths

variable {a b : Nat}

/-- Narrower words, the last one filled with zeros. -/
def narrow (a : Nat) (xs : List (BitVec b)) : List (BitVec a) :=
  regroup a ((b * xs.length + (a - 1)) / a) (xs.flatMap toBits)

/-- Wider words, the bits that are left over dropped. -/
def widen (b : Nat) (ys : List (BitVec a)) : List (BitVec b) := regroup b (a * ys.length / b) (ys.flatMap toBits)

theorem length_narrow (xs : List (BitVec b)) : (narrow a xs).length = (b * xs.length + (a - 1)) / a :=
  length_regroup _ _

/-- **Narrowing and widening** gives the words back. -/
theorem widen_narrow (ha : 0 < a) (hab : a ≤ b) (xs : List (BitVec b)) : widen b (narrow a xs) = xs := by
  have hb : 0 < b := Nat.lt_of_lt_of_le ha hab
  -- the zeros that were filled in are fewer than a wide word has
  have hle : b * xs.length ≤ a * ((b * xs.length + (a - 1)) / a) := by
    have hmod := Nat.div_add_mod (b * xs.length + (a - 1)) a
    have hlt := Nat.mod_lt (b * xs.length + (a - 1)) ha
    omega
  have hlt : a * ((b * xs.length + (a - 1)) / a) < b * (xs.length + 1) := by
    have hmul := Nat.mul_div_le (b * xs.length + (a - 1)) a
    rw [Nat.mul_succ]
    omega
  have hcount : a * (narrow a xs).length / b = xs.length := by
    rw [length_narrow]
    rw [Nat.div_eq_iff hb, Nat.mul_comm _ b]
    rw [Nat.mul_succ] at hlt
    omega
  rw [widen, hcount, narrow, flatMap_regroup]
  refine Eq.trans (regroup_congr fun i hi => ?_) (regroup_flatMap xs)
  have hi' := Nat.lt_of_lt_of_le hi hle
  simp [List.getD_eq_getElem?_getD, hi']

end Widths

end StDns.Lib.Regroup
