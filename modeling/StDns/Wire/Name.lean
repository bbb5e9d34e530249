import StDns.Lib.Memory

/-!
# Compressed domain names

A name in a message is a run of labels closed by a zero byte or by a two-byte pointer to a name elsewhere in the
message. `WireName` is that shape, `WireName.At m b` says that `m` writes it at offset `b` with every pointer going
to a smaller offset. Its text is its own labels and those of the name it points to, joined by dots (`WireName.text`).
-/

namespace StDns.Wire

open Lib

/-- The byte between the labels of a text. -/
def sep : UInt8 := 46

/-- A label as a message writes it: 1 to 63 bytes. -/
def LabelOk (l : Bytes) : Prop := 0 < l.length ∧ l.length ≤ 63

instance (l : Bytes) : Decidable (LabelOk l) := inferInstanceAs (Decidable (_ ∧ _))

/-- The bytes of a run of labels, each behind its length. -/
def labelBytes : List Bytes → Bytes
  | [] => []
  | l :: ls => UInt8.ofNat l.length :: l ++ labelBytes ls

/-- The number of bytes of a run of labels. -/
def labelsLen : List Bytes → Nat
  | [] => 0
  | l :: ls => l.length + 1 + labelsLen ls

/-- The two bytes of a pointer to offset `pos`. -/
def pointerBytes (pos : Nat) : Bytes := [UInt8.ofNat (192 + pos / 256), UInt8.ofNat (pos % 256)]

/-- Labels joined by dots. -/
def joinLabels : List Bytes → Bytes
  | [] => []
  | [l] => l
  | l :: ls => l ++ sep :: joinLabels ls

@[simp] theorem length_labelBytes (ls : List Bytes) : (labelBytes ls).length = labelsLen ls := by
  induction ls with
  | nil => rfl
  | cons l ls ih => simp only [labelBytes, labelsLen, List.cons_append, List.length_cons, List.length_append, ih]; omega

@[simp] theorem length_pointerBytes (pos : Nat) : (pointerBytes pos).length = 2 := rfl

theorem joinLabels_cons_cons (l l' : Bytes) (ls : List Bytes) :
    joinLabels (l :: l' :: ls) = l ++ sep :: joinLabels (l' :: ls) := rfl

theorem joinLabels_eq_intercalate (ls : List Bytes) : joinLabels ls = [sep].intercalate ls := by
  induction ls with
  | nil => rfl
  | cons l ls ih =>
    cases ls with
    | nil => simp [joinLabels]
    | cons l' ls => rw [joinLabels_cons_cons, ih, List.intercalate_cons_cons, List.append_assoc, List.singleton_append]

/-- Joining labels behind labels puts one dot between the two texts. -/
theorem joinLabels_append {ls ls' : List Bytes} (h : ls ≠ []) (h' : ls' ≠ []) :
    joinLabels (ls ++ ls') = joinLabels ls ++ sep :: joinLabels ls' := by
  induction ls with
  | nil => exact absurd rfl h
  | cons l ls ih =>
    cases ls with
    | nil =>
      obtain ⟨l', ls', rfl⟩ := List.exists_cons_of_ne_nil h'
      rfl
    | cons k ls =>
      have hc := ih (List.cons_ne_nil k ls)
      simp only [List.cons_append, joinLabels_cons_cons] at hc ⊢
      rw [hc, List.append_assoc, List.cons_append]

theorem joinLabels_ne_nil {ls : List Bytes} (h : ls ≠ []) (hok : ∀ l ∈ ls, LabelOk l) : joinLabels ls ≠ [] := by
  obtain ⟨l, ls, rfl⟩ := List.exists_cons_of_ne_nil h
  have hl : l ≠ [] := List.length_pos_iff.1 (hok l (by simp)).1
  cases ls with
  | nil => exact hl
  | cons k ls => simp [joinLabels_cons_cons, hl]

/-- The bytes of a name at its own place: its labels, closed by a zero byte or by a pointer. -/
structure OwnName where
  labels : List Bytes
  pointer : Option Nat

namespace OwnName

/-- The zero byte or the pointer. -/
def closing (o : OwnName) : Bytes :=
  match o.pointer with
  | none => [0]
  | some pos => pointerBytes pos

def bytes (o : OwnName) : Bytes := labelBytes o.labels ++ o.closing

/-- The number of bytes the name takes at its own place. -/
def len (o : OwnName) : Nat := labelsLen o.labels + o.closing.length

/-- `m` writes the name at offset `b`, whatever its pointer goes to. -/
def At (m : Bytes) (b : Nat) (o : OwnName) : Prop :=
  (∀ l ∈ o.labels, LabelOk l) ∧ (∀ pos ∈ o.pointer, pos < 2 ^ 14) ∧ Holds m b o.bytes

instance (m : Bytes) (b : Nat) (o : OwnName) : Decidable (o.At m b) := inferInstanceAs (Decidable (_ ∧ _ ∧ _))

theorem closing_length_pos (o : OwnName) : 0 < o.closing.length := by
  unfold closing
  split <;> simp

theorem At.mono {m m' : Bytes} {b : Nat} {o : OwnName} (h : o.At m b) (hm : m <+: m') : o.At m' b :=
  ⟨h.1, h.2.1, Holds.mono h.2.2 hm⟩

theorem At.drop {m : Bytes} {b : Nat} {o : OwnName} (h : o.At m b) : o.At (m.drop b) 0 :=
  ⟨h.1, h.2.1, holds_drop.2 h.2.2⟩

end OwnName

/-- A name as a message writes it. -/
inductive WireName where
  | plain (labels : List Bytes)
  | pointed (labels : List Bytes) (pos : Nat) (target : WireName)

namespace WireName

/-- The number of bytes the name takes at its own place. -/
def ownLen : WireName → Nat
  | plain ls => labelsLen ls + 1
  | pointed ls _ _ => labelsLen ls + 2

/-- All labels, those of the name pointed to included. -/
def labels : WireName → List Bytes
  | plain ls => ls
  | pointed ls _ t => ls ++ t.labels

/-- The pointers followed in all. -/
def hops : WireName → Nat
  | plain _ => 0
  | pointed _ _ t => t.hops + 1

def text (w : WireName) : Bytes := joinLabels w.labels

/-- The bytes of the name at its own place. -/
def ownBytes : WireName → Bytes
  | plain ls => labelBytes ls ++ [0]
  | pointed ls pos _ => labelBytes ls ++ pointerBytes pos

/-- `m` writes the name at offset `b`; a pointer goes to a smaller offset. -/
def At (m : Bytes) : Nat → WireName → Prop
  | b, plain ls => (∀ l ∈ ls, LabelOk l) ∧ Holds m b (ownBytes (plain ls))
  | b, pointed ls pos t =>
    (∀ l ∈ ls, LabelOk l) ∧ Holds m b (ownBytes (pointed ls pos t)) ∧ pos < 2 ^ 14 ∧ pos < b ∧ At m pos t

instance decidableAt (m : Bytes) : (b : Nat) → (w : WireName) → Decidable (At m b w)
  | _, plain _ => inferInstanceAs (Decidable (_ ∧ _))
  | _, pointed _ pos t =>
    have := decidableAt m pos t
    inferInstanceAs (Decidable (_ ∧ _ ∧ _ ∧ _ ∧ _))

/-- No label has a zero byte. -/
def ZeroFree (w : WireName) : Prop := ∀ l ∈ w.labels, (0 : UInt8) ∉ l

instance (w : WireName) : Decidable w.ZeroFree := inferInstanceAs (Decidable (∀ l ∈ w.labels, (0 : UInt8) ∉ l))

@[simp] theorem length_ownBytes (w : WireName) : w.ownBytes.length = w.ownLen := by
  cases w <;> simp [ownBytes, ownLen]

theorem ownLen_pos (w : WireName) : 0 < w.ownLen := by
  cases w <;> simp [ownLen]

theorem At.holds {m : Bytes} {b : Nat} {w : WireName} (h : w.At m b) : Holds m b w.ownBytes := by
  cases w with
  | plain ls => exact h.2
  | pointed ls pos t => exact h.2.1

/-- A name lies inside its message. -/
theorem At.length_le {m : Bytes} {b : Nat} {w : WireName} (h : w.At m b) : b + w.ownLen ≤ m.length := by
  have hp := w.ownLen_pos
  rw [← length_ownBytes] at hp ⊢
  exact h.holds.length_le (List.length_pos_iff.1 hp)

end WireName

end StDns.Wire
