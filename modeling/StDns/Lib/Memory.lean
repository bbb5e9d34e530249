import StDns.Lib.Loop
import Mathlib.Algebra.Order.Ring.Nat
import Mathlib.Data.List.Forall2
import Mathlib.Data.List.Infix
import Mathlib.Data.List.TakeWhile

/-!
# Byte memory

A memory is the list of its bytes; a read outside it gives nothing. `Holds m i bs` says that the bytes `bs` lie at
index `i`; it splits along the bytes (`holds_cons`, `holds_append`). `slice` reads a run of bytes, `store` overwrites
one, and a memory that is written from its front is `padded` with zeros behind (`store_padded`). A computation that
reads a memory is `Stable` when a result it gives is still its result over every memory that continues the first.
-/

namespace StDns.Lib

abbrev Bytes := List UInt8

/-- Texts are looked for in lists by their bytes. -/
instance : LawfulBEq Bytes := inferInstanceAs (LawfulBEq (List UInt8))

/-- The text of a character array that a zero ends: the bytes before the first zero. -/
def cString (bs : Bytes) : Bytes := bs.takeWhile (· ≠ 0)

theorem zero_notMem_cString (bs : Bytes) : (0 : UInt8) ∉ cString bs := fun h => by
  simpa using List.mem_takeWhile_imp h

theorem cString_of_zeroFree {bs : Bytes} (h : (0 : UInt8) ∉ bs) : cString bs = bs :=
  List.takeWhile_eq_self_iff.2 fun x hx => by
    have : x ≠ 0 := fun e => h (e ▸ hx)
    simpa using this

/-- The bytes `bs` lie in `m` at index `i`. -/
def Holds (m : Bytes) (i : Nat) (bs : Bytes) : Prop := bs <+: m.drop i

instance (m : Bytes) (i : Nat) (bs : Bytes) : Decidable (Holds m i bs) := inferInstanceAs (Decidable (bs <+: m.drop i))

/-- The `n` bytes of `m` from index `i`, when they all lie in `m`. -/
def slice (m : Bytes) (i n : Nat) : Option Bytes := if i + n ≤ m.length then some ((m.drop i).take n) else none

/-- `m` with the bytes from index `i` overwritten by `bs`, when they all lie in `m`. -/
def store (m : Bytes) (i : Nat) (bs : Bytes) : Option Bytes :=
  if i + bs.length ≤ m.length then some (m.take i ++ bs ++ m.drop (i + bs.length)) else none

/-- A memory of `size` bytes that begins with `bs` and is zero behind it. -/
def padded (size : Nat) (bs : Bytes) : Bytes := bs ++ List.replicate (size - bs.length) 0

/-! ## Bytes in place -/

section Holding

variable {m : Bytes} {i : Nat}

@[simp] theorem holds_nil : Holds m i [] := List.nil_prefix

theorem holds_cons {b : UInt8} {bs : Bytes} : Holds m i (b :: bs) ↔ m[i]? = some b ∧ Holds m (i + 1) bs := by
  unfold Holds
  cases hd : m.drop i with
  | nil =>
    have hi : m[i]? = none := by
      rw [List.getElem?_eq_none_iff]; exact List.drop_eq_nil_iff.1 hd
    simp [hi]
  | cons a rest =>
    have hi : m[i]? = some a := by
      have h0 : (m.drop i)[0]? = some a := by rw [hd]; rfl
      simpa using h0
    have hr : m.drop (i + 1) = rest := by rw [← List.drop_drop, hd]; rfl
    rw [List.cons_prefix_cons, hi, hr, Option.some.injEq, eq_comm]

theorem holds_append {xs ys : Bytes} : Holds m i (xs ++ ys) ↔ Holds m i xs ∧ Holds m (i + xs.length) ys := by
  induction xs generalizing i with
  | nil => simp
  | cons x xs ih =>
    have he : i + 1 + xs.length = i + (x :: xs).length := by simp only [List.length_cons]; omega
    rw [List.cons_append, holds_cons, holds_cons, ih, and_assoc, he]

theorem holds_iff_getElem? {bs : Bytes} : Holds m i bs ↔ ∀ j < bs.length, m[i + j]? = bs[j]? := by
  induction bs generalizing i with
  | nil => simp
  | cons b bs ih =>
    rw [holds_cons, ih]
    constructor
    · rintro ⟨h0, hs⟩ j hj
      cases j with
      | zero => simpa using h0
      | succ j =>
        have hj' : j < bs.length := by simpa using hj
        have he : i + 1 + j = i + (j + 1) := by omega
        rw [← he, hs j hj', List.getElem?_cons_succ]
    · intro h
      refine ⟨by simpa using h 0 (by simp), fun j hj => ?_⟩
      have he : i + 1 + j = i + (j + 1) := by omega
      rw [he, h (j + 1) (by simpa using hj), List.getElem?_cons_succ]

theorem Holds.length_le {bs : Bytes} (h : Holds m i bs) (hne : bs ≠ []) : i + bs.length ≤ m.length := by
  have hl := List.IsPrefix.length_le h
  have hpos := List.length_pos_iff.2 hne
  rw [List.length_drop] at hl
  omega

theorem Holds.getElem? {bs : Bytes} (h : Holds m i bs) {j : Nat} (hj : j < bs.length) : m[i + j]? = bs[j]? :=
  holds_iff_getElem?.1 h j hj

theorem Holds.mono {m' bs : Bytes} (h : Holds m i bs) (hm : m <+: m') : Holds m' i bs :=
  List.IsPrefix.trans h (hm.drop i)

theorem holds_drop {d : Nat} {bs : Bytes} : Holds (m.drop d) i bs ↔ Holds m (d + i) bs := by
  unfold Holds; rw [List.drop_drop]

/-- Bytes that end before index `k` are the same in the first `k` bytes. -/
theorem holds_take {k : Nat} {bs : Bytes} (h : i + bs.length ≤ k) : Holds (m.take k) i bs ↔ Holds m i bs := by
  rw [holds_iff_getElem?, holds_iff_getElem?]
  refine forall_congr' fun j => forall_congr' fun hj => ?_
  rw [List.getElem?_take_of_lt (by omega)]

theorem slice_eq_some {n : Nat} {bs : Bytes} (hn : 0 < n) :
    slice m i n = some bs ↔ Holds m i bs ∧ bs.length = n := by
  unfold slice Holds
  split
  · rename_i h
    have hl : (m.drop i).length = m.length - i := List.length_drop
    rw [Option.some.injEq]
    constructor
    · rintro rfl
      exact ⟨List.take_prefix _ _, by rw [List.length_take]; omega⟩
    · rintro ⟨hp, rfl⟩
      exact (List.prefix_iff_eq_take.1 hp).symm
  · rename_i h
    constructor
    · intro h'; cases h'
    · rintro ⟨hp, rfl⟩
      have hl : i + bs.length ≤ m.length := Holds.length_le (show Holds m i bs from hp) (List.length_pos_iff.1 hn)
      exact absurd hl h

theorem Holds.slice {bs : Bytes} (h : Holds m i bs) (hne : bs ≠ []) : slice m i bs.length = some bs :=
  (slice_eq_some (List.length_pos_iff.2 hne)).2 ⟨h, rfl⟩

end Holding

/-! ## Overwriting -/

section Storing

variable {m m' bs : Bytes} {i : Nat}

theorem length_store (h : store m i bs = some m') : m'.length = m.length := by
  unfold store at h
  split at h
  · rename_i hl
    cases h
    simp only [List.length_append, List.length_take, List.length_drop]
    omega
  · cases h

theorem store_isSome_iff : (store m i bs).isSome ↔ i + bs.length ≤ m.length := by
  unfold store
  split <;> simp [*]

theorem store_isSome (m : Bytes) (i : Nat) (bs : Bytes) (h : i + bs.length ≤ m.length) :
    ∃ m', store m i bs = some m' := by
  unfold store; rw [if_pos h]; exact ⟨_, rfl⟩

/-- What is read at an index after a store. -/
theorem getElem?_store (h : store m i bs = some m') (j : Nat) :
    m'[j]? = if i ≤ j ∧ j < i + bs.length then bs[j - i]? else m[j]? := by
  unfold store at h
  split at h
  · rename_i hl
    cases h
    have hti : (m.take i).length = i := by rw [List.length_take]; omega
    rcases Nat.lt_or_ge j i with hji | hji
    · rw [if_neg (by omega), List.append_assoc, List.getElem?_append_left (by omega), List.getElem?_take_of_lt hji]
    · rw [List.append_assoc, List.getElem?_append_right (by omega), hti]
      rcases Nat.lt_or_ge j (i + bs.length) with hjb | hjb
      · rw [if_pos ⟨hji, hjb⟩, List.getElem?_append_left (by omega)]
      · rw [if_neg (by omega), List.getElem?_append_right (by omega), List.getElem?_drop]
        congr 1; omega
  · cases h

@[simp] theorem length_padded {size : Nat} (h : bs.length ≤ size) : (padded size bs).length = size := by
  rw [padded, List.length_append, List.length_replicate]
  omega

@[simp] theorem padded_nil (size : Nat) : padded size [] = List.replicate size 0 := rfl

/-- A store right behind what was written so far. -/
theorem store_padded {size : Nat} {w : Bytes} (h : w.length + bs.length ≤ size) :
    store (padded size w) w.length bs = some (padded size (w ++ bs)) := by
  have hrest : size - w.length - bs.length = size - (w ++ bs).length := by rw [List.length_append]; omega
  rw [store, length_padded (by omega), if_pos h, padded, padded, List.take_left, List.drop_append,
    List.drop_replicate, Nat.add_sub_cancel_left, hrest, List.drop_eq_nil_of_le (by omega), List.nil_append]

/-- A store over what was written first. -/
theorem store_padded_front {size : Nat} (old new : Bytes) {w : Bytes} (hlen : new.length = old.length)
    (h : (old ++ w).length ≤ size) : store (padded size (old ++ w)) 0 new = some (padded size (new ++ w)) := by
  have hall : (new ++ w).length = (old ++ w).length := by rw [List.length_append, List.length_append, hlen]
  have hle : 0 + new.length ≤ (padded size (old ++ w)).length := by
    rw [length_padded h]
    rw [List.length_append] at h
    omega
  rw [store, if_pos hle, padded, padded, hall, List.take_zero, List.nil_append, Nat.zero_add, hlen, List.append_assoc,
    List.drop_left, List.append_assoc]

theorem holds_padded (size : Nat) (bs : Bytes) : Holds (padded size bs) 0 bs := List.prefix_append bs _

end Storing

/-! ## Lists of optional results -/

theorem mapM_eq_some_iff {α β : Type} {f : α → Option β} : ∀ {l : List α} {r : List β},
    l.mapM f = some r ↔ List.Forall₂ (fun a b => f a = some b) l r
  | [], r => by simp [eq_comm]
  | a :: l, r => by
    rw [List.mapM_cons]
    simp only [Option.bind_eq_bind, Option.bind_eq_some_iff, Option.pure_def, Option.some.injEq]
    constructor
    · rintro ⟨b, hb, r, hr, rfl⟩
      exact .cons hb (mapM_eq_some_iff.1 hr)
    · rintro (_ | ⟨hb, hr⟩)
      exact ⟨_, hb, _, mapM_eq_some_iff.2 hr, rfl⟩

theorem exists_of_mem_mapM {α β : Type} {f : α → Option β} {l : List α} {r : List β} {b : β} (h : l.mapM f = some r)
    (hb : b ∈ r) : ∃ a ∈ l, f a = some b := by
  have hf := mapM_eq_some_iff.1 h
  clear h
  induction hf with
  | nil => cases hb
  | cons hab _ ih =>
    rcases List.mem_cons.1 hb with rfl | hb
    · exact ⟨_, List.mem_cons_self, hab⟩
    · obtain ⟨a, ha, hab⟩ := ih hb
      exact ⟨a, List.mem_cons_of_mem _ ha, hab⟩

/-- Reading `n` bytes one by one from index `i` on. -/
theorem mapM_getElem?_iff {m : Bytes} {i n : Nat} {bs : Bytes} :
    (List.range n).mapM (fun j => m[i + j]?) = some bs ↔ Holds m i bs ∧ bs.length = n := by
  rw [mapM_eq_some_iff, List.forall₂_iff_get, holds_iff_getElem?]
  constructor
  · rintro ⟨hlen, h⟩
    rw [List.length_range] at hlen
    subst hlen
    refine ⟨fun j hj => ?_, rfl⟩
    have hget := h j (by simpa using hj) hj
    rw [List.getElem?_eq_getElem hj]
    simpa using hget
  · rintro ⟨h, rfl⟩
    refine ⟨List.length_range, fun j hj hj' => ?_⟩
    have hget := h j hj'
    rw [List.getElem?_eq_getElem hj'] at hget
    simpa using hget

/-! ## Computations that only grow with the memory -/

/-- A result over a memory is the result over every memory that continues it. -/
def Stable {α : Type} (f : Bytes → Option α) : Prop := ∀ (m m' : Bytes) (r : α), m <+: m' → f m = some r → f m' = some r

section Stability

variable {α β : Type}

theorem getElem?_mono {m m' : Bytes} (h : m <+: m') {i : Nat} {b : UInt8} (hb : m[i]? = some b) :
    m'[i]? = some b := by
  obtain ⟨t, rfl⟩ := h
  have hi := (List.getElem?_eq_some_iff.1 hb).1
  rw [List.getElem?_append_left hi]; exact hb

theorem Stable.const (r : Option α) : Stable fun _ => r := fun _ _ _ _ h => h

theorem Stable.get (i : Nat) : Stable fun m => m[i]? := fun _ _ _ h hb => getElem?_mono h hb

/-- What comes behind needs to be stable only for the results that come before. -/
theorem Stable.bind {f : Bytes → Option α} {g : α → Bytes → Option β} (hf : Stable f)
    (hg : ∀ m a, f m = some a → Stable (g a)) : Stable fun m => f m >>= fun a => g a m := by
  intro m m' r h hr
  obtain ⟨a, ha, hb⟩ := Option.bind_eq_some_iff.1 hr
  exact Option.bind_eq_some_iff.2 ⟨a, hf m m' a h ha, hg m a ha m m' r h hb⟩

theorem Stable.map {f : Bytes → Option α} (g : α → β) (hf : Stable f) : Stable fun m => (f m).map g := by
  intro m m' r h hr
  obtain ⟨a, ha, hb⟩ := Option.map_eq_some_iff.1 hr
  exact Option.map_eq_some_iff.2 ⟨a, hf m m' a h ha, hb⟩

theorem Stable.ite {p : Prop} [Decidable p] {f g : Bytes → Option α} (hf : Stable f) (hg : Stable g) :
    Stable fun m => if p then f m else g m := by
  intro m m' r h hr
  by_cases hp : p
  · simp only [if_pos hp] at hr ⊢; exact hf m m' r h hr
  · simp only [if_neg hp] at hr ⊢; exact hg m m' r h hr

theorem Stable.foldlM {f : β → α → Bytes → Option β} (hf : ∀ b a, Stable (f b a)) (l : List α) (b : β) :
    Stable fun m => l.foldlM (fun b a => f b a m) b := by
  induction l generalizing b with
  | nil => exact Stable.const (some b)
  | cons a l ih =>
    simp only [List.foldlM_cons]
    exact Stable.bind (hf b a) fun _ b' _ => ih b'

theorem Stable.mapM {f : α → Bytes → Option β} (hf : ∀ a, Stable (f a)) (l : List α) :
    Stable fun m => l.mapM fun a => f a m := by
  intro m m' r h hr
  exact mapM_eq_some_iff.2 ((mapM_eq_some_iff.1 hr).imp fun a b hb => hf a m m' b h hb)

/-- A loop is stable when its rounds are: a round that does not fail is the same round over more memory. -/
theorem Stable.loop {σ ρ : Type} {body : Bytes → σ → Round σ (Option ρ)} {μ : σ → Nat} (out : σ → Option ρ)
    (hμ : ∀ m, Descends (body m) μ)
    (hb : ∀ m m' s r, m <+: m' → body m s = r → r ≠ .done none → body m' s = r) (s : σ) :
    Stable fun m => loop (body m) out μ s := by
  intro m m' r hm h
  change Lib.loop (body m) out μ s = some r at h
  have agree : Lib.loop (body m') out μ s = Lib.loop (body m) out μ s := by
    refine loop_agree (P := fun r => r ≠ none) (hμ m) (hμ m') ?_ ?_ s (by rw [h]; simp)
    · exact fun s s' hs _ => hb m m' s _ hm hs (by simp)
    · exact fun s r hs hr => hb m m' s _ hm hs fun e => hr (Round.done.inj e)
  exact agree.trans h

end Stability

end StDns.Lib
