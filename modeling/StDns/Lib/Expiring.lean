import Mathlib.Data.List.Induction
import Mathlib.Logic.Function.Basic
import Mathlib.Order.Lattice

/-!
# Stores whose entries expire

A store has under a key a value with a deadline, or with none. A value is there before its deadline. What a store has
under a key after some operations is the entry of the last put that no later one touches (`replay_eq_some_iff`). Two
stores are the same from a time on when they show the same values at all times from then on; taking out what is past
its deadline leaves a store the same (`sameFrom_erase`).
-/

namespace StDns.Lib.Expiring

structure Entry (Time Value : Type) where
  value : Value
  deadline : Option Time

abbrev Store (Time Key Value : Type) := Key → Option (Entry Time Value)

inductive Op (Time Key Value : Type) where
  | put (key : Key) (entry : Entry Time Value)
  | erase (key : Key)
  | clear
  | look

variable {Time Key Value : Type}

/-- The value is there. -/
def Entry.AliveAt [LT Time] (entry : Entry Time Value) (now : Time) : Prop := ∀ d ∈ entry.deadline, now < d

instance [LT Time] [DecidableLT Time] (entry : Entry Time Value) (now : Time) : Decidable (entry.AliveAt now) :=
  match h : entry.deadline with
  | none => isTrue fun d hd => by rw [h] at hd; cases hd
  | some d => decidable_of_iff (now < d) (by simp [Entry.AliveAt, h])

/-- What the store shows under a key. -/
def Store.at? [LT Time] [DecidableLT Time] (m : Store Time Key Value) (now : Time) (key : Key) : Option Value :=
  (m key).bind fun entry => if entry.AliveAt now then some entry.value else none

def Op.apply [DecidableEq Key] (m : Store Time Key Value) : Op Time Key Value → Store Time Key Value
  | put key entry => Function.update m key (some entry)
  | erase key => Function.update m key none
  | clear => fun _ => none
  | look => m

/-- The store after some operations. -/
def replay [DecidableEq Key] (ops : List (Op Time Key Value)) : Store Time Key Value := ops.foldl Op.apply fun _ => none

/-! ## The last put -/

/-- The operation may change what is under the key. -/
def Op.Touches (key : Key) : Op Time Key Value → Prop
  | put k _ => k = key
  | erase k => k = key
  | clear => True
  | look => False

section Last

variable [DecidableEq Key] {m : Store Time Key Value} {key : Key} {op : Op Time Key Value}
  {ops : List (Op Time Key Value)} {entry : Entry Time Value}

theorem apply_of_not_touches (h : ¬op.Touches key) : op.apply m key = m key := by
  cases op with
  | put k e => exact Function.update_of_ne (Ne.symm h) _ _
  | erase k => exact Function.update_of_ne (Ne.symm h) _ _
  | clear => exact absurd trivial h
  | look => rfl

/-- An operation that leaves an entry under the key is the put of it. -/
theorem apply_of_touches (h : op.Touches key) : op.apply m key = some entry ↔ op = .put key entry := by
  cases op with
  | put k e =>
    obtain rfl : k = key := h
    simp [Op.apply]
  | erase k =>
    obtain rfl : k = key := h
    simp [Op.apply]
  | clear => simp [Op.apply]
  | look => exact h.elim

/-- A list with one more element, split at an element. -/
theorem snoc_eq_iff {α : Type} {l before after : List α} {x y : α} : l ++ [x] = before ++ y :: after ↔
    (after = [] ∧ l = before ∧ x = y) ∨ ∃ init, after = init ++ [x] ∧ l = before ++ y :: init := by
  constructor
  · intro h
    rcases List.eq_nil_or_concat after with rfl | ⟨init, last, rfl⟩
    · obtain ⟨hinit, hlast⟩ := List.append_inj' h rfl
      exact .inl ⟨rfl, hinit, List.head_eq_of_cons_eq hlast⟩
    · rw [List.concat_eq_append, ← List.cons_append, ← List.append_assoc] at h
      obtain ⟨hinit, hlast⟩ := List.append_inj' h rfl
      exact .inr ⟨init, by rw [List.concat_eq_append, List.head_eq_of_cons_eq hlast], hinit⟩
  · rintro (⟨rfl, rfl, rfl⟩ | ⟨init, rfl, rfl⟩)
    · rfl
    · rw [List.append_assoc, List.cons_append]

/-- **The last put**: what is under a key is the entry of a put that no later operation touches. -/
theorem replay_eq_some_iff : replay ops key = some entry ↔
    ∃ before after, ops = before ++ .put key entry :: after ∧ ∀ op ∈ after, ¬op.Touches key := by
  induction ops using List.reverseRecOn with
  | nil => simp [replay]
  | append_singleton ops op ih =>
    have hlast : replay (ops ++ [op]) key = op.apply (replay ops) key := by
      rw [replay, List.foldl_append]
      rfl
    simp only [hlast, snoc_eq_iff]
    by_cases htouches : op.Touches key
    · rw [apply_of_touches htouches]
      constructor
      · rintro rfl
        exact ⟨ops, [], .inl ⟨rfl, rfl, rfl⟩, fun op hop => absurd hop List.not_mem_nil⟩
      · rintro ⟨before, after, ⟨-, -, rfl⟩ | ⟨init, rfl, -⟩, hafter⟩
        · rfl
        · exact absurd htouches (hafter op (List.mem_append_right _ (List.mem_singleton_self _)))
    · rw [apply_of_not_touches htouches, ih]
      constructor
      · rintro ⟨before, after, rfl, hafter⟩
        refine ⟨before, after ++ [op], .inr ⟨after, rfl, rfl⟩, fun op' hop' => ?_⟩
        rcases List.mem_append.1 hop' with hop' | hop'
        · exact hafter op' hop'
        · exact List.mem_singleton.1 hop' ▸ htouches
      · rintro ⟨before, after, ⟨-, -, rfl⟩ | ⟨init, rfl, rfl⟩, hafter⟩
        · exact absurd rfl htouches
        · exact ⟨before, init, rfl, fun op' hop' => hafter op' (List.mem_append_left _ hop')⟩

end Last

/-! ## From a time on -/

section SameFrom

variable [LinearOrder Time] {m m' : Store Time Key Value} {now : Time} {key : Key} {entry entry' : Entry Time Value}

/-- The stores show the same from `now` on. -/
def SameFrom (now : Time) (m m' : Store Time Key Value) : Prop := ∀ t, now ≤ t → ∀ key, m.at? t key = m'.at? t key

theorem SameFrom.mono {later : Time} (h : SameFrom now m m') (hle : now ≤ later) : SameFrom later m m' :=
  fun t ht key => h t (le_trans hle ht) key

theorem SameFrom.trans {m'' : Store Time Key Value} (h : SameFrom now m m') (h' : SameFrom now m' m'') :
    SameFrom now m m'' := fun t ht key => (h t ht key).trans (h' t ht key)

/-- An operation keeps two stores the same. -/
theorem SameFrom.apply [DecidableEq Key] (h : SameFrom now m m') (op : Op Time Key Value) :
    SameFrom now (op.apply m) (op.apply m') := by
  intro t ht key
  by_cases htouches : op.Touches key
  · have hsame : op.apply m key = op.apply m' key :=
      Option.ext fun entry => (apply_of_touches htouches).trans (apply_of_touches htouches).symm
    rw [Store.at?, Store.at?, hsame]
  · rw [Store.at?, Store.at?, apply_of_not_touches htouches, apply_of_not_touches htouches]
    exact h t ht key

theorem at?_eq_none_of_dead (hentry : m key = some entry) (hdead : ¬entry.AliveAt now) {t : Time} (ht : now ≤ t) :
    m.at? t key = none := by
  rw [Store.at?, hentry, Option.bind_some, if_neg]
  exact fun halive => hdead fun d hd => lt_of_le_of_lt ht (halive d hd)

/-- What is past its deadline may be taken out. -/
theorem sameFrom_erase [DecidableEq Key] (hentry : m key = some entry) (hdead : ¬entry.AliveAt now) :
    SameFrom now ((Op.erase key).apply m) m := by
  intro t ht k
  by_cases hk : k = key
  · subst hk
    rw [at?_eq_none_of_dead hentry hdead ht, Store.at?, Op.apply, Function.update_self, Option.bind_none]
  · rw [Store.at?, Store.at?, Op.apply, Function.update_of_ne hk]

/-- In stores that are the same an entry that is there is the same. -/
theorem SameFrom.entry_eq (h : SameFrom now m m') (hentry : m key = some entry) (hentry' : m' key = some entry')
    (halive : entry'.AliveAt now) : entry = entry' := by
  have hat : ∀ t, now ≤ t → ((if entry.AliveAt t then some entry.value else none) =
      if entry'.AliveAt t then some entry'.value else none) := by
    intro t ht
    have hsame := h t ht key
    rwa [Store.at?, Store.at?, hentry, hentry', Option.bind_some, Option.bind_some] at hsame
  have hiff : ∀ t, now ≤ t → (entry.AliveAt t ↔ entry'.AliveAt t) := by
    intro t ht
    have hsame := hat t ht
    split at hsame <;> split at hsame <;> simp_all
  have hnow := (hiff now (le_refl now)).2 halive
  have hvalue : entry.value = entry'.value := by
    have hsame := hat now (le_refl now)
    rw [if_pos hnow, if_pos halive] at hsame
    exact Option.some.inj hsame
  -- each deadline is one of the other entry: at the first of them both are gone
  have hdeadline : ∀ {e e' : Entry Time Value}, e.AliveAt now → (∀ t, now ≤ t → (e.AliveAt t ↔ e'.AliveAt t)) →
      ∀ d ∈ e.deadline, ∃ d' ∈ e'.deadline, d' ≤ d := by
    intro e e' hthere hsame d hd
    have hgone : ¬e'.AliveAt d := fun halive => lt_irrefl d ((hsame d (le_of_lt (hthere d hd))).2 halive d hd)
    obtain ⟨d', hd', hle⟩ : ∃ d' ∈ e'.deadline, ¬d < d' := by simpa [Entry.AliveAt] using hgone
    exact ⟨d', hd', le_of_not_gt hle⟩
  obtain ⟨value, deadline⟩ := entry
  obtain ⟨value', deadline'⟩ := entry'
  obtain rfl : value = value' := hvalue
  congr 1
  cases deadline with
  | none =>
    cases deadline' with
    | none => rfl
    | some d' =>
      obtain ⟨d, hd, -⟩ := hdeadline halive (fun t ht => (hiff t ht).symm) d' rfl
      cases hd
  | some d =>
    obtain ⟨d', hd', hle⟩ := hdeadline hnow hiff d rfl
    obtain ⟨d'', hd'', hle'⟩ := hdeadline halive (fun t ht => (hiff t ht).symm) d' hd'
    cases hd''
    exact (congrArg some (le_antisymm hle' hle)).trans (Option.mem_def.1 hd').symm

end SameFrom

end StDns.Lib.Expiring
