import Mathlib.Data.Finset.Basic
import Mathlib.Data.List.Count

/-!
# Ledgers of resources

What a program allocates, uses and frees, in order. An act succeeds only where it may: nothing is allocated that is
live, and only what is live is used or freed. When all acts succeed, every resource has been freed as often as it was
allocated, or once less when it is live (`count_of_all`). Acts that are not about a resource do the same whether it is
live or not (`all_frame`). Programs with resources of their own may run side by side: in every order their acts succeed
together when those of each succeed alone (`all_joint`).
-/

namespace StDns.Lib.Ledger

inductive Act (ρ : Type) where
  | alloc (r : ρ)
  | use (r : ρ)
  | free (r : ρ)
  deriving DecidableEq

/-- The resource of an act. -/
def Act.resource {ρ : Type} : Act ρ → ρ
  | alloc r | use r | free r => r

section Acts

variable {ρ : Type} [DecidableEq ρ]

/-- The live resources after an act, if it may be done. -/
def Act.on (live : Finset ρ) : Act ρ → Option (Finset ρ)
  | alloc r => if r ∈ live then none else some (insert r live)
  | use r => if r ∈ live then some live else none
  | free r => if r ∈ live then some (live.erase r) else none

/-- The live resources after some acts. -/
def all (acts : List (Act ρ)) (live : Finset ρ) : Option (Finset ρ) := acts.foldlM Act.on live

variable {live live' : Finset ρ} {act : Act ρ} {acts acts' : List (Act ρ)} {r : ρ}

@[simp] theorem all_nil : all [] live = some live := rfl

theorem all_cons : all (act :: acts) live = (act.on live).bind (all acts) := List.foldlM_cons

theorem all_append : all (acts ++ acts') live = (all acts live).bind (all acts') := List.foldlM_append

/-- Acts after acts that succeed. -/
theorem all_append_of_some (h : all acts live = some live') : all (acts ++ acts') live = all acts' live' := by
  rw [all_append, h]
  rfl

/-- One act counts an allocation or a freeing, or leaves what is live. -/
theorem count_of_on (h : act.on live = some live') (r : ρ) :
    (if act = .free r then 1 else 0) + (if r ∈ live' then 1 else 0) =
      (if act = .alloc r then 1 else 0) + if r ∈ live then 1 else 0 := by
  cases act with
  | alloc x =>
    rw [Act.on] at h
    split at h
    · cases h
    · rename_i hx
      cases h
      by_cases hr : x = r
      · subst hr
        simp [hx]
      · simp [hr, Ne.symm hr]
  | use x =>
    rw [Act.on] at h
    split at h
    · cases h
      simp
    · cases h
  | free x =>
    rw [Act.on] at h
    split at h
    · rename_i hx
      cases h
      by_cases hr : x = r
      · subst hr
        simp [hx]
      · simp [hr, Ne.symm hr]
    · cases h

/-- **Counting**: what was live and what was allocated has been freed, or is live. -/
theorem count_of_all (h : all acts live = some live') (r : ρ) :
    acts.count (.free r) + (if r ∈ live' then 1 else 0) = acts.count (.alloc r) + if r ∈ live then 1 else 0 := by
  induction acts generalizing live with
  | nil =>
    cases h
    rfl
  | cons act acts ih =>
    rw [all_cons] at h
    obtain ⟨mid, hon, hrest⟩ := Option.bind_eq_some_iff.1 h
    have hone := count_of_on hon r
    have hall := ih hrest
    simp only [List.count_cons, beq_iff_eq]
    omega

/-- All acts may be done, from where nothing is live. -/
def Safe (acts : List (Act ρ)) : Prop := (all acts ∅).isSome = true

/-- And all that was allocated has been freed. -/
def FreesAll (acts : List (Act ρ)) : Prop := Safe acts ∧ ∀ r, acts.count (.free r) = acts.count (.alloc r)

theorem freesAll_iff : FreesAll acts ↔ all acts ∅ = some ∅ := by
  constructor
  · rintro ⟨hsafe, hcount⟩
    obtain ⟨live, hlive⟩ := Option.isSome_iff_exists.1 hsafe
    rw [hlive, Option.some.injEq, Finset.eq_empty_iff_forall_notMem]
    intro r hr
    have hr' := count_of_all hlive r
    rw [hcount r, if_pos hr, if_neg (Finset.notMem_empty r)] at hr'
    omega
  · intro h
    refine ⟨by rw [Safe, h]; rfl, fun r => ?_⟩
    have hr := count_of_all h r
    simpa using hr

/-- A resource is live where it is used or freed. -/
theorem live_of_use {before after : List (Act ρ)} (h : all (before ++ act :: after) live = some live')
    (hact : act = .use r ∨ act = .free r) : ∃ mid, all before live = some mid ∧ r ∈ mid := by
  rw [all_append] at h
  obtain ⟨mid, hbefore, hrest⟩ := Option.bind_eq_some_iff.1 h
  refine ⟨mid, hbefore, ?_⟩
  rw [all_cons] at hrest
  obtain ⟨_, hon, -⟩ := Option.bind_eq_some_iff.1 hrest
  rcases hact with rfl | rfl <;> by_contra hr <;> simp [Act.on, hr] at hon

/-- What has been freed as often as it was allocated must not be used again. -/
theorem not_safe_of_freed {before after : List (Act ρ)} (hcount : before.count (.alloc r) ≤ before.count (.free r))
    (hact : act = .use r ∨ act = .free r) : ¬Safe (before ++ act :: after) := by
  intro hsafe
  obtain ⟨live, hlive⟩ := Option.isSome_iff_exists.1 hsafe
  obtain ⟨mid, hmid, hin⟩ := live_of_use hlive hact
  have hall := count_of_all hmid r
  rw [if_pos hin, if_neg (Finset.notMem_empty r)] at hall
  omega

/-- One act that is not about a resource. -/
theorem on_frame (hact : act.resource ≠ r) (h : act.on live = some live') :
    act.on (live.erase r) = some (live'.erase r) ∧ (r ∈ live' ↔ r ∈ live) := by
  cases act with
  | alloc x =>
    change x ≠ r at hact
    rw [Act.on] at h
    split at h
    · cases h
    · rename_i hx
      cases h
      refine ⟨?_, by simp [Ne.symm hact]⟩
      rw [Act.on, if_neg fun hmem => hx (Finset.mem_of_mem_erase hmem), Finset.erase_insert_of_ne hact]
  | use x =>
    change x ≠ r at hact
    rw [Act.on] at h
    split at h
    · rename_i hx
      cases h
      exact ⟨if_pos (Finset.mem_erase.2 ⟨hact, hx⟩), Iff.rfl⟩
    · cases h
  | free x =>
    change x ≠ r at hact
    rw [Act.on] at h
    split at h
    · rename_i hx
      cases h
      refine ⟨?_, by simp [Ne.symm hact]⟩
      rw [Act.on, if_pos (Finset.mem_erase.2 ⟨hact, hx⟩), Finset.erase_right_comm]
    · cases h

/-- **Frame**: acts that are not about a resource do the same without it, and leave it. -/
theorem all_frame (hacts : ∀ act ∈ acts, act.resource ≠ r) (h : all acts live = some live') :
    all acts (live.erase r) = some (live'.erase r) ∧ (r ∈ live' ↔ r ∈ live) := by
  induction acts generalizing live with
  | nil =>
    cases h
    exact ⟨rfl, Iff.rfl⟩
  | cons act acts ih =>
    rw [all_cons] at h
    obtain ⟨mid, hon, hrest⟩ := Option.bind_eq_some_iff.1 h
    obtain ⟨hact, hsame⟩ := on_frame (hacts act List.mem_cons_self) hon
    obtain ⟨hall, hsame'⟩ := ih (fun act' hact' => hacts act' (List.mem_cons_of_mem _ hact')) hrest
    refine ⟨?_, hsame'.trans hsame⟩
    rw [all_cons, hact]
    exact hall

/-- A live resource is freed between acts of which the later ones are not about it. -/
theorem all_freed {before after : List (Act ρ)} {mid : Finset ρ} (hbefore : all before live = some mid) (hr : r ∈ mid)
    (hacts : ∀ act ∈ after, act.resource ≠ r) (h : all (before ++ after) live = some live') :
    all (before ++ .free r :: after) live = some (live'.erase r) := by
  rw [all_append_of_some hbefore] at h ⊢
  rw [all_cons, Act.on, if_pos hr]
  exact (all_frame hacts h).1

theorem Safe.of_append (h : Safe (acts ++ acts')) : Safe acts := by
  obtain ⟨live, hall⟩ := Option.isSome_iff_exists.1 h
  rw [all_append] at hall
  obtain ⟨mid, hmid, -⟩ := Option.bind_eq_some_iff.1 hall
  rw [Safe, hmid]
  rfl

end Acts

/-! ## Side by side -/

section Joint

variable {ι ρ : Type}

/-- The acts of one program. -/
def actsOf [DecidableEq ι] (i : ι) (log : List (ι × Act ρ)) : List (Act ρ) := (log.filter fun e => e.1 = i).map Prod.snd

/-- An act of a program, on its own resources. -/
def Act.of (i : ι) : Act ρ → Act (ι × ρ)
  | alloc r => alloc (i, r)
  | use r => use (i, r)
  | free r => free (i, r)

/-- The acts of all programs. -/
def joint (log : List (ι × Act ρ)) : List (Act (ι × ρ)) := log.map fun e => e.2.of e.1

variable {log : List (ι × Act ρ)} {i j : ι} {act : Act ρ} {live : Finset (ι × ρ)} {mine mine' : Finset ρ}

theorem joint_snoc : joint (log ++ [(i, act)]) = joint log ++ [act.of i] := by simp [joint]

variable [DecidableEq ι]

theorem actsOf_snoc : actsOf i (log ++ [(i, act)]) = actsOf i log ++ [act] := by simp [actsOf]

theorem actsOf_snoc_of_ne (h : i ≠ j) : actsOf i (log ++ [(j, act)]) = actsOf i log := by simp [actsOf, h.symm]

variable [DecidableEq ρ]

/-- One act of one program. -/
theorem on_of (hmine : ∀ r, (i, r) ∈ live ↔ r ∈ mine) (h : act.on mine = some mine') :
    ∃ live', (act.of i).on live = some live' ∧ (∀ r, (i, r) ∈ live' ↔ r ∈ mine') ∧
      ∀ j r, j ≠ i → ((j, r) ∈ live' ↔ (j, r) ∈ live) := by
  cases act with
  | alloc x =>
    rw [Act.on] at h
    split at h
    · cases h
    · rename_i hx
      cases h
      refine ⟨insert (i, x) live, if_neg fun hlive => hx ((hmine x).1 hlive), fun r => ?_, fun j r hj => ?_⟩
      · simp [hmine r]
      · simp [hj]
  | use x =>
    rw [Act.on] at h
    split at h
    · rename_i hx
      cases h
      exact ⟨live, if_pos ((hmine x).2 hx), hmine, fun _ _ _ => Iff.rfl⟩
    · cases h
  | free x =>
    rw [Act.on] at h
    split at h
    · rename_i hx
      cases h
      refine ⟨live.erase (i, x), if_pos ((hmine x).2 hx), fun r => ?_, fun j r hj => ?_⟩
      · simp [hmine r]
      · simp [hj]
    · cases h

/-- **Side by side**: in any order of the acts of all programs, what is live is what is live for each. -/
theorem all_joint (h : ∀ i, Safe (actsOf i log)) :
    ∃ live, all (joint log) ∅ = some live ∧
      ∀ i mine, all (actsOf i log) ∅ = some mine → ∀ r, (i, r) ∈ live ↔ r ∈ mine := by
  induction log using List.reverseRecOn with
  | nil =>
    refine ⟨∅, rfl, fun i mine hmine r => ?_⟩
    cases hmine
    simp
  | append_singleton log e ih =>
    obtain ⟨j, act⟩ := e
    have hsafe : ∀ i, Safe (actsOf i log) := fun i => by
      by_cases hi : i = j
      · subst hi
        have hlast := h i
        rw [actsOf_snoc] at hlast
        exact hlast.of_append
      · exact actsOf_snoc_of_ne hi ▸ h i
    obtain ⟨live, hlive, heach⟩ := ih hsafe
    obtain ⟨mine', hmine'⟩ := Option.isSome_iff_exists.1 (h j)
    have hsnoc := hmine'
    rw [actsOf_snoc, all_append] at hsnoc
    obtain ⟨mine, hmine, hlast⟩ := Option.bind_eq_some_iff.1 hsnoc
    rw [all_cons] at hlast
    obtain ⟨mine'', hon, hnil⟩ := Option.bind_eq_some_iff.1 hlast
    cases hnil
    obtain ⟨live', hon', hthis, hothers⟩ := on_of (heach j mine hmine) hon
    refine ⟨live', ?_, fun i mine hi r => ?_⟩
    · rw [joint_snoc, all_append_of_some hlive, all_cons, hon']
      rfl
    · by_cases hij : i = j
      · subst hij
        rw [hmine', Option.some.injEq] at hi
        rw [hthis r, hi]
      · rw [actsOf_snoc_of_ne hij] at hi
        rw [hothers i r hij]
        exact heach i mine hi r

end Joint

end StDns.Lib.Ledger
