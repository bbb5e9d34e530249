import Mathlib.Algebra.BigOperators.Group.Finset.Piecewise
import Mathlib.Data.Fintype.Basic
import Mathlib.Tactic.Abel

/-!
# Calls that overlap

Threads call operations on a store, and a system shows where every call begins and where it returns. What the calls are
for is one operation after another: a call takes effect at one moment between its two marks (`Step`). A list of
operations is an order of the calls when their effects can come in it (`Linearizes`); it has every call once (`perm`).
The store that is left is the one that an order of the calls leaves (`linearizes_of_reach`), also for a system whose
steps are matched by such steps (`Reach.simulate`).
-/

namespace StDns.Lib.Linear

/-! ## Systems that show marks -/

/-- The marks that are shown on the way from `s`. -/
inductive Reach {σ μ : Type} (step : σ → List μ → σ → Prop) (s : σ) : List μ → σ → Prop
  | refl : Reach step s [] s
  | next {ms ms' : List μ} {s' s'' : σ} : Reach step s ms s' → step s' ms' s'' → Reach step s (ms ++ ms') s''

section Reach

variable {σ τ μ : Type} {step : σ → List μ → σ → Prop} {step' : τ → List μ → τ → Prop} {s s' s'' : σ} {t : τ}
  {ms ms' : List μ}

theorem Reach.single (h : step s ms s') : Reach step s ms s' := .next .refl h

theorem Reach.trans (h : Reach step s ms s') (h' : Reach step s' ms' s'') : Reach step s (ms ++ ms') s'' := by
  induction h' with
  | refl =>
    rw [List.append_nil]
    exact h
  | next _ hstep ih =>
    rw [← List.append_assoc]
    exact ih.next hstep

/-- **Invariants**: what holds at the start, with nothing shown, and is kept by every step holds of every run. -/
theorem Reach.keeps (Inv : List μ → σ → Prop) (h : Reach step s ms s') (hstart : Inv [] s)
    (hstep : ∀ ms s₁ ms' s₂, Reach step s ms s₁ → Inv ms s₁ → step s₁ ms' s₂ → Inv (ms ++ ms') s₂) : Inv ms s' := by
  induction h with
  | refl => exact hstart
  | next hreach hnext ih => exact hstep _ _ _ _ hreach ih hnext

/-- **Simulation**: when every step is matched, all that is shown is shown. -/
theorem Reach.simulate {R : σ → τ → Prop}
    (hstep : ∀ s ms s' t, R s t → step s ms s' → ∃ t', Reach step' t ms t' ∧ R s' t')
    (h : Reach step s ms s') (ht : R s t) : ∃ t', Reach step' t ms t' ∧ R s' t' := by
  induction h with
  | refl => exact ⟨t, .refl, ht⟩
  | next _ hnext ih =>
    obtain ⟨t', hreach, ht'⟩ := ih
    obtain ⟨t'', hreach', ht''⟩ := hstep _ _ _ _ ht' hnext
    exact ⟨t'', hreach.trans hreach', ht''⟩

end Reach

/-- Everything that is shown has a reason in what was shown before it. -/
def Justified {μ : Type} (Reason : List μ → μ → Prop) (ms : List μ) : Prop :=
  ∀ before m after, ms = before ++ m :: after → Reason before m

section Justified

variable {μ : Type} {Reason : List μ → μ → Prop} {ms ms' : List μ}

theorem justified_nil : Justified Reason [] := fun before m after h => by simp at h

theorem Justified.append (h : Justified Reason ms) (h' : Justified (fun before => Reason (ms ++ before)) ms') :
    Justified Reason (ms ++ ms') := by
  intro before m after heq
  rcases List.append_eq_append_iff.1 heq with ⟨rest, hbefore, hrest⟩ | ⟨rest, hms, hrest⟩
  · rw [hbefore]
    exact h' rest m after hrest
  · cases rest with
    | nil =>
      rw [List.append_nil] at hms
      subst hms
      exact List.append_nil ms ▸ h' [] m after hrest.symm
    | cons m' rest =>
      cases hrest
      exact h before m rest hms

theorem justified_single {m : μ} (h : Reason [] m) : Justified Reason [m] := by
  intro before m' after heq
  cases before with
  | nil =>
    cases heq
    exact h
  | cons x before => simp at heq

theorem justified_cons {m : μ} (h : Reason [] m) (h' : Justified (fun before => Reason (m :: before)) ms) :
    Justified Reason (m :: ms) := (justified_single h).append h'

end Justified

/-! ## One operation after another -/

/-- Where a call begins, and where it returns. -/
inductive Mark (T O : Type) where
  | call (t : T) (op : O)
  | ret (t : T)

/-- How far a thread is: it has called an operation, and that has taken effect. -/
inductive Phase (O : Type) where
  | idle
  | called (op : O)
  | done

structure State (S T O : Type) where
  store : S
  phase : T → Phase O

variable {S T O : Type}

/-- The operations that are called. -/
def calls (marks : List (Mark T O)) : List O :=
  marks.filterMap fun
    | .call _ op => some op
    | .ret _ => none

@[simp] theorem calls_nil : calls ([] : List (Mark T O)) = [] := rfl

@[simp] theorem calls_ret (t : T) : calls ([.ret t] : List (Mark T O)) = [] := rfl

theorem calls_append (marks marks' : List (Mark T O)) : calls (marks ++ marks') = calls marks ++ calls marks' :=
  List.filterMap_append

variable [DecidableEq T]

inductive Step (apply : S → O → S) : State S T O → List (Mark T O) → State S T O → Prop
  | call {s : State S T O} {t : T} {op : O} : s.phase t = .idle →
    Step apply s [.call t op] { s with phase := Function.update s.phase t (.called op) }
  | effect {s : State S T O} {t : T} {op : O} : s.phase t = .called op →
    Step apply s [] { store := apply s.store op, phase := Function.update s.phase t .done }
  | ret {s : State S T O} {t : T} : s.phase t = .done →
    Step apply s [.ret t] { s with phase := Function.update s.phase t .idle }

/-- The effects of the calls can come in this order. -/
def Linearizes (marks : List (Mark T O)) (order : List O) : Prop :=
  Reach (Step fun ops op => ops ++ [op]) { store := [], phase := fun _ => .idle } marks
    { store := order, phase := fun _ => .idle }

section Effects

variable {apply : S → O → S} {s : State S T O} {t : T} {op : O}

/-- A call that takes effect and returns. -/
theorem reach_effect_ret (h : s.phase t = .called op) :
    Reach (Step apply) s [.ret t] { store := apply s.store op, phase := Function.update s.phase t .idle } := by
  have hret : Step apply { store := apply s.store op, phase := Function.update s.phase t .done } [.ret t] _ :=
    .ret (Function.update_self ..)
  rw [Function.update_idem] at hret
  exact (Reach.single (.effect h)).next hret

/-- A call from its beginning to its return. -/
theorem reach_whole (op : O) (h : s.phase t = .idle) :
    Reach (Step apply) s [.call t op, .ret t] { s with store := apply s.store op } := by
  have hrest : Reach (Step apply) { s with phase := Function.update s.phase t (.called op) } [.ret t] _ :=
    reach_effect_ret (Function.update_self ..)
  rw [Function.update_idem, ← h, Function.update_eq_self] at hrest
  exact (Reach.single (.call h)).trans hrest

/-- **The store that is left** is the one that an order of the calls leaves. -/
theorem linearizes_of_reach {marks : List (Mark T O)} {init : S}
    (h : Reach (Step apply) { store := init, phase := fun _ => .idle } marks s) (hidle : ∀ t, s.phase t = .idle) :
    ∃ order, Linearizes marks order ∧ s.store = order.foldl apply init := by
  -- the operations that have taken effect, in place of the store they leave
  let R : State S T O → State (List O) T O → Prop :=
    fun s s' => s'.phase = s.phase ∧ s.store = s'.store.foldl apply init
  have hmatch : ∀ s ms s' t, R s t → Step apply s ms s' → ∃ t', Reach (Step fun ops op => ops ++ [op]) t ms t' ∧
      R s' t' := by
    rintro s ms s' ⟨ops, _⟩ ⟨rfl, hstore⟩ hstep
    cases hstep with
    | call hidle => exact ⟨_, .single (.call hidle), rfl, hstore⟩
    | effect hcalled =>
      refine ⟨_, .single (.effect hcalled), rfl, ?_⟩
      rw [List.foldl_append, ← hstore]
      rfl
    | ret hdone => exact ⟨_, .single (.ret hdone), rfl, hstore⟩
  have hinit : R { store := init, phase := fun _ => .idle } { store := [], phase := fun _ => .idle } := ⟨rfl, rfl⟩
  obtain ⟨⟨order, phase⟩, hreach, hphase, hstore⟩ := h.simulate hmatch hinit
  obtain rfl : phase = fun _ => .idle := hphase.trans (funext hidle)
  exact ⟨order, hreach, hstore⟩

end Effects

/-! ## An order has every call once -/

section Perm

variable [Fintype T]

/-- The operation that a thread has called and that has not taken effect. -/
def Phase.pending : Phase O → Multiset O
  | called op => {op}
  | idle => 0
  | done => 0

@[simp] theorem Phase.pending_called (op : O) : (called op).pending = {op} := rfl

@[simp] theorem Phase.pending_idle : (idle : Phase O).pending = 0 := rfl

@[simp] theorem Phase.pending_done : (done : Phase O).pending = 0 := rfl

theorem sum_pending_update (phase : T → Phase O) (t : T) (p : Phase O) :
    ∑ t', (Function.update phase t p t').pending + (phase t).pending = ∑ t', (phase t').pending + p.pending := by
  have hsum : ∀ q : Phase O, ∑ t', (Function.update phase t q t').pending =
      q.pending + ∑ t' ∈ Finset.univ \ {t}, (phase t').pending := by
    intro q
    have hcomp := Function.comp_update Phase.pending phase t q
    exact (congrArg (fun f : T → Multiset O => ∑ t', f t') hcomp).trans
      (Finset.sum_update_of_mem (Finset.mem_univ t) _ _)
  have hself := hsum (phase t)
  rw [Function.update_eq_self] at hself
  rw [hsum p, hself]
  abel

/-- What has taken effect and what is still to do so is what was called. -/
theorem store_add_pending {marks : List (Mark T O)} {s : State (List O) T O}
    (h : Reach (Step fun ops op => ops ++ [op]) { store := [], phase := fun _ => .idle } marks s) :
    (s.store : Multiset O) + ∑ t, (s.phase t).pending = calls marks := by
  induction h with
  | refl => simp
  | @next ms ms' s s' _ hstep ih =>
    rw [calls_append, ← Multiset.coe_add, ← ih]
    cases hstep with
    | @call t op hidle =>
      have hsum := sum_pending_update s.phase t (.called op)
      rw [hidle, Phase.pending_idle, add_zero] at hsum
      rw [hsum, add_assoc]
      rfl
    | @effect t op hcalled =>
      have hsum := sum_pending_update s.phase t .done
      rw [hcalled, Phase.pending_done, add_zero] at hsum
      rw [← hsum, ← Multiset.coe_add, calls_nil, Multiset.coe_nil, add_zero, add_assoc,
        add_comm _ (Phase.called op).pending]
      rfl
    | @ret t hdone =>
      have hsum := sum_pending_update s.phase t .idle
      rw [hdone, Phase.pending_done, add_zero, Phase.pending_idle, add_zero] at hsum
      rw [hsum, calls_ret, Multiset.coe_nil, add_zero]

theorem Linearizes.perm {marks : List (Mark T O)} {order : List O} (h : Linearizes marks order) :
    order.Perm (calls marks) := by
  have hsum := store_add_pending h
  simp only [Phase.pending_idle, Finset.sum_const_zero, add_zero] at hsum
  exact Multiset.coe_eq_coe.1 hsum

end Perm

end StDns.Lib.Linear
