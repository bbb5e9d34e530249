import Mathlib.Logic.Basic

/-!
# Loops with a descending measure

A loop is given by the body of one round: from a state it goes on with a new state or leaves with a result. `rounds`
runs it with fuel, `loop` with the fuel that a measure of the state allows. When the measure descends in every round
the fuel never runs out, so `loop` is the loop itself: it unfolds (`loop_next`, `loop_done`) and it keeps what its
rounds keep (`loop_rule`). Loops with the same rounds end alike (`loop_congr`, `loop_agree`).
-/

namespace StDns.Lib

/-- What one round does: go on with a state, or leave with a result. -/
inductive Round (σ ρ : Type) where
  | next (s : σ)
  | done (r : ρ)

variable {σ ρ : Type}

/-- At most `k` rounds from `s`; `out` is the result when they are used up. -/
def rounds (body : σ → Round σ ρ) (out : σ → ρ) : Nat → σ → ρ
  | 0, s => out s
  | k + 1, s =>
    match body s with
    | .next s' => rounds body out k s'
    | .done r => r

/-- The loop with the fuel that the measure of its start allows. -/
def loop (body : σ → Round σ ρ) (out : σ → ρ) (μ : σ → Nat) (s : σ) : ρ := rounds body out (μ s + 1) s

/-- Every round that goes on lowers the measure. -/
def Descends (body : σ → Round σ ρ) (μ : σ → Nat) : Prop := ∀ s s', body s = .next s' → μ s' < μ s

section Unfolding

variable {body : σ → Round σ ρ} {out : σ → ρ} {μ : σ → Nat}

/-- With a descending measure the fuel does not matter once it exceeds the measure. -/
theorem rounds_eq_loop (hμ : Descends body μ) : ∀ (k : Nat) (s : σ), μ s < k → rounds body out k s = loop body out μ s
  | 0, _, h => absurd h (Nat.not_lt_zero _)
  | k + 1, s, h => by
    unfold loop
    rw [rounds, rounds]
    cases hb : body s with
    | done r => rfl
    | next s' =>
      have hlt := hμ s s' hb
      have hk := rounds_eq_loop hμ k s' (by omega)
      -- the fuel left by `loop s` need not be that of `loop s'`
      have hs : rounds body out (μ s) s' = loop body out μ s' := by
        rcases Nat.lt_or_ge (μ s) k with hsk | hsk
        · exact rounds_eq_loop hμ (μ s) s' hlt
        · have : μ s = k := by omega
          rw [this]; exact hk
      exact hk.trans hs.symm

theorem loop_next (hμ : Descends body μ) {s s' : σ} (hb : body s = .next s') :
    loop body out μ s = loop body out μ s' := by
  rw [← rounds_eq_loop hμ (μ s) s' (hμ s s' hb), loop, rounds, hb]

theorem loop_done {s : σ} {r : ρ} (hb : body s = .done r) : loop body out μ s = r := by
  rw [loop, rounds, hb]

end Unfolding

section Rules

variable {body : σ → Round σ ρ} {out : σ → ρ} {μ : σ → Nat}

/-- **The invariant rule**: what every round keeps holds where the loop leaves. -/
theorem loop_rule (hμ : Descends body μ) {I : σ → Prop} {Q : ρ → Prop}
    (next : ∀ s s', I s → body s = .next s' → I s') (done : ∀ s r, I s → body s = .done r → Q r) (s : σ) (hs : I s) :
    Q (loop body out μ s) := by
  induction h : μ s using Nat.strongRecOn generalizing s with
  | _ n ih =>
    cases hb : body s with
    | done r => rw [loop_done hb]; exact done s r hs hb
    | next s' =>
      rw [loop_next hμ hb]
      exact ih (μ s') (h ▸ hμ s s' hb) s' (next s s' hs hb) rfl

/-- Two loops end alike when their rounds are the same from every state that satisfies an invariant. -/
theorem loop_congr {body' : σ → Round σ ρ} {I : σ → Prop} (next : ∀ s s', I s → body s = .next s' → I s')
    (same : ∀ s, I s → body' s = body s) (s : σ) (hs : I s) : loop body' out μ s = loop body out μ s := by
  have key : ∀ (k : Nat) (s : σ), I s → rounds body' out k s = rounds body out k s := by
    intro k
    induction k with
    | zero => exact fun _ _ => rfl
    | succ k ih =>
      intro s hs
      rw [rounds, rounds, same s hs]
      cases hb : body s with
      | done r => rfl
      | next s' => exact ih s' (next s s' hs hb)
  exact key _ s hs

/-- Two loops end alike when every round of the first that goes on, or leaves well, is a round of the second. -/
theorem loop_agree {body' : σ → Round σ ρ} {out' : σ → ρ} {μ' : σ → Nat} {P : ρ → Prop} (hμ : Descends body μ)
    (hμ' : Descends body' μ') (next : ∀ s s', body s = .next s' → P (loop body out μ s') → body' s = .next s')
    (done : ∀ s r, body s = .done r → P r → body' s = .done r) (s : σ) (hok : P (loop body out μ s)) :
    loop body' out' μ' s = loop body out μ s := by
  induction h : μ s using Nat.strongRecOn generalizing s with
  | _ n ih =>
    cases hb : body s with
    | done r =>
      rw [loop_done hb] at hok ⊢
      exact loop_done (done s r hb hok)
    | next s' =>
      rw [loop_next hμ hb] at hok ⊢
      rw [loop_next hμ' (next s s' hb hok)]
      exact ih (μ s') (h ▸ hμ s s' hb) s' hok rfl

end Rules

end StDns.Lib
