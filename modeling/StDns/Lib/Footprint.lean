import StDns.Lib.AsyncQueue
import StDns.Lib.Ledger

/-!
# The resources of a call

What a call of `Async` allocates, uses and frees, event by event. The resources that are live depend on whether the
connection is released, on what the call is completed with, and on the operation that is in flight or back; a
`Footprint` says so for each handler alone, and then it holds in every run in the order of the queue whose first
operation is started before the handler of the timer runs (`Footprint.all_of_callRun`).
-/

namespace StDns.Lib.Async

open Ledger

variable {Stage : Type} {Value : Stage → Type} {Result : Type}

/-- The stage of the operation. -/
def Operation.stage? : Operation Stage Value → Option Stage
  | none => .none
  | started stage | back stage _ => some stage

/-- What a call does: before its timer is set, in the `early` events, when it starts its first operation, and in the
events of the run. -/
def callActs {ρ : Type} (armed started : List (Act ρ)) (acts : Event Stage Value → List (Act ρ))
    (early log : List (Event Stage Value)) : List (Act ρ) :=
  armed ++ early.flatMap acts ++ started ++ log.flatMap acts

/-- What is done until the timer is set, when the first operation is started and then in each event, and what is live:
by whether there is a connection, by the result and by the operation. A handler that gets an error completes the call,
and may run after the connection is released. -/
structure Footprint (chain : Chain Stage Value Result) (ρ : Type) [DecidableEq ρ] where
  armed : List (Act ρ)
  started : List (Act ρ)
  acts : Event Stage Value → List (Act ρ)
  live : (connected : Bool) → Option Result → Option Stage → Finset ρ
  all_begun : all (armed ++ started) ∅ = some (live true none (some chain.first))
  all_late : all (armed ++ acts .expired ++ started) ∅ = some (live true none (some chain.first))
  all_returned : ∀ stage completion, all (acts (.returned stage completion)) (live true none (some stage)) =
    some (live true none (some stage))
  all_error : ∀ stage cost connected, ∃ result, chain.handler stage .error cost = .complete result ∧
    all (acts (.handled stage .error cost)) (live connected none (some stage)) =
      some (live connected (some result) none)
  all_done : ∀ stage value cost, all (acts (.handled stage (.done value) cost)) (live true none (some stage)) =
    some (match chain.handler stage (.done value) cost with
      | .start stage' => live true none (some stage')
      | .complete result => live true (some result) none
      | .leave => live true none none)
  all_expired : ∀ stage, all (acts .expired) (live true none stage) = some (live true none stage)
  all_timedOut : ∀ result stage, all (acts .timedOut) (live true result stage) = some (live true result stage)
  all_shutDown : ∀ result stage, all (acts .shutDown) (live true result stage) = some (live true result stage)
  all_closed : ∀ result stage, all (acts .closed) (live true result stage) = some (live true result stage)
  all_released : ∀ result stage, all (acts .released) (live true result stage) = some (live false result stage)

section Footprints

variable {chain : Chain Stage Value Result} {ρ : Type} [DecidableEq ρ] {early log : List (Event Stage Value)}
  {s s' : Queued Stage Value Result} {event : Event Stage Value}

/-- The resources that are live in a state. -/
def Footprint.liveIn (f : Footprint chain ρ) (s : State Stage Value Result) : Finset ρ :=
  f.live (!decide (s.connection = .released)) s.results.head? s.operation.stage?

/-- All acts of a run. -/
def Footprint.ofRun (f : Footprint chain ρ) (early log : List (Event Stage Value)) : List (Act ρ) :=
  callActs f.armed f.started f.acts early log

theorem stage?_begin (connection : Connection) (stage : Stage) :
    (Operation.begin connection stage : Operation Stage Value).stage? = some stage := by
  unfold Operation.begin
  split <;> rfl

theorem stage?_abort (operation : Operation Stage Value) : operation.abort.stage? = operation.stage? := by
  cases operation <;> rfl

/-- **The handler of an operation**: one that got a value runs before the connection is released. -/
theorem Footprint.all_handled (f : Footprint chain ρ) (h : Ordered s) {stage : Stage}
    {completion : Completion (Value stage)} (cost : Nat) (hback : s.operation = .back stage completion)
    (hresults : s.results = []) : all (f.acts (.handled stage completion cost)) (f.liveIn s.toState) =
      some (f.liveIn (s.go (chain.handler stage completion cost))) := by
  have hlive : f.liveIn s.toState = f.live (!decide (s.connection = .released)) none (some stage) := by
    rw [liveIn, hback, hresults]
    rfl
  rw [hlive]
  cases completion with
  | error =>
    obtain ⟨result, hnext, hacts⟩ := f.all_error stage cost (!decide (s.connection = .released))
    rw [hacts, hnext]
    simp [liveIn, State.go, Operation.stage?, hresults]
  | done value =>
    have hne : s.connection ≠ .released := fun hreleased => by
      have hfailed := h.released hreleased
      rw [hback] at hfailed
      cases hfailed
    simp only [hne, decide_false, Bool.not_false]
    rw [f.all_done]
    cases chain.handler stage (.done value) cost with
    | start stage' => simp [liveIn, State.go, stage?_begin, hne, hresults]
    | complete result => simp [liveIn, State.go, Operation.stage?, hne, hresults]
    | leave => simp [liveIn, State.go, Operation.stage?, hne, hresults]

/-- One step. -/
theorem Footprint.all_step (f : Footprint chain ρ) (hrun : QueueRun chain log s) (hstep : QueueStep chain s event s') :
    all (f.acts event) (f.liveIn s.toState) = some (f.liveIn s'.toState) := by
  have h := ordered_of_queueRun hrun
  have hresults := results_of_count (run_of_queueRun hrun)
  have hof : ∀ {connection : Connection}, s.connection = connection → connection ≠ .released →
      f.liveIn s.toState = f.live true s.results.head? s.operation.stage? := by
    rintro connection rfl hne
    simp [liveIn, hne]
  cases hstep with
  | @returned stage completion hstarted =>
    have hopen : s.connection.IsOpen := h.started (by rw [hstarted]; exact trivial)
    have hne : s.connection ≠ .released := fun hreleased => by
      rw [hreleased] at hopen
      exact not_isOpen_released hopen
    have hnil := hresults (by rw [hstarted]; rfl)
    rw [hof rfl hne, hstarted]
    simpa [liveIn, Operation.stage?, hne, hnil] using f.all_returned stage completion
  | expired hwaiting =>
    have hopened : s.connection = .opened := h.opened.2 (by rw [hwaiting]; decide)
    rw [hof hopened (by decide)]
    simpa [liveIn, hopened, h.waiting hwaiting] using f.all_expired s.operation.stage?
  | shutDown hshutting =>
    rw [hof hshutting (by decide)]
    simpa [liveIn] using f.all_shutDown _ _
  | handled cost hready hback => exact f.all_handled h cost hback (hresults (by rw [hback]; rfl))
  | shuttingDown hready hdue hgraceful =>
    have hopened : s.connection = .opened := h.opened.2 (by rw [hdue]; decide)
    rw [hof hopened (by decide)]
    simpa [liveIn, State.timeOut] using f.all_timedOut _ _
  | closing hready hdue hgraceful hposted =>
    have hopened : s.connection = .opened := h.opened.2 (by rw [hdue]; decide)
    rw [hof hopened (by decide)]
    simpa [liveIn, State.timeOut, State.close, stage?_abort] using f.all_timedOut _ _
  | closed hready hshut hposted =>
    rw [hof hshut (by decide)]
    simpa [liveIn, State.close, stage?_abort] using f.all_closed _ _
  | released hready hclosed =>
    rw [hof hclosed (by decide)]
    simpa [liveIn] using f.all_released _ _

/-- **All runs** whose first operation is started before the handler of the timer runs: every act may be done, and what
is live is what the footprint says. -/
theorem Footprint.all_of_callRun (f : Footprint chain ρ) (h : CallRun chain early log s) (htimer : .timedOut ∉ early) :
    all (f.ofRun early log) ∅ = some (f.liveIn s.toState) := by
  induction h with
  | start hearly =>
    rw [ofRun, callActs, List.flatMap_nil, List.append_nil]
    rcases early_cases hearly with ⟨rfl, rfl⟩ | ⟨rfl, rfl⟩ | htimedOut
    · rw [List.flatMap_nil, List.append_nil, f.all_begun]
      rfl
    · rw [List.flatMap_singleton, f.all_late]
      rfl
    · exact absurd htimedOut htimer
  | next hrun hstep ih =>
    rw [ofRun, callActs, List.flatMap_append, List.flatMap_singleton, ← List.append_assoc]
    exact (all_append_of_some ih).trans (f.all_step (queueRun_of_callRun hrun htimer) hstep)

theorem Footprint.safe_of_callRun (f : Footprint chain ρ) (h : CallRun chain early log s)
    (htimer : .timedOut ∉ early) : Safe (f.ofRun early log) := by
  rw [Safe, f.all_of_callRun h htimer]
  rfl

/-- **At rest** there is no connection and no operation. -/
theorem Footprint.all_of_rest (f : Footprint chain ρ) (h : CallRun chain early log s) (htimer : .timedOut ∉ early)
    (hrest : QueueRest chain s) : all (f.ofRun early log) ∅ = some (f.live false s.results.head? none) := by
  obtain ⟨hop, hreleased⟩ := released_of_rest (ordered_of_queueRun (queueRun_of_callRun h htimer)) hrest
  rw [f.all_of_callRun h htimer, liveIn, hop, hreleased]
  rfl

/-- When no handler leaves the call, it is completed. -/
theorem Footprint.all_of_complete (f : Footprint chain ρ)
    (hnever : ∀ stage completion cost, chain.handler stage completion cost ≠ .leave)
    (h : CallRun chain early log s) (htimer : .timedOut ∉ early) (hrest : QueueRest chain s) :
    ∃ result, all (f.ofRun early log) ∅ = some (f.live false (some result) none) := by
  have hrun := queueRun_of_callRun h htimer
  obtain ⟨hop, -⟩ := released_of_rest (ordered_of_queueRun hrun) hrest
  obtain ⟨-, hcount, -⟩ := count_of_run (run_of_queueRun hrun)
  have hleaves : (early ++ log).countP (Leaves chain) = 0 :=
    List.countP_eq_zero.2 fun event _ => by simp [leaves_eq_false hnever event]
  rw [hop, hleaves, count_none] at hcount
  rw [f.all_of_rest h htimer hrest]
  cases hresults : s.results with
  | nil =>
    rw [hresults] at hcount
    cases hcount
  | cons result results => exact ⟨result, rfl⟩

/-- **Too late**: when the release of the connection has run before the first operation is started, the operation uses
what is freed. -/
theorem not_safe_of_released {acts : Event Stage Value → List (Act ρ)} {armed rest : List (Act ρ)} {r : ρ}
    (h : CallRun chain early log s) (hreleased : .released ∈ early)
    (harmed : armed.count (.alloc r) ≤ 1) (hfrees : .free r ∈ acts .released)
    (hacts : ∀ event, event.OfTimer → .alloc r ∉ acts event) :
    ¬Safe (armed ++ early.flatMap acts ++ .use r :: rest) := by
  refine not_safe_of_freed ?_ (.inl rfl)
  obtain ⟨_, hearly⟩ := h.early
  have hnone : (early.flatMap acts).count (.alloc r) = 0 := by
    rw [List.count_eq_zero, List.mem_flatMap]
    rintro ⟨event, hmem, hin⟩
    exact hacts event ((ofTimer_of_earlyRun hearly).2 event hmem) hin
  have hone : 0 < (early.flatMap acts).count (.free r) :=
    List.count_pos_iff.2 (List.mem_flatMap.2 ⟨_, hreleased, hfrees⟩)
  rw [List.count_append, List.count_append, hnone]
  omega

end Footprints

end StDns.Lib.Async
