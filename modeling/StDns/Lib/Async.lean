import Mathlib.Data.List.Count

/-!
# Chains of asynchronous operations under a timer

A call runs one operation after the other over a connection. An operation is started, comes back with a value or an
error, and then its handler starts the next one, completes the call or leaves it. Beside them runs a timer, which the
completion of the call deletes. The handler of its wait closes the connection at once, or shuts it down and closes it
when that has come back (`graceful`). What is in flight when the connection closes comes back with an error, and so
does what is started later.

In every run the completions, the operation in flight and the handlers that left the call add up to one
(`count_of_run`).
-/

namespace StDns.Lib.Async

/-- How an operation comes back. -/
inductive Completion (α : Type) where
  | error
  | done (value : α)
  deriving DecidableEq

/-- What the handler of an operation does last. -/
inductive Next (Stage Result : Type) where
  | start (stage : Stage)
  | complete (result : Result)
  | leave

/-- A handler gets how its operation came back and the time since the call began. -/
structure Chain (Stage : Type) (Value : Stage → Type) (Result : Type) where
  first : Stage
  handler : (stage : Stage) → Completion (Value stage) → Nat → Next Stage Result
  graceful : Bool

variable {Stage : Type} {Value : Stage → Type} {Result : Type}

/-! ## States -/

/-- The operation in flight: started, or back with its handler waiting to run. -/
inductive Operation (Stage : Type) (Value : Stage → Type) where
  | none
  | started (stage : Stage)
  | back (stage : Stage) (completion : Completion (Value stage))

/-- The wait for the timer: its handler is due when the timer has expired or was deleted. -/
inductive Wait where
  | waiting
  | due
  | over
  deriving DecidableEq

/-- The connection: open, being shut down, shut down with the handler of that waiting to run, closed with its release
waiting to run, released. -/
inductive Connection where
  | opened
  | shutting
  | shut
  | closed
  | released
  deriving DecidableEq

def Connection.IsOpen (c : Connection) : Prop := c = .opened ∨ c = .shutting ∨ c = .shut

instance (c : Connection) : Decidable c.IsOpen := inferInstanceAs (Decidable (_ ∨ _))

structure State (Stage : Type) (Value : Stage → Type) (Result : Type) where
  operation : Operation Stage Value
  timer : Wait := .waiting
  connection : Connection := .opened
  results : List Result := []
  timersDeleted : Nat := 0

/-- An operation that is started on the connection. -/
def Operation.begin (connection : Connection) (stage : Stage) : Operation Stage Value :=
  if connection.IsOpen then .started stage else .back stage .error

/-- What becomes of the operation when the connection closes. -/
def Operation.abort : Operation Stage Value → Operation Stage Value
  | started stage => back stage .error
  | operation => operation

/-- The end of a handler. -/
def State.go (s : State Stage Value Result) : Next Stage Result → State Stage Value Result
  | .start stage => { s with operation := .begin s.connection stage }
  | .complete result => { s with
    operation := .none
    results := s.results ++ [result]
    timersDeleted := s.timersDeleted + 1
    timer := if s.timer = .waiting then .due else s.timer }
  | .leave => { s with operation := .none }

/-- The connection closes. -/
def State.close (s : State Stage Value Result) : State Stage Value Result :=
  { s with connection := .closed, operation := s.operation.abort }

/-- The handler of the wait for the timer. -/
def State.timeOut (graceful : Bool) (s : State Stage Value Result) : State Stage Value Result :=
  if graceful then { s with timer := .over, connection := .shutting } else { s with timer := .over }.close

/-! ## Runs -/

inductive Event (Stage : Type) (Value : Stage → Type) where
  | returned (stage : Stage) (completion : Completion (Value stage))
  | shutDown
  | handled (stage : Stage) (completion : Completion (Value stage)) (cost : Nat)
  | expired
  | timedOut
  | closed
  | released

/-- The events that are up to the peer and the transport. -/
def Event.FromPeer : Event Stage Value → Prop
  | returned _ _ | shutDown => True
  | _ => False

inductive Step (chain : Chain Stage Value Result) :
    State Stage Value Result → Event Stage Value → State Stage Value Result → Prop
  | returned (s : State Stage Value Result) {stage : Stage} (completion : Completion (Value stage)) :
    s.operation = .started stage → Step chain s (.returned stage completion)
      { s with operation := .back stage completion }
  | handled (s : State Stage Value Result) {stage : Stage} {completion : Completion (Value stage)} (cost : Nat) :
    s.operation = .back stage completion →
      Step chain s (.handled stage completion cost) (s.go (chain.handler stage completion cost))
  | expired (s : State Stage Value Result) : s.timer = .waiting → Step chain s .expired { s with timer := .due }
  | timedOut (s : State Stage Value Result) : s.timer = .due → Step chain s .timedOut (s.timeOut chain.graceful)
  | shutDown (s : State Stage Value Result) : s.connection = .shutting →
    Step chain s .shutDown { s with connection := .shut }
  | closed (s : State Stage Value Result) : s.connection = .shut → Step chain s .closed s.close
  | released (s : State Stage Value Result) : s.connection = .closed →
    Step chain s .released { s with connection := .released }

/-- The runs of a call. -/
inductive Run (chain : Chain Stage Value Result) : List (Event Stage Value) → State Stage Value Result → Prop
  | start : Run chain [] { operation := .started chain.first }
  | next {log : List (Event Stage Value)} {s s' : State Stage Value Result} {event : Event Stage Value} :
    Run chain log s → Step chain s event s' → Run chain (log ++ [event]) s'

/-- No handler is left to run. -/
def AtRest (chain : Chain Stage Value Result) (s : State Stage Value Result) : Prop :=
  ∀ event s', ¬Step chain s event s'

/-- No handler is left to run without the peer. -/
def Quiet (chain : Chain Stage Value Result) (s : State Stage Value Result) : Prop :=
  ∀ event s', Step chain s event s' → event.FromPeer

/-! ## Counting -/

/-- The handler leaves the call. -/
def Leaves (chain : Chain Stage Value Result) : Event Stage Value → Bool
  | .handled stage completion cost =>
    match chain.handler stage completion cost with
    | .leave => true
    | _ => false
  | _ => false

/-- The handler completes the call. -/
def Completes (chain : Chain Stage Value Result) : Event Stage Value → Bool
  | .handled stage completion cost =>
    match chain.handler stage completion cost with
    | .complete _ => true
    | _ => false
  | _ => false

/-- How many operations are in flight. -/
def Operation.count : Operation Stage Value → Nat
  | none => 0
  | _ => 1

section Count

variable {chain : Chain Stage Value Result} {log : List (Event Stage Value)} {s s' : State Stage Value Result}
  {event : Event Stage Value}

@[simp] theorem count_none : (.none : Operation Stage Value).count = 0 := rfl

@[simp] theorem count_started (stage : Stage) : (.started stage : Operation Stage Value).count = 1 := rfl

@[simp] theorem count_back (stage : Stage) (completion : Completion (Value stage)) :
    (.back stage completion : Operation Stage Value).count = 1 := rfl

@[simp] theorem count_begin (connection : Connection) (stage : Stage) :
    (Operation.begin connection stage : Operation Stage Value).count = 1 := by
  unfold Operation.begin
  split <;> rfl

@[simp] theorem count_abort (operation : Operation Stage Value) : operation.abort.count = operation.count := by
  cases operation <;> rfl

/-- What a step adds to the results and takes from the operations in flight. -/
theorem count_step (h : Step chain s event s') :
    s'.results.length = s.results.length + (Completes chain event).toNat ∧
      s'.operation.count + (Completes chain event).toNat + (Leaves chain event).toNat = s.operation.count ∧
      s'.timersDeleted = s.timersDeleted + (Completes chain event).toNat := by
  cases h with
  | returned completion hstarted => simp [Completes, Leaves, hstarted]
  | @handled stage completion cost hback =>
    cases hnext : chain.handler stage completion cost <;>
      simp [Completes, Leaves, hback, hnext, State.go]
  | expired => exact ⟨rfl, rfl, rfl⟩
  | timedOut =>
    unfold State.timeOut
    split
    · exact ⟨rfl, rfl, rfl⟩
    · exact ⟨rfl, count_abort _, rfl⟩
  | shutDown => exact ⟨rfl, rfl, rfl⟩
  | closed => exact ⟨rfl, count_abort _, rfl⟩
  | released => exact ⟨rfl, rfl, rfl⟩

/-- **All runs**: every completion is that of a handler, and with the operation in flight and the handlers that left
they are one; the timer is deleted with every completion. -/
theorem count_of_run (h : Run chain log s) :
    s.results.length = log.countP (Completes chain) ∧
      s.results.length + log.countP (Leaves chain) + s.operation.count = 1 ∧ s.timersDeleted = s.results.length := by
  induction h with
  | start => exact ⟨rfl, rfl, rfl⟩
  | @next log s s' event hrun hstep ih =>
    obtain ⟨hresults, hcount, hdeleted⟩ := count_step hstep
    have hone : ∀ p : Event Stage Value → Bool, (log ++ [event]).countP p = log.countP p + (p event).toNat := by
      intro p
      rw [List.countP_append, List.countP_singleton]
      cases p event <;> rfl
    rw [hone, hone]
    omega

/-- What a handler completes the call with. -/
def Event.result (chain : Chain Stage Value Result) : Event Stage Value → Option Result
  | .handled stage completion cost =>
    match chain.handler stage completion cost with
    | .complete result => some result
    | _ => none
  | _ => none

theorem leaves_handled_iff {stage : Stage} {completion : Completion (Value stage)} {cost : Nat} :
    Leaves chain (.handled stage completion cost) = true ↔ chain.handler stage completion cost = .leave := by
  cases hnext : chain.handler stage completion cost <;> simp [Leaves, hnext]

theorem result_handled_iff {stage : Stage} {completion : Completion (Value stage)} {cost : Nat} {result : Result} :
    (Event.handled stage completion cost).result chain = some result ↔
      chain.handler stage completion cost = .complete result := by
  cases hnext : chain.handler stage completion cost <;> simp [Event.result, hnext]

theorem results_step (h : Step chain s event s') : s'.results = s.results ++ (event.result chain).toList := by
  cases h with
  | @handled stage completion cost hback =>
    cases hnext : chain.handler stage completion cost <;> simp [Event.result, hnext, State.go]
  | timedOut =>
    unfold State.timeOut
    split <;> exact (List.append_nil _).symm
  | _ => exact (List.append_nil _).symm

/-- The results are those of the handlers, in order. -/
theorem results_of_run (h : Run chain log s) : s.results = log.filterMap (Event.result chain) := by
  induction h with
  | start => rfl
  | @next log s s' event hrun hstep ih =>
    rw [results_step hstep, ih, List.filterMap_append]
    rfl

/-- At rest no operation is in flight. -/
theorem operation_of_atRest (h : AtRest chain s) : s.operation = .none := by
  cases hop : s.operation with
  | none => rfl
  | started stage => exact absurd (.returned s .error hop) (h _ _)
  | back stage completion => exact absurd (.handled s 0 hop) (h _ _)

/-- **At rest** the call has been completed once, unless a handler left it. -/
theorem complete_iff_of_atRest (h : Run chain log s) (hrest : AtRest chain s) :
    s.results.length = 1 ↔ ∀ event ∈ log, Leaves chain event = false := by
  obtain ⟨-, hcount, -⟩ := count_of_run h
  rw [operation_of_atRest hrest, count_none] at hcount
  have hleaves : log.countP (Leaves chain) = 0 ↔ ∀ event ∈ log, Leaves chain event = false := by
    rw [List.countP_eq_zero]
    simp only [Bool.not_eq_true]
  rw [← hleaves]
  omega

/-- The call is completed at most once, and once when it is at rest; its timer is deleted with it. -/
structure Once (chain : Chain Stage Value Result) (s : State Stage Value Result) : Prop where
  most : s.results.length ≤ 1
  timer : s.timersDeleted = s.results.length
  atRest : AtRest chain s → s.results.length = 1 ∧ s.timersDeleted = 1

theorem leaves_eq_false (h : ∀ stage completion cost, chain.handler stage completion cost ≠ .leave)
    (event : Event Stage Value) : Leaves chain event = false := by
  cases event with
  | handled stage completion cost =>
    simp only [Leaves]
    split
    · rename_i hleave
      exact absurd hleave (h stage completion cost)
    · rfl
  | _ => rfl

/-- **A chain whose handlers never leave the call** completes it once. -/
theorem once_of_run (hnever : ∀ stage completion cost, chain.handler stage completion cost ≠ .leave)
    (h : Run chain log s) : Once chain s := by
  obtain ⟨-, hcount, hdeleted⟩ := count_of_run h
  refine ⟨by omega, hdeleted, fun hrest => ?_⟩
  have hone := (complete_iff_of_atRest h hrest).2 fun event _ => leaves_eq_false hnever event
  exact ⟨hone, hdeleted.trans hone⟩

end Count

/-! ## Connections that are shut down first -/

def Operation.IsStarted : Operation Stage Value → Prop
  | started _ => True
  | _ => False

section Graceful

variable {chain : Chain Stage Value Result} {log : List (Event Stage Value)} {s s' : State Stage Value Result}
  {event : Event Stage Value}

@[simp] theorem connection_go (next : Next Stage Result) : (s.go next).connection = s.connection := by
  cases next <;> rfl

theorem not_isStarted_begin {connection : Connection} {stage : Stage} (h : ¬connection.IsOpen) :
    ¬(Operation.begin connection stage : Operation Stage Value).IsStarted := by
  rw [Operation.begin, if_neg h]
  exact id

theorem not_isStarted_abort (operation : Operation Stage Value) : ¬operation.abort.IsStarted := by
  cases operation <;> exact id

/-- An operation that comes back from starting it: its connection was closed. -/
theorem begin_eq_back {connection : Connection} {stage stage' : Stage} {completion : Completion (Value stage')}
    (h : (Operation.begin connection stage : Operation Stage Value) = .back stage' completion) :
    ¬connection.IsOpen := by
  intro hopen
  rw [Operation.begin, if_pos hopen] at h
  cases h

/-- What a run of a connection that is shut down first keeps: the connection is as it was until the handler of the
timer has run, and is closed only after the shutdown has come back; an operation that came back was returned by the
peer, or the shutdown was. -/
structure ShutFirst (log : List (Event Stage Value)) (s : State Stage Value Result) : Prop where
  opened : s.connection = .opened ↔ s.timer ≠ .over
  shutDown : Event.shutDown ∈ log ↔ s.connection ≠ .opened ∧ s.connection ≠ .shutting
  closed : ¬s.connection.IsOpen → ¬s.operation.IsStarted
  back : ∀ stage completion, s.operation = .back stage completion →
    Event.returned stage completion ∈ log ∨ Event.shutDown ∈ log
  handled : ∀ stage completion cost, Event.handled stage completion cost ∈ log →
    Event.returned stage completion ∈ log ∨ Event.shutDown ∈ log

theorem timer_go (next : Next Stage Result) : (s.go next).timer = .over ↔ s.timer = .over := by
  cases next with
  | start stage => exact Iff.rfl
  | leave => exact Iff.rfl
  | complete result =>
    simp only [State.go]
    split
    · rename_i hwaiting
      simp [hwaiting]
    · exact Iff.rfl

theorem mem_snoc {event' : Event Stage Value} : event ∈ log ++ [event'] ↔ event ∈ log ∨ event = event' := by
  rw [List.mem_append, List.mem_singleton]

/-- The events before stay in the log. -/
theorem returned_or_mono {stage : Stage} {completion : Completion (Value stage)}
    (h : Event.returned stage completion ∈ log ∨ Event.shutDown ∈ log) :
    Event.returned stage completion ∈ log ++ [event] ∨ Event.shutDown ∈ log ++ [event] :=
  h.imp (List.mem_append_left _) (List.mem_append_left _)

theorem ShutFirst.go (h : ShutFirst log s) {stage : Stage} {completion : Completion (Value stage)} {cost : Nat}
    (hback : s.operation = .back stage completion) (next : Next Stage Result) :
    ShutFirst (log ++ [.handled stage completion cost]) (s.go next) := by
  refine ⟨?_, ?_, fun hclosed => ?_, fun stage' completion' hop => ?_, fun stage' completion' cost' hmem => ?_⟩
  · rw [connection_go, ne_eq, timer_go]
    exact h.opened
  · rw [connection_go, mem_snoc, or_iff_left nofun]
    exact h.shutDown
  · rw [connection_go] at hclosed
    cases next with
    | start stage' => exact not_isStarted_begin hclosed
    | complete result => exact id
    | leave => exact id
  · cases next with
    | start stage'' =>
      have hclosed := begin_eq_back hop
      refine .inr (List.mem_append_left _ (h.shutDown.2 ⟨fun e => hclosed ?_, fun e => hclosed ?_⟩))
      · exact .inl e
      · exact .inr (.inl e)
    | complete result => cases hop
    | leave => cases hop
  · rcases mem_snoc.1 hmem with hmem | heq
    · exact returned_or_mono (h.handled _ _ _ hmem)
    · cases heq
      exact returned_or_mono (h.back _ _ hback)

theorem ShutFirst.close (h : ShutFirst log s) (hshut : s.connection = .shut) :
    ShutFirst (log ++ [.closed]) s.close := by
  have hdown : Event.shutDown ∈ log := h.shutDown.2 (by rw [hshut]; decide)
  refine ⟨?_, ?_, fun _ => not_isStarted_abort _, fun stage completion hop => ?_, fun stage completion cost hmem => ?_⟩
  · refine iff_of_false (by decide : Connection.closed ≠ .opened) fun htimer => ?_
    rw [h.opened.2 htimer] at hshut
    cases hshut
  · exact iff_of_true (List.mem_append_left _ hdown) (by simp [State.close])
  · exact .inr (List.mem_append_left _ hdown)
  · exact .inr (List.mem_append_left _ hdown)

/-- One step of a call whose connection is shut down first. -/
theorem shutFirst_step (hgraceful : chain.graceful = true) (h : ShutFirst log s) (hstep : Step chain s event s') :
    ShutFirst (log ++ [event]) s' := by
  have hhandled : (∀ stage completion cost, event ≠ .handled stage completion cost) →
      ∀ stage completion cost, Event.handled stage completion cost ∈ log ++ [event] →
        Event.returned stage completion ∈ log ++ [event] ∨ Event.shutDown ∈ log ++ [event] := by
    intro hne stage completion cost hmem
    rcases mem_snoc.1 hmem with hmem | heq
    · exact returned_or_mono (h.handled _ _ _ hmem)
    · exact absurd heq.symm (hne _ _ _)
  have hdown : event ≠ .shutDown → (Event.shutDown ∈ log ++ [event] ↔ Event.shutDown ∈ log) := fun hne =>
    mem_snoc.trans (or_iff_left (Ne.symm hne))
  cases hstep with
  | returned completion hstarted =>
    refine ⟨h.opened, (hdown nofun).trans h.shutDown, fun _ => id, ?_, hhandled nofun⟩
    intro stage completion' hop
    cases hop
    exact .inl (List.mem_append_right _ (List.mem_singleton_self _))
  | handled cost hback => exact h.go hback _
  | expired hwaiting =>
    refine ⟨?_, (hdown nofun).trans h.shutDown, h.closed, fun _ _ hop => returned_or_mono (h.back _ _ hop),
      hhandled nofun⟩
    exact h.opened.trans (by simp [hwaiting])
  | timedOut hdue =>
    have hopened : s.connection = .opened := h.opened.2 (by rw [hdue]; decide)
    have hnot : Event.shutDown ∉ log := fun hin => (h.shutDown.1 hin).1 hopened
    rw [State.timeOut, if_pos hgraceful]
    refine ⟨by simp, ?_, fun hclosed => absurd (.inr (.inl rfl)) hclosed,
      fun _ _ hop => returned_or_mono (h.back _ _ hop), hhandled nofun⟩
    exact iff_of_false (fun hin => hnot ((hdown nofun).1 hin)) (by simp)
  | shutDown hshutting =>
    refine ⟨?_, ?_, fun hclosed => absurd (.inr (.inr rfl)) hclosed, fun _ _ hop => returned_or_mono (h.back _ _ hop),
      hhandled nofun⟩
    · refine iff_of_false (by decide : Connection.shut ≠ .opened) fun htimer => ?_
      rw [h.opened.2 htimer] at hshutting
      cases hshutting
    · exact iff_of_true (List.mem_append_right _ (List.mem_singleton_self _)) (by simp)
  | closed hshut => exact h.close hshut
  | released hclosed =>
    refine ⟨?_, ?_, fun _ => h.closed (by rw [hclosed]; decide), fun _ _ hop => returned_or_mono (h.back _ _ hop),
      hhandled nofun⟩
    · refine iff_of_false (by decide : Connection.released ≠ .opened) fun htimer => ?_
      rw [h.opened.2 htimer] at hclosed
      cases hclosed
    · exact (hdown nofun).trans (h.shutDown.trans (by simp [hclosed]))

theorem shutFirst_of_run (hgraceful : chain.graceful = true) (h : Run chain log s) : ShutFirst log s := by
  induction h with
  | start =>
    refine ⟨iff_of_true rfl (by simp), iff_of_false List.not_mem_nil (by simp), fun hclosed => ?_, fun _ _ hop => ?_,
      fun _ _ _ hmem => absurd hmem List.not_mem_nil⟩
    · exact absurd (.inl rfl) hclosed
    · cases hop
  | next _ hstep ih => exact shutFirst_step hgraceful ih hstep

/-- **Quiet**: when nothing can run without the peer, a call that no handler left has been completed once iff the
shutdown came back, or an operation that the peer returned had a handler that completed it. -/
theorem complete_iff_of_quiet (hgraceful : chain.graceful = true) (h : Run chain log s)
    (hleaves : ∀ event ∈ log, Leaves chain event = false) (hquiet : Quiet chain s) :
    s.results.length = 1 ↔ Event.shutDown ∈ log ∨ ∃ stage completion cost, Event.returned stage completion ∈ log ∧
      Event.handled stage completion cost ∈ log ∧ Completes chain (.handled stage completion cost) = true := by
  have hfirst := shutFirst_of_run hgraceful h
  obtain ⟨hresults, hcount, -⟩ := count_of_run h
  have hnone : log.countP (Leaves chain) = 0 := List.countP_eq_zero.2 fun event hmem => by simp [hleaves event hmem]
  constructor
  · intro hone
    have hpos : 0 < log.countP (Completes chain) := by omega
    obtain ⟨event, hmem, hcompletes⟩ := List.countP_pos_iff.1 hpos
    cases event with
    | handled stage completion cost =>
      rcases hfirst.handled _ _ _ hmem with hreturned | hdown
      · exact .inr ⟨stage, completion, cost, hreturned, hmem, hcompletes⟩
      · exact .inl hdown
    | _ => cases hcompletes
  · rintro (hdown | ⟨stage, completion, cost, -, hmem, hcompletes⟩)
    · -- the shutdown is back, so the connection is closed and nothing is out
      have hop : s.operation = .none := by
        cases hop : s.operation with
        | none => rfl
        | back stage completion => exact absurd (hquiet _ _ (.handled s 0 hop)) id
        | started stage =>
          obtain ⟨hnopened, hnshutting⟩ := hfirst.shutDown.1 hdown
          have hnshut : s.connection ≠ .shut := fun hshut => hquiet _ _ (.closed s hshut)
          have hclosed : ¬s.connection.IsOpen := by
            rintro (hc | hc | hc)
            · exact hnopened hc
            · exact hnshutting hc
            · exact hnshut hc
          have hnot := hfirst.closed hclosed
          rw [hop] at hnot
          exact absurd trivial hnot
      rw [hop, count_none] at hcount
      omega
    · have hpos : 0 < log.countP (Completes chain) := List.countP_pos_iff.2 ⟨_, hmem, hcompletes⟩
      omega

end Graceful

end StDns.Lib.Async
