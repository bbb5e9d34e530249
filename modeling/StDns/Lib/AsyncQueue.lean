import Mathlib.Data.List.Induction
import StDns.Lib.Async

/-!
# Chains in the order of a queue

A call of `Async` whose handlers are run by one thread in the order in which they were put into a queue. When the
connection closes, what is in flight comes back with an error, and the release of the connection is put into the queue,
before or after it. Every run in this order is a run of the call (`run_of_queueRun`), and once the release has run,
nothing but an operation that failed is left to handle (`ordered_of_queueRun`). At rest the connection is released
(`released_of_rest`). The first operation may be started by another thread, while the timer runs: as long as its handler
has not run, this is a run of the call as well (`queueRun_of_callRun`).
-/

namespace StDns.Lib.Async

variable {Stage : Type} {Value : Stage → Type} {Result : Type}

/-- A handler in the queue. -/
inductive Ready where
  | operation
  | wait
  | closing
  | release
  deriving DecidableEq

structure Queued (Stage : Type) (Value : Stage → Type) (Result : Type) extends State Stage Value Result where
  ready : List Ready := []

/-- The operation has come back, and its handler has not run. -/
def Operation.IsBack : Operation Stage Value → Prop
  | back _ _ => True
  | _ => False

/-- The operation has come back with an error, or there is none. -/
def Operation.Failed : Operation Stage Value → Prop
  | none => True
  | back _ completion => completion = .error
  | started _ => False

/-- What the end of a handler puts into the queue. -/
def State.posts (s : State Stage Value Result) : Next Stage Result → List Ready
  | .start _ => if s.connection.IsOpen then [] else [.operation]
  | .complete _ => if s.timer = .waiting then [.wait] else []
  | .leave => []

/-- What the close of the connection puts into the queue. -/
def Operation.Closes (operation : Operation Stage Value) (posted : List Ready) : Prop :=
  match operation with
  | started _ => posted = [.operation, .release] ∨ posted = [.release, .operation]
  | _ => posted = [.release]

/-- The steps of `Step`, where the handler that runs is the first of the queue. -/
inductive QueueStep (chain : Chain Stage Value Result) :
    Queued Stage Value Result → Event Stage Value → Queued Stage Value Result → Prop
  | returned {s : Queued Stage Value Result} {stage : Stage} (completion : Completion (Value stage)) :
    s.operation = .started stage → QueueStep chain s (.returned stage completion)
      { s with operation := .back stage completion, ready := s.ready ++ [.operation] }
  | expired {s : Queued Stage Value Result} : s.timer = .waiting →
    QueueStep chain s .expired { s with timer := .due, ready := s.ready ++ [.wait] }
  | shutDown {s : Queued Stage Value Result} : s.connection = .shutting →
    QueueStep chain s .shutDown { s with connection := .shut, ready := s.ready ++ [.closing] }
  | handled {s : Queued Stage Value Result} {rest : List Ready} {stage : Stage} {completion : Completion (Value stage)}
    (cost : Nat) : s.ready = .operation :: rest → s.operation = .back stage completion →
    QueueStep chain s (.handled stage completion cost)
      { s.go (chain.handler stage completion cost) with
        ready := rest ++ s.posts (chain.handler stage completion cost) }
  | shuttingDown {s : Queued Stage Value Result} {rest : List Ready} : s.ready = .wait :: rest →
    s.timer = .due → chain.graceful = true →
    QueueStep chain s .timedOut { s.timeOut true with ready := rest }
  | closing {s : Queued Stage Value Result} {rest posted : List Ready} : s.ready = .wait :: rest →
    s.timer = .due → chain.graceful = false → s.operation.Closes posted →
    QueueStep chain s .timedOut { s.timeOut false with ready := rest ++ posted }
  | closed {s : Queued Stage Value Result} {rest posted : List Ready} : s.ready = .closing :: rest →
    s.connection = .shut → s.operation.Closes posted →
    QueueStep chain s .closed { s.close with ready := rest ++ posted }
  | released {s : Queued Stage Value Result} {rest : List Ready} : s.ready = .release :: rest →
    s.connection = .closed → QueueStep chain s .released { s with connection := .released, ready := rest }

/-- The runs of a call in the order of the queue. -/
inductive QueueRun (chain : Chain Stage Value Result) :
    List (Event Stage Value) → Queued Stage Value Result → Prop
  | start : QueueRun chain [] { operation := .started chain.first }
  | next {log : List (Event Stage Value)} {s s' : Queued Stage Value Result} {event : Event Stage Value} :
    QueueRun chain log s → QueueStep chain s event s' → QueueRun chain (log ++ [event]) s'

/-- The runs before the first operation is started: the timer is set, and its handler may run. -/
inductive EarlyRun (chain : Chain Stage Value Result) :
    List (Event Stage Value) → Queued Stage Value Result → Prop
  | start : EarlyRun chain [] { operation := .none }
  | next {log : List (Event Stage Value)} {s s' : Queued Stage Value Result} {event : Event Stage Value} :
    EarlyRun chain log s → QueueStep chain s event s' → EarlyRun chain (log ++ [event]) s'

/-- The runs of a call whose first operation is started by another thread, when `early` has happened. -/
inductive CallRun (chain : Chain Stage Value Result) (early : List (Event Stage Value)) :
    List (Event Stage Value) → Queued Stage Value Result → Prop
  | start {s : Queued Stage Value Result} : EarlyRun chain early s → CallRun chain early []
    { s.go (.start chain.first) with ready := s.ready ++ s.posts (.start chain.first) }
  | next {log : List (Event Stage Value)} {s s' : Queued Stage Value Result} {event : Event Stage Value} :
    CallRun chain early log s → QueueStep chain s event s' → CallRun chain early (log ++ [event]) s'

/-- No handler is left to run. -/
def QueueRest (chain : Chain Stage Value Result) (s : Queued Stage Value Result) : Prop :=
  ∀ event s', ¬QueueStep chain s event s'

/-- No handler is left to run without the peer. -/
def QueueQuiet (chain : Chain Stage Value Result) (s : Queued Stage Value Result) : Prop :=
  ∀ event s', QueueStep chain s event s' → event.FromPeer

section Queue

variable {chain : Chain Stage Value Result} {log : List (Event Stage Value)} {s s' : Queued Stage Value Result}
  {event : Event Stage Value}

/-- A step in the order of the queue is a step. -/
theorem step_of_queueStep (h : QueueStep chain s event s') : Step chain s.toState event s'.toState := by
  cases h with
  | returned completion hstarted => exact .returned _ completion hstarted
  | expired hwaiting => exact .expired _ hwaiting
  | shutDown hshutting => exact .shutDown _ hshutting
  | handled cost hready hback => exact .handled _ cost hback
  | shuttingDown hready hdue hgraceful =>
    have hstep : Step chain s.toState .timedOut (s.timeOut chain.graceful) := .timedOut s.toState hdue
    rwa [hgraceful] at hstep
  | closing hready hdue hgraceful =>
    have hstep : Step chain s.toState .timedOut (s.timeOut chain.graceful) := .timedOut s.toState hdue
    rwa [hgraceful] at hstep
  | closed hready hshut => exact .closed _ hshut
  | released hready hclosed => exact .released _ hclosed

/-- **Runs** in the order of the queue are runs. -/
theorem run_of_queueRun (h : QueueRun chain log s) : Run chain log s.toState := by
  induction h with
  | start => exact .start
  | next _ hstep ih => exact ih.next (step_of_queueStep hstep)

/-! ## What the queue holds -/

/-- The queue and the state agree, and after a release that is waiting comes no operation but one that failed. -/
structure Ordered (s : Queued Stage Value Result) : Prop where
  nodup : s.ready.Nodup
  operation : .operation ∈ s.ready ↔ s.operation.IsBack
  wait : .wait ∈ s.ready ↔ s.timer = .due
  closing : .closing ∈ s.ready ↔ s.connection = .shut
  release : .release ∈ s.ready ↔ s.connection = .closed
  started : s.operation.IsStarted → s.connection.IsOpen
  opened : s.connection = .opened ↔ s.timer ≠ .over
  failed : s.ready.Pairwise fun a b => a = .release → b = .operation → s.operation.Failed
  released : s.connection = .released → s.operation.Failed
  waiting : s.timer = .waiting → s.results = []

@[simp] theorem not_isOpen_closed : ¬Connection.closed.IsOpen := by decide

@[simp] theorem not_isOpen_released : ¬Connection.released.IsOpen := by decide

@[simp] theorem isOpen_opened : Connection.opened.IsOpen := by decide

theorem failed_abort (operation : Operation Stage Value) (h : operation.IsStarted ∨ operation.Failed) :
    operation.abort.Failed := by
  cases operation with
  | none => trivial
  | started stage => rfl
  | back stage completion => exact h.resolve_left id

/-- Without a release in the queue there is none before the operation. -/
theorem pairwise_of_notMem {ready : List Ready} {p : Prop} (h : .release ∉ ready) :
    ready.Pairwise fun a b => a = .release → b = .operation → p :=
  List.pairwise_iff_forall_sublist.2 fun {a b} hsub ha => absurd (hsub.subset (by simp [ha])) h

/-- Without an operation in the queue there is none behind the release. -/
theorem pairwise_of_operation_notMem {ready : List Ready} {p : Prop} (h : .operation ∉ ready) :
    ready.Pairwise fun a b => a = .release → b = .operation → p :=
  List.pairwise_iff_forall_sublist.2 fun {a b} hsub _ hb => absurd (hsub.subset (by simp [hb])) h

theorem nodup_post {ready : List Ready} {x : Ready} (h : ready.Nodup) (hx : x ∉ ready) : (ready ++ [x]).Nodup :=
  (List.perm_append_singleton x ready).nodup_iff.2 (List.nodup_cons.2 ⟨hx, h⟩)

/-- Another handler comes last. -/
theorem pairwise_post {ready : List Ready} {x : Ready} {p : Prop}
    (h : ready.Pairwise fun a b => a = .release → b = .operation → p) (hx : x ≠ .operation) :
    (ready ++ [x]).Pairwise fun a b => a = .release → b = .operation → p :=
  List.pairwise_append.2 ⟨h, List.pairwise_singleton _ _, fun _ _ b hb _ hop => by
    rw [List.mem_singleton.1 hb] at hop
    exact absurd hop hx⟩

theorem Ordered.returned (h : Ordered s) {stage : Stage} (completion : Completion (Value stage))
    (hstarted : s.operation = .started stage) :
    Ordered { s with operation := .back stage completion, ready := s.ready ++ [.operation] } := by
  have hopen : s.connection.IsOpen := h.started (by rw [hstarted]; exact trivial)
  have hnone : .operation ∉ s.ready := fun hmem => by
    have hback := h.operation.1 hmem
    rw [hstarted] at hback
    exact hback
  have hrelease : .release ∉ s.ready ++ [.operation] := by
    simp only [List.mem_append, List.mem_singleton, reduceCtorEq, or_false]
    intro hmem
    rw [h.release.1 hmem] at hopen
    exact not_isOpen_closed hopen
  refine ⟨?_, ?_, ?_, ?_, ?_, ?_, h.opened, pairwise_of_notMem hrelease, fun hreleased => ?_, h.waiting⟩
  · exact nodup_post h.nodup hnone
  · simp [Operation.IsBack]
  · simpa using h.wait
  · simpa using h.closing
  · simpa using h.release
  · exact False.elim
  · rw [hreleased] at hopen
    exact absurd hopen not_isOpen_released

theorem Ordered.expired (h : Ordered s) (hwaiting : s.timer = .waiting) :
    Ordered { s with timer := .due, ready := s.ready ++ [.wait] } := by
  have hnone : .wait ∉ s.ready := fun hmem => by
    rw [h.wait.1 hmem] at hwaiting
    cases hwaiting
  refine ⟨?_, ?_, ?_, ?_, ?_, h.started, ?_, ?_, h.released, fun hw => by cases hw⟩
  · exact nodup_post h.nodup hnone
  · simpa using h.operation
  · simp
  · simpa using h.closing
  · simpa using h.release
  · simpa [hwaiting] using h.opened
  · exact pairwise_post h.failed (by decide)

theorem Ordered.shutDown (h : Ordered s) (hshutting : s.connection = .shutting) :
    Ordered { s with connection := .shut, ready := s.ready ++ [.closing] } := by
  have hnone : .closing ∉ s.ready := fun hmem => by
    rw [h.closing.1 hmem] at hshutting
    cases hshutting
  refine ⟨?_, ?_, ?_, ?_, ?_, fun _ => .inr (.inr rfl), ?_, ?_, fun hc => (by cases hc), h.waiting⟩
  · exact nodup_post h.nodup hnone
  · simpa using h.operation
  · simpa using h.wait
  · simp
  · simpa [hshutting] using h.release
  · simpa [hshutting] using h.opened
  · exact pairwise_post h.failed (by decide)

/-- The handler of the operation runs. -/
theorem Ordered.handled (h : Ordered s) {rest : List Ready} (hready : s.ready = .operation :: rest)
    (next : Next Stage Result) : Ordered { s.go next with ready := rest ++ s.posts next } := by
  have hnodup := h.nodup
  rw [hready, List.nodup_cons] at hnodup
  have hwait := h.wait
  have hclosing := h.closing
  have hrelease := h.release
  simp only [hready, List.mem_cons, reduceCtorEq, false_or] at hwait hclosing hrelease
  cases next with
  | start stage =>
    by_cases hopen : s.connection.IsOpen
    · have hbegin : (Operation.begin s.connection stage : Operation Stage Value) = .started stage := if_pos hopen
      refine ⟨?_, ?_, ?_, ?_, ?_, fun _ => hopen, h.opened, ?_, fun hreleased => ?_, h.waiting⟩
      · simpa [State.posts, hopen] using hnodup.2
      · simp [State.posts, State.go, hopen, hnodup.1, hbegin, Operation.IsBack]
      · simpa [State.posts, State.go, hopen] using hwait
      · simpa [State.posts, State.go, hopen] using hclosing
      · simpa [State.posts, State.go, hopen] using hrelease
      · simp only [State.posts, hopen, if_true, List.append_nil]
        exact pairwise_of_operation_notMem hnodup.1
      · change s.connection = _ at hreleased
        rw [hreleased] at hopen
        exact absurd hopen not_isOpen_released
    · have hbegin : (Operation.begin s.connection stage : Operation Stage Value) = .back stage .error := if_neg hopen
      refine ⟨?_, ?_, ?_, ?_, ?_, fun hstarted => ?_, h.opened, ?_, fun _ => ?_, h.waiting⟩
      · simpa [State.posts, hopen] using nodup_post hnodup.2 hnodup.1
      · simp [State.posts, State.go, hopen, hbegin, Operation.IsBack]
      · simpa [State.posts, State.go, hopen] using hwait
      · simpa [State.posts, State.go, hopen] using hclosing
      · simpa [State.posts, State.go, hopen] using hrelease
      · exact absurd hstarted (not_isStarted_begin hopen)
      · exact List.pairwise_of_forall fun _ _ _ _ => by simp [State.go, hbegin, Operation.Failed]
      · simp [State.go, hbegin, Operation.Failed]
  | complete result =>
    refine ⟨?_, ?_, ?_, ?_, ?_, False.elim, ?_, ?_, fun _ => trivial, fun hwaiting => ?_⟩
    · by_cases hw : s.timer = .waiting
      · have hnone : .wait ∉ rest := fun hmem => by
          rw [hwait.1 hmem] at hw
          cases hw
        simpa [State.posts, hw] using nodup_post hnodup.2 hnone
      · simpa [State.posts, hw] using hnodup.2
    · by_cases hw : s.timer = .waiting <;> simp [State.posts, State.go, hw, hnodup.1, Operation.IsBack]
    · by_cases hw : s.timer = .waiting
      · simp [State.posts, State.go, hw]
      · simpa [State.posts, State.go, hw] using hwait
    · by_cases hw : s.timer = .waiting <;> simpa [State.posts, State.go, hw] using hclosing
    · by_cases hw : s.timer = .waiting <;> simpa [State.posts, State.go, hw] using hrelease
    · exact h.opened.trans (timer_go (.complete result)).not.symm
    · by_cases hw : s.timer = .waiting
      · simpa [State.posts, hw] using pairwise_post (pairwise_of_operation_notMem hnodup.1) (by decide)
      · simpa [State.posts, hw] using pairwise_of_operation_notMem hnodup.1
    · by_cases hw : s.timer = .waiting <;> simp [State.go, hw] at hwaiting
  | leave =>
    refine ⟨?_, ?_, ?_, ?_, ?_, False.elim, h.opened, ?_, fun _ => trivial, h.waiting⟩
    · simpa [State.posts] using hnodup.2
    · simp [State.posts, State.go, hnodup.1, Operation.IsBack]
    · simpa [State.posts, State.go] using hwait
    · simpa [State.posts, State.go] using hclosing
    · simpa [State.posts, State.go] using hrelease
    · simpa [State.posts] using pairwise_of_operation_notMem hnodup.1

/-- What the close of the connection puts into the queue: the release, and an operation that was in flight. -/
theorem Operation.Closes.mem {operation : Operation Stage Value} {posted : List Ready} (h : operation.Closes posted) :
    posted.Nodup ∧ ∀ x, x ∈ posted ↔ x = .release ∨ (x = .operation ∧ operation.IsStarted) := by
  cases operation with
  | started stage => rcases h with rfl | rfl <;> simp [Operation.IsStarted, or_comm]
  | none =>
    obtain rfl : posted = _ := h
    simp [Operation.IsStarted]
  | back stage completion =>
    obtain rfl : posted = _ := h
    simp [Operation.IsStarted]

/-- The operation after the close has come back, or there is none. -/
theorem isBack_abort (operation : Operation Stage Value) :
    operation.abort.IsBack ↔ operation.IsStarted ∨ operation.IsBack := by
  cases operation <;> simp [Operation.abort, Operation.IsBack, Operation.IsStarted]

/-- The connection closes. -/
theorem Ordered.close (h : Ordered s) {head : Ready} {rest posted : List Ready} (hready : s.ready = head :: rest)
    (hhead : (head = .wait ∧ s.connection = .opened) ∨ (head = .closing ∧ s.connection = .shut))
    (hposted : s.operation.Closes posted) :
    Ordered { State.close { s.toState with timer := .over } with ready := rest ++ posted } := by
  obtain ⟨hpostedNodup, hmem⟩ := hposted.mem
  have hnodup := h.nodup
  rw [hready, List.nodup_cons] at hnodup
  have hrest : ∀ x, x ∈ rest ↔ x ∈ s.ready ∧ x ≠ head := by
    intro x
    rw [hready, List.mem_cons]
    constructor
    · exact fun hx => ⟨.inr hx, fun heq => hnodup.1 (heq ▸ hx)⟩
    · rintro ⟨rfl | hx, hne⟩
      · exact absurd rfl hne
      · exact hx
  have hrelease : .release ∉ rest := fun hin => by
    have hclosed := h.release.1 ((hrest _).1 hin).1
    rcases hhead with ⟨-, hc⟩ | ⟨-, hc⟩ <;> rw [hclosed] at hc <;> cases hc
  have hstarted : s.operation.IsStarted → .operation ∉ rest := fun hs hin => by
    have hback := h.operation.1 ((hrest _).1 hin).1
    revert hs hback
    cases s.operation <;> simp [Operation.IsStarted, Operation.IsBack]
  refine ⟨?_, ?_, ?_, ?_, ?_, fun hs => absurd hs (not_isStarted_abort _), ?_, ?_, fun hc => ?_, fun hw => ?_⟩
  · refine List.nodup_append.2 ⟨hnodup.2, hpostedNodup, fun a ha b hb heq => ?_⟩
    subst heq
    rcases (hmem _).1 hb with rfl | ⟨rfl, hs⟩
    · exact hrelease ha
    · exact hstarted hs ha
  · rw [List.mem_append, hmem, hrest, h.operation]
    change _ ↔ s.operation.abort.IsBack
    rw [isBack_abort]
    rcases hhead with ⟨rfl, -⟩ | ⟨rfl, -⟩ <;> simp [or_comm]
  · simp only [List.mem_append, hmem, reduceCtorEq, false_and, or_false, hrest, State.close, iff_false]
    rintro ⟨hin, hne⟩
    rcases hhead with ⟨rfl, -⟩ | ⟨rfl, hc⟩
    · exact hne rfl
    · have hdue := h.wait.1 hin
      have hopened := h.opened.2 (by rw [hdue]; decide)
      rw [hc] at hopened
      cases hopened
  · simp only [List.mem_append, hmem, reduceCtorEq, false_and, or_false, hrest, State.close, iff_false]
    rintro ⟨hin, hne⟩
    rcases hhead with ⟨rfl, hc⟩ | ⟨rfl, -⟩
    · rw [h.closing.1 hin] at hc
      cases hc
    · exact hne rfl
  · simp [hmem, State.close]
  · simp [State.close]
  · refine List.pairwise_append.2 ⟨pairwise_of_notMem hrelease, ?_, fun a ha b _ heq => ?_⟩
    · refine List.pairwise_iff_forall_sublist.2 fun {a b} hsub _ hop => ?_
      -- the operation behind the release is the one that was in flight
      have hb : b ∈ posted := hsub.subset (by simp)
      rw [hop] at hb
      obtain ⟨-, hs⟩ := ((hmem _).1 hb).resolve_left (by decide)
      exact failed_abort _ (.inl hs)
    · rw [heq] at ha
      exact absurd ha hrelease
  · cases hc
  · cases hw

/-- One step. -/
theorem Ordered.next (h : Ordered s) (hstep : QueueStep chain s event s') : Ordered s' := by
  cases hstep with
  | returned completion hstarted => exact h.returned completion hstarted
  | expired hwaiting => exact h.expired hwaiting
  | shutDown hshutting => exact h.shutDown hshutting
  | handled cost hready hback => exact h.handled hready _
  | @shuttingDown rest hready hdue hgraceful =>
    have hopened : s.connection = .opened := h.opened.2 (by rw [hdue]; decide)
    have hnodup := h.nodup
    rw [hready, List.nodup_cons] at hnodup
    have hop := h.operation
    have hclosing := h.closing
    have hrelease := h.release
    simp only [hready, List.mem_cons, reduceCtorEq, false_or] at hop hclosing hrelease
    have hfailed := h.failed
    rw [hready, List.pairwise_cons] at hfailed
    refine ⟨hnodup.2, hop, ?_, ?_, ?_, fun _ => .inr (.inl rfl), ?_, hfailed.2, fun hc => ?_, fun hw => ?_⟩
    · simpa [State.timeOut] using hnodup.1
    · simpa [State.timeOut, hopened] using hclosing
    · simpa [State.timeOut, hopened] using hrelease
    · simp [State.timeOut]
    · cases hc
    · cases hw
  | closing hready hdue hgraceful hposted =>
    exact h.close hready (.inl ⟨rfl, h.opened.2 (by rw [hdue]; decide)⟩) hposted
  | @closed rest posted hready hshut hposted =>
    have hover : s.timer = .over := by
      by_contra hne
      rw [h.opened.2 hne] at hshut
      cases hshut
    have hclosed := h.close hready (.inr ⟨rfl, hshut⟩) hposted
    rw [← hover] at hclosed
    exact hclosed
  | @released rest hready hclosed =>
    have hnodup := h.nodup
    rw [hready, List.nodup_cons] at hnodup
    have hop := h.operation
    have hwait := h.wait
    have hclosing := h.closing
    simp only [hready, List.mem_cons, reduceCtorEq, false_or] at hop hwait hclosing
    have hfailed := h.failed
    rw [hready, List.pairwise_cons] at hfailed
    have hnot : ¬s.operation.IsStarted := fun hs => by
      have hopen := h.started hs
      rw [hclosed] at hopen
      exact not_isOpen_closed hopen
    refine ⟨hnodup.2, hop, hwait, ?_, ?_, fun hs => absurd hs hnot, ?_, hfailed.2, fun _ => ?_, h.waiting⟩
    · simpa [hclosed] using hclosing
    · simpa using hnodup.1
    · simpa [hclosed] using h.opened
    · -- an operation that is back is behind the release
      cases hoperation : s.operation with
      | none => trivial
      | started stage =>
        rw [hoperation] at hnot
        exact hnot trivial
      | back stage completion =>
        have hin : .operation ∈ rest := hop.2 (by rw [hoperation]; exact trivial)
        have hthis := hfailed.1 _ hin rfl rfl
        rwa [hoperation] at hthis

/-- **All runs** in the order of the queue. -/
theorem ordered_of_queueRun (h : QueueRun chain log s) : Ordered s := by
  induction h with
  | start => exact ⟨List.nodup_nil, by simp [Operation.IsBack], by simp, by simp, by simp, fun _ => by simp, by simp,
      List.Pairwise.nil, by simp, fun _ => rfl⟩
  | next _ hstep ih => exact ih.next hstep

/-! ## Rest -/

theorem exists_closes (operation : Operation Stage Value) : ∃ posted, operation.Closes posted := by
  cases operation with
  | started stage => exact ⟨_, .inl rfl⟩
  | none => exact ⟨_, rfl⟩
  | back stage completion => exact ⟨_, rfl⟩

/-- The queue is empty when nothing can run without the peer. -/
theorem ready_of_quiet (h : Ordered s) (hquiet : QueueQuiet chain s) : s.ready = [] := by
  cases hready : s.ready with
  | nil => rfl
  | cons head rest =>
    have hmem : head ∈ s.ready := by
      rw [hready]
      exact List.mem_cons_self
    obtain ⟨posted, hposted⟩ := exists_closes s.operation
    cases head with
    | operation =>
      have hback := h.operation.1 hmem
      cases hop : s.operation with
      | back stage completion => exact (hquiet _ _ (.handled 0 hready hop)).elim
      | none =>
        rw [hop] at hback
        exact hback.elim
      | started stage =>
        rw [hop] at hback
        exact hback.elim
    | wait =>
      cases hgraceful : chain.graceful with
      | true => exact (hquiet _ _ (.shuttingDown hready (h.wait.1 hmem) hgraceful)).elim
      | false => exact (hquiet _ _ (.closing hready (h.wait.1 hmem) hgraceful hposted)).elim
    | closing => exact (hquiet _ _ (.closed hready (h.closing.1 hmem) hposted)).elim
    | release => exact (hquiet _ _ (.released hready (h.release.1 hmem))).elim

/-- **Quiet** in the order of the queue, the call is quiet, and its connection is being shut down or released. -/
theorem quiet_of_queue (h : Ordered s) (hquiet : QueueQuiet chain s) :
    Quiet chain s.toState ∧ (s.connection = .shutting ∨ s.connection = .released) := by
  have hready := ready_of_quiet h hquiet
  have hnone : ∀ x, x ∉ s.ready := fun x hx => by
    rw [hready] at hx
    cases hx
  have hwaiting : s.timer ≠ .waiting := fun hw => hquiet _ _ (.expired hw)
  have hdue : s.timer ≠ .due := fun hd => hnone _ (h.wait.2 hd)
  have hover : s.timer = .over := by
    cases htimer : s.timer with
    | waiting => exact absurd htimer hwaiting
    | due => exact absurd htimer hdue
    | «over» => rfl
  refine ⟨fun event s' hstep => ?_, ?_⟩
  · cases hstep with
    | returned completion hstarted => trivial
    | handled cost hback => exact hnone _ (h.operation.2 (by rw [hback]; exact trivial))
    | expired hw => exact hwaiting hw
    | timedOut hd => exact hdue hd
    | shutDown hshutting => trivial
    | closed hshut => exact hnone _ (h.closing.2 hshut)
    | released hclosed => exact hnone _ (h.release.2 hclosed)
  · cases hc : s.connection with
    | opened => exact absurd hover (h.opened.1 hc)
    | shutting => exact .inl rfl
    | shut => exact absurd (h.closing.2 hc) (hnone _)
    | closed => exact absurd (h.release.2 hc) (hnone _)
    | released => exact .inr rfl

/-- **At rest** in the order of the queue there is no operation, and the connection is released. -/
theorem released_of_rest (h : Ordered s) (hrest : QueueRest chain s) :
    s.operation = .none ∧ s.connection = .released := by
  obtain ⟨-, hshutting | hreleased⟩ := quiet_of_queue h fun event s' hstep => (hrest event s' hstep).elim
  · exact (hrest _ _ (.shutDown hshutting)).elim
  · refine ⟨?_, hreleased⟩
    have hfailed := h.released hreleased
    cases hop : s.operation with
    | none => rfl
    | started stage => exact (hrest _ _ (.returned .error hop)).elim
    | back stage completion =>
      have hready := ready_of_quiet h fun event s' hstep => (hrest event s' hstep).elim
      have hmem := h.operation.2 (by rw [hop]; exact trivial)
      rw [hready] at hmem
      cases hmem

/-- While an operation is in flight or its handler is to run, the call is not completed. -/
theorem results_of_count (h : Run chain log s.toState) (hcount : s.operation.count = 1) : s.results = [] := by
  obtain ⟨-, hone, -⟩ := count_of_run h
  rw [hcount] at hone
  exact List.eq_nil_of_length_eq_zero (by omega)

/-! ## Before the first operation -/

/-- Until its handler runs, nothing has happened but that the timer has expired. -/
theorem early_cases {early : List (Event Stage Value)} (h : EarlyRun chain early s) :
    (early = [] ∧ s = { operation := .none }) ∨
    (early = [.expired] ∧ s = { operation := .none, timer := .due, ready := [.wait] }) ∨ .timedOut ∈ early := by
  induction h with
  | start => exact .inl ⟨rfl, rfl⟩
  | @next log s s' event _ hstep ih =>
    rcases ih with ⟨rfl, rfl⟩ | ⟨rfl, rfl⟩ | htimedOut
    · cases hstep with
      | expired => exact .inr (.inl ⟨rfl, rfl⟩)
      | _ => contradiction
    · cases hstep with
      | shuttingDown => exact .inr (.inr (List.mem_append_right _ (List.mem_singleton_self _)))
      | closing => exact .inr (.inr (List.mem_append_right _ (List.mem_singleton_self _)))
      | _ => contradiction
    · exact .inr (.inr (List.mem_append_left _ htimedOut))

/-- The events of the timer and the connection. -/
def Event.OfTimer : Event Stage Value → Prop
  | returned _ _ | handled _ _ _ => False
  | _ => True

/-- Without an operation only these happen. -/
theorem ofTimer_of_step (hnone : s.operation = .none) (h : QueueStep chain s event s') :
    s'.operation = .none ∧ event.OfTimer := by
  cases h with
  | returned completion hstarted =>
    rw [hnone] at hstarted
    cases hstarted
  | handled cost hready hback =>
    rw [hnone] at hback
    cases hback
  | closing => exact ⟨congrArg Operation.abort hnone, trivial⟩
  | closed => exact ⟨congrArg Operation.abort hnone, trivial⟩
  | _ => exact ⟨hnone, trivial⟩

theorem ofTimer_of_earlyRun {early : List (Event Stage Value)} (h : EarlyRun chain early s) :
    s.operation = .none ∧ ∀ event ∈ early, event.OfTimer := by
  induction h with
  | start => exact ⟨rfl, by simp⟩
  | next _ hstep ih =>
    obtain ⟨hnone, hevent⟩ := ofTimer_of_step ih.1 hstep
    refine ⟨hnone, fun event hmem => ?_⟩
    rcases List.mem_append.1 hmem with hmem | hmem
    · exact ih.2 event hmem
    · rw [List.mem_singleton.1 hmem]
      exact hevent

theorem CallRun.early {early : List (Event Stage Value)} (h : CallRun chain early log s) :
    ∃ s, EarlyRun chain early s := by
  induction h with
  | start hearly => exact ⟨_, hearly⟩
  | next _ _ ih => exact ih

/-- **Runs** whose first operation is started before the handler of the timer runs. -/
theorem queueRun_of_callRun {early : List (Event Stage Value)} (h : CallRun chain early log s)
    (htimer : .timedOut ∉ early) : QueueRun chain (early ++ log) s := by
  induction h with
  | start hearly =>
    rcases early_cases hearly with ⟨rfl, rfl⟩ | ⟨rfl, rfl⟩ | htimedOut
    · exact .start
    · exact QueueRun.start.next (.expired rfl)
    · exact absurd htimedOut htimer
  | next _ hstep ih =>
    rw [← List.append_assoc]
    exact ih.next hstep

/-- Of the early events there is at most the expiry. -/
theorem CallRun.mem_iff {early : List (Event Stage Value)} (h : CallRun chain early log s) (htimer : .timedOut ∉ early)
    (hne : event ≠ .expired) : event ∈ early ++ log ↔ event ∈ log := by
  obtain ⟨_, hearly⟩ := h.early
  rw [List.mem_append, or_iff_right]
  intro hmem
  rcases early_cases hearly with ⟨rfl, -⟩ | ⟨rfl, -⟩ | htimedOut
  · cases hmem
  · exact hne (List.mem_singleton.1 hmem)
  · exact htimer htimedOut

/-- The last step of a run. -/
theorem CallRun.snoc {early : List (Event Stage Value)} (h : CallRun chain early (log ++ [event]) s') :
    ∃ s, CallRun chain early log s ∧ QueueStep chain s event s' := by
  generalize heq : log ++ [event] = log' at h
  cases h with
  | start => simp at heq
  | next hrun hstep =>
    obtain ⟨rfl, hevent⟩ := List.append_inj' heq rfl
    cases hevent
    exact ⟨_, hrun, hstep⟩

/-- The part of a run. -/
theorem CallRun.part {early before after : List (Event Stage Value)} (h : CallRun chain early (before ++ after) s) :
    ∃ mid, CallRun chain early before mid := by
  induction after using List.reverseRecOn generalizing s with
  | nil => exact ⟨s, by rwa [List.append_nil] at h⟩
  | append_singleton after event ih =>
    rw [← List.append_assoc] at h
    obtain ⟨mid, hmid, -⟩ := h.snoc
    exact ih hmid

/-- What a handler completes the call with is its result, and then there is no operation. -/
theorem CallRun.completed {early : List (Event Stage Value)} {result : Result} (h : CallRun chain early log s)
    (htimer : .timedOut ∉ early) (hmem : event ∈ log) (hresult : event.result chain = some result) :
    s.results = [result] ∧ s.operation = .none := by
  have hrun := run_of_queueRun (queueRun_of_callRun h htimer)
  have hin : result ∈ s.results := by
    rw [results_of_run hrun]
    exact List.mem_filterMap.2 ⟨event, List.mem_append_right _ hmem, hresult⟩
  obtain ⟨-, hcount, -⟩ := count_of_run hrun
  have hpos := List.length_pos_of_mem hin
  obtain ⟨only, honly⟩ := List.length_eq_one_iff.1 (show s.results.length = 1 by omega)
  rw [honly, List.mem_singleton] at hin
  refine ⟨by rw [honly, hin], ?_⟩
  cases hop : s.operation with
  | none => rfl
  | started stage =>
    rw [hop, count_started] at hcount
    omega
  | back stage completion =>
    rw [hop, count_back] at hcount
    omega

/-- **Behind the completion** there is only what the timer and the connection do. -/
theorem CallRun.ofTimer {early before after : List (Event Stage Value)} {result : Result}
    (h : CallRun chain early (before ++ after) s) (htimer : .timedOut ∉ early) (hmem : event ∈ before)
    (hresult : event.result chain = some result) : ∀ event ∈ after, event.OfTimer := by
  induction after using List.reverseRecOn generalizing s with
  | nil => exact fun event hevent => by cases hevent
  | append_singleton after last ih =>
    rw [← List.append_assoc] at h
    obtain ⟨mid, hmid, hstep⟩ := h.snoc
    obtain ⟨-, hnone⟩ := hmid.completed htimer (List.mem_append_left _ hmem) hresult
    intro event hevent
    rcases List.mem_append.1 hevent with hevent | hevent
    · exact ih hmid event hevent
    · rw [List.mem_singleton.1 hevent]
      exact (ofTimer_of_step hnone hstep).2

end Queue

end StDns.Lib.Async
