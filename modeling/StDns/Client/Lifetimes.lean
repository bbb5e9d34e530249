import StDns.Client.Calls
import StDns.Lib.Footprint

/-!
# What the calls of the client allocate and free

The sockets, timers, messages and buffers of `udp_dns`, `tcp_dns`, `tcp_tls_dns` for one area and `forward_udp`, with
every statement that allocates, uses or frees one. The handlers run in the order of the queue of the `io_context`, which
one thread runs; another thread sets the timer and starts the first operation. When the timer has expired and the
socket is released before that, the operation uses a socket that is freed. In every run in which the handler of the
timer has not run before it, nothing is used after it is freed and nothing is freed twice, and a call at rest has freed
all that it allocated (`stream_lifetimes`), but with two exceptions: the request of `udp_dns` is gone when a send that
could not be done at once is done (`udp_lifetimes`), and `forward_udp` never frees its timer when it receives an empty
datagram (`forward_lifetimes`).
-/

namespace StDns.Client

open Lib Lib.Async Ledger Protocol

/-- What a call allocates. -/
inductive Resource where
  | request
  | socket
  | dataBytes
  | lengthBytes
  | timer
  | response
  | serverEndpoint
  deriving DecidableEq

/-! ## The source, statement by statement -/

/-- `is_timeout_or_error` before a handler. -/
def unlessFails {α : Type} (timeout : Nat) (complete : List (Act Resource)) (completion : Completion α) (cost : Nat)
    (handler : α → List (Act Resource)) : List (Act Resource) :=
  match completion with
  | .error => complete
  | .done value => if cost ≤ timeout then handler value else complete

section Acts

variable (timeout : Nat)

/-- The first statements of `tcp_dns` and `tcp_tls_dns`, until the timer is set. -/
def streamArmed : List (Act Resource) :=
  [.alloc .request, .alloc .socket, .use .socket, .alloc .dataBytes, .alloc .lengthBytes, .alloc .timer, .use .timer]

/-- And the last, which starts to connect. -/
def streamStarted : List (Act Resource) := [.use .socket]

/-- What is posted when the socket is closed. -/
def streamReleased : List (Act Resource) :=
  [.free .dataBytes, .free .lengthBytes, .free .request, .free .socket]

def tcpDnsActs : Event TcpStage TcpStage.Value → List (Act Resource)
  | .returned .connect _ => [.use .socket]
  | .returned .write _ => [.use .socket, .use .dataBytes]
  | .returned .readLength _ => [.use .socket, .use .lengthBytes]
  | .returned (.readBody _) _ => [.use .socket, .use .dataBytes]
  | .handled .connect completion cost => unlessFails timeout [.free .timer] completion cost fun _ =>
    [.use .request, .use .dataBytes, .use .socket]
  | .handled .write completion cost => unlessFails timeout [.free .timer] completion cost fun _ => [.use .socket]
  | .handled .readLength completion cost => unlessFails timeout [.free .timer] completion cost fun lengthBytes =>
    .use .lengthBytes :: if 1024 < lengthBytes.dataLen then [.free .timer] else [.use .socket]
  | .handled (.readBody _) completion cost => unlessFails timeout [.free .timer] completion cost fun _ =>
    [.use .dataBytes, .free .timer]
  | .expired => [.use .timer]
  | .timedOut => [.use .socket]
  | .shutDown | .closed => []
  | .released => streamReleased

/-- Over TLS `complete` cancels the timer before it deletes it. -/
def tcpTlsDnsActs : Event TlsStage TlsStage.Value → List (Act Resource)
  | .returned .connect _ | .returned .handshake _ => [.use .socket]
  | .returned .write _ => [.use .socket, .use .dataBytes]
  | .returned .readLength _ => [.use .socket, .use .lengthBytes]
  | .returned (.readBody _) _ => [.use .socket, .use .dataBytes]
  | .handled .connect completion cost => unlessFails timeout [.use .timer, .free .timer] completion cost fun _ =>
    [.use .socket]
  | .handled .handshake completion cost => unlessFails timeout [.use .timer, .free .timer] completion cost fun _ =>
    [.use .request, .use .dataBytes, .use .socket]
  | .handled .write completion cost => unlessFails timeout [.use .timer, .free .timer] completion cost fun _ =>
    [.use .socket]
  | .handled .readLength completion cost => unlessFails timeout [.use .timer, .free .timer] completion cost
    fun lengthBytes =>
      .use .lengthBytes :: if 1024 < lengthBytes.dataLen then [.use .timer, .free .timer] else [.use .socket]
  | .handled (.readBody _) completion cost => unlessFails timeout [.use .timer, .free .timer] completion cost fun _ =>
    [.use .dataBytes, .use .timer, .free .timer]
  | .expired => [.use .timer]
  | .timedOut => [.use .socket]
  | .shutDown => [.use .socket]
  | .closed => [.use .socket]
  | .released => streamReleased

def udpDnsArmed : List (Act Resource) := [.alloc .socket, .alloc .request, .alloc .timer, .use .timer]

/-- The datagram is sent at once, or when the socket is ready. -/
def udpDnsStarted (atOnce : Bool) : List (Act Resource) := .use .socket :: if atOnce then [.use .request] else []

def udpDnsActs (atOnce : Bool) : Event UdpStage UdpStage.Value → List (Act Resource)
  | .returned .send _ => if atOnce then [] else [.use .socket, .use .request]
  | .returned .receive _ => [.use .socket, .use .response, .use .serverEndpoint]
  | .handled .send completion cost => unlessFails timeout [.free .timer] completion cost fun _ =>
    [.alloc .response, .alloc .serverEndpoint, .use .socket]
  | .handled .receive completion cost =>
    (unlessFails timeout [.free .timer] completion cost fun _ => [.use .response, .free .timer]) ++
      [.free .response, .free .serverEndpoint]
  | .expired => [.use .timer]
  | .timedOut => [.use .socket]
  | .shutDown | .closed => []
  | .released => [.free .socket]

/-- All of `udp_dns`: its request is a local variable, which is gone when the function returns, after `during`. -/
def udpDnsRun (atOnce : Bool) (early during after : List (Event UdpStage UdpStage.Value)) : List (Act Resource) :=
  callActs udpDnsArmed (udpDnsStarted atOnce) (udpDnsActs timeout atOnce) early during ++
    .free .request :: after.flatMap (udpDnsActs timeout atOnce)

/-- The request of `forward_udp` is that of the session. -/
def forwardUdpArmed : List (Act Resource) := [.alloc .socket, .alloc .timer, .use .timer]

def forwardUdpStarted : List (Act Resource) := [.use .socket]

/-- A response that is handed to the callback is left to it. -/
def forwardUdpActs : Event UdpStage UdpStage.Value → List (Act Resource)
  | .returned .send _ => [.use .socket]
  | .returned .receive _ => [.use .socket, .use .response, .use .serverEndpoint]
  | .handled .send completion cost => unlessFails timeout [.free .timer] completion cost fun _ =>
    [.alloc .response, .alloc .serverEndpoint, .use .socket]
  | .handled .receive completion cost => .free .serverEndpoint ::
    unlessFails timeout [.free .timer, .free .response] completion cost fun datagram =>
      if 0 < datagram.size then [.use .response, .free .timer] else [.free .response]
  | .expired => [.use .timer]
  | .timedOut => [.use .socket]
  | .shutDown | .closed => []
  | .released => [.free .socket]

end Acts

/-! ## What is live -/

/-- The resources of a call over a stream. -/
def streamLive (connected timed : Bool) : Finset Resource :=
  (if connected then {.request, .socket, .dataBytes, .lengthBytes} else ∅) ∪ if timed then {.timer} else ∅

/-- Those of a call over UDP. -/
def udpLive (connected timed : Bool) (stage : Option UdpStage) : Finset Resource :=
  (if connected then {.socket} else ∅) ∪ (if timed then {.timer} else ∅) ∪
    if stage = some .receive then {.response, .serverEndpoint} else ∅

/-- A response that is handed on. -/
def handedOn : Option (Option Datagram) → Finset Resource
  | some (some _) => {.response}
  | _ => ∅

/-- What `udp_dns` has with its request. -/
def udpDnsLive (connected timed : Bool) (stage : Option UdpStage) : Finset Resource :=
  insert .request (udpLive connected timed stage)

/-- The call is completed, and then what was allocated for the response is freed. -/
theorem all_received (connected : Bool) :
    all [.free .timer, .free .response, .free .serverEndpoint] (udpDnsLive connected true (some .receive)) =
      some (udpDnsLive connected false none) := by
  cases connected <;> decide

/-- In the order of `forward_udp`. -/
theorem all_forwarded (connected : Bool) :
    all [.free .serverEndpoint, .free .timer, .free .response]
      (udpLive connected true (some .receive) ∪ handedOn none) =
        some (udpLive connected false none ∪ handedOn (some none)) := by
  cases connected <;> decide

section Footprints

variable (stray : Bytes → Nat → List Nat) (timeout id : Nat)

def tcpDnsFootprint : Footprint (tcpDnsCall stray timeout id) Resource where
  armed := streamArmed
  started := streamStarted
  acts := tcpDnsActs timeout
  live connected result _ := streamLive connected result.isNone
  all_begun := show all _ ∅ = some (streamLive true true) by decide
  all_late := show all (streamArmed ++ [.use .timer] ++ streamStarted) ∅ = some (streamLive true true) by decide
  all_returned stage _ := by cases stage <;> rfl
  all_error stage _ connected := by cases stage <;> exact ⟨_, rfl, by cases connected <;> rfl⟩
  all_done stage value cost := by
    by_cases hlate : cost ≤ timeout
    · cases stage with
      | readLength =>
        by_cases hlen : 1024 < Filled.dataLen value <;>
          simp only [tcpDnsCall, tcpDnsActs, unlessFails, unlessTimeoutOrError, hlate, hlen, if_true, if_false] <;> rfl
      | _ =>
        simp only [tcpDnsCall, tcpDnsActs, unlessFails, unlessTimeoutOrError, hlate, if_true]
        rfl
    · cases stage <;> simp only [tcpDnsCall, tcpDnsActs, unlessFails, unlessTimeoutOrError, hlate, if_false] <;> rfl
  all_expired _ := rfl
  all_timedOut result _ := by cases result <;> rfl
  all_shutDown _ _ := rfl
  all_closed _ _ := rfl
  all_released result _ := by cases result <;> rfl

def tcpTlsDnsFootprint : Footprint (tcpTlsDnsCall stray timeout id) Resource where
  armed := streamArmed
  started := streamStarted
  acts := tcpTlsDnsActs timeout
  live connected result _ := streamLive connected result.isNone
  all_begun := show all _ ∅ = some (streamLive true true) by decide
  all_late := show all (streamArmed ++ [.use .timer] ++ streamStarted) ∅ = some (streamLive true true) by decide
  all_returned stage _ := by cases stage <;> rfl
  all_error stage _ connected := by cases stage <;> exact ⟨_, rfl, by cases connected <;> rfl⟩
  all_done stage value cost := by
    by_cases hlate : cost ≤ timeout
    · cases stage with
      | readLength =>
        by_cases hlen : 1024 < Filled.dataLen value <;>
          simp only [tcpTlsDnsCall, tcpTlsDnsActs, unlessFails, unlessTimeoutOrError, hlate, hlen, if_true,
            if_false] <;> rfl
      | _ =>
        simp only [tcpTlsDnsCall, tcpTlsDnsActs, unlessFails, unlessTimeoutOrError, hlate, if_true]
        rfl
    · cases stage <;>
        simp only [tcpTlsDnsCall, tcpTlsDnsActs, unlessFails, unlessTimeoutOrError, hlate, if_false] <;> rfl
  all_expired _ := rfl
  all_timedOut result _ := by cases result <;> rfl
  all_shutDown result _ := by cases result <;> rfl
  all_closed result _ := by cases result <;> rfl
  all_released result _ := by cases result <;> rfl

/-- The request of `udp_dns` is there: it has not returned. -/
def udpDnsFootprint (atOnce : Bool) : Footprint (udpDnsCall stray timeout id) Resource where
  armed := udpDnsArmed
  started := udpDnsStarted atOnce
  acts := udpDnsActs timeout atOnce
  live connected result stage := udpDnsLive connected result.isNone stage
  all_begun := show all _ ∅ = some (udpDnsLive true true (some .send)) by cases atOnce <;> decide
  all_late := show all (udpDnsArmed ++ [.use .timer] ++ udpDnsStarted atOnce) ∅ =
      some (udpDnsLive true true (some .send)) by
    cases atOnce <;> decide
  all_returned stage _ := by cases stage <;> cases atOnce <;> rfl
  all_error stage _ connected := by
    cases stage with
    | send => exact ⟨_, rfl, by cases connected <;> rfl⟩
    | receive => exact ⟨_, rfl, all_received connected⟩
  all_done stage value cost := by
    by_cases hlate : cost ≤ timeout
    · cases stage with
      | send =>
        simp only [udpDnsCall, udpDnsActs, unlessFails, unlessTimeoutOrError, hlate, if_true]
        decide
      | receive =>
        simp only [udpDnsCall, udpDnsActs, unlessFails, unlessTimeoutOrError, hlate, if_true]
        rfl
    · cases stage <;> simp only [udpDnsCall, udpDnsActs, unlessFails, unlessTimeoutOrError, hlate, if_false] <;> rfl
  all_expired stage := by rcases stage with _ | _ | _ <;> rfl
  all_timedOut result stage := by cases result <;> rcases stage with _ | _ | _ <;> rfl
  all_shutDown _ _ := rfl
  all_closed _ _ := rfl
  all_released result stage := by cases result <;> rcases stage with _ | _ | _ <;> rfl

def forwardUdpFootprint : Footprint (forwardUdpCall timeout) Resource where
  armed := forwardUdpArmed
  started := forwardUdpStarted
  acts := forwardUdpActs timeout
  live connected result stage := udpLive connected result.isNone stage ∪ handedOn result
  all_begun := show all _ ∅ = some (udpLive true true (some .send) ∪ handedOn none) by decide
  all_late := show all (forwardUdpArmed ++ [.use .timer] ++ forwardUdpStarted) ∅ =
    some (udpLive true true (some .send) ∪ handedOn none) by decide
  all_returned stage _ := by cases stage <;> rfl
  all_error stage _ connected := by
    cases stage with
    | send => exact ⟨_, rfl, by cases connected <;> rfl⟩
    | receive => exact ⟨_, rfl, all_forwarded connected⟩
  all_done stage value cost := by
    by_cases hlate : cost ≤ timeout
    · cases stage with
      | send =>
        simp only [forwardUdpCall, forwardUdpActs, unlessFails, unlessTimeoutOrError, hlate, if_true]
        decide
      | receive =>
        by_cases hsize : 0 < Datagram.size value <;>
          simp only [forwardUdpCall, forwardUdpActs, unlessFails, unlessTimeoutOrError, hlate, hsize, if_true,
            if_false] <;> rfl
    · cases stage <;>
        simp only [forwardUdpCall, forwardUdpActs, unlessFails, unlessTimeoutOrError, hlate, if_false] <;> rfl
  all_expired stage := by rcases stage with _ | _ | _ <;> rfl
  all_timedOut result stage := by rcases result with _ | _ | _ <;> rcases stage with _ | _ | _ <;> rfl
  all_shutDown _ _ := rfl
  all_closed _ _ := rfl
  all_released result stage := by rcases result with _ | _ | _ <;> rcases stage with _ | _ | _ <;> rfl

end Footprints

/-! ## Too late -/

section Late

variable {timeout : Nat}

theorem tcp_ofTimer (event : Event TcpStage TcpStage.Value) (h : event.OfTimer) :
    .alloc .socket ∉ tcpDnsActs timeout event := by
  cases event <;> first | exact absurd h id | simp [tcpDnsActs, streamReleased]

theorem tls_ofTimer (event : Event TlsStage TlsStage.Value) (h : event.OfTimer) :
    .alloc .socket ∉ tcpTlsDnsActs timeout event := by
  cases event <;> first | exact absurd h id | simp [tcpTlsDnsActs, streamReleased]

theorem udp_ofTimer {atOnce : Bool} (event : Event UdpStage UdpStage.Value) (h : event.OfTimer) :
    .alloc .socket ∉ udpDnsActs timeout atOnce event := by
  cases event <;> first | exact absurd h id | simp [udpDnsActs]

theorem forward_ofTimer (event : Event UdpStage UdpStage.Value) (h : event.OfTimer) :
    .alloc .socket ∉ forwardUdpActs timeout event := by
  cases event <;> first | exact absurd h id | simp [forwardUdpActs]

end Late

/-! ## Streams -/

section Streams

variable {stray : Bytes → Nat → List Nat} {timeout id : Nat}

/-- Without a connection and a timer nothing of a stream is live. -/
theorem streamLive_eq_empty {connected timed : Bool} :
    streamLive connected timed = ∅ ↔ connected = false ∧ timed = false := by
  cases connected <;> cases timed <;> decide

theorem tcp_freesAll {early log : List (Event TcpStage TcpStage.Value)} {s : Queued TcpStage TcpStage.Value (List Nat)}
    (h : CallRun (tcpDnsCall stray timeout id) early log s) (htimer : .timedOut ∉ early)
    (hrest : QueueRest (tcpDnsCall stray timeout id) s) :
    FreesAll ((tcpDnsFootprint stray timeout id).ofRun early log) := by
  obtain ⟨result, hall⟩ := (tcpDnsFootprint stray timeout id).all_of_complete tcpDnsCall_ne_leave h htimer hrest
  exact freesAll_iff.2 hall

/-- Over TLS the shutdown has to come back. -/
theorem tls_freesAll_iff {early log : List (Event TlsStage TlsStage.Value)}
    {s : Queued TlsStage TlsStage.Value (List Nat)} (h : CallRun (tcpTlsDnsCall stray timeout id) early log s)
    (htimer : .timedOut ∉ early) (hquiet : QueueQuiet (tcpTlsDnsCall stray timeout id) s) :
    FreesAll ((tcpTlsDnsFootprint stray timeout id).ofRun early log) ↔ .shutDown ∈ log := by
  have hqueue := queueRun_of_callRun h htimer
  have hrun := run_of_queueRun hqueue
  obtain ⟨hquiet', hconnection⟩ := quiet_of_queue (ordered_of_queueRun hqueue) hquiet
  have hdown := (shutFirst_of_run rfl hrun).shutDown
  have hcompletes := tls_completes_iff hrun hquiet'
  rw [freesAll_iff, (tcpTlsDnsFootprint stray timeout id).all_of_callRun h htimer, Option.some.injEq,
    ← h.mem_iff htimer (by simp)]
  change streamLive _ _ = ∅ ↔ _
  rw [streamLive_eq_empty, Bool.not_eq_false', decide_eq_true_iff, hdown]
  rcases hconnection with hshutting | hreleased
  · simp [hshutting]
  · have hone := hcompletes.2.2 (.inl (hdown.2 (by simp [hreleased])))
    obtain ⟨result, hresults⟩ := List.length_eq_one_iff.1 hone
    simp [hreleased, hresults]

end Streams

/-- A connection over TLS is refused, and the shutdown comes back. -/
theorem run_refused : ∃ s, CallRun (tcpTlsDnsCall (fun _ _ => []) 100 7) []
    [.returned .connect .error, .handled .connect .error 0, .timedOut, .shutDown, .closed, .released] s ∧
    QueueQuiet (tcpTlsDnsCall (fun _ _ => []) 100 7) s := by
  have hstart : CallRun (tcpTlsDnsCall (fun _ _ => []) 100 7) [] [] { operation := .started .connect } := .start .start
  have hreturned := hstart.next (.returned .error rfl)
  have hhandled := hreturned.next (.handled 0 rfl rfl)
  have htimedOut := hhandled.next (.shuttingDown rfl rfl rfl)
  have hshutDown := htimedOut.next (.shutDown rfl)
  have hclosed := hshutDown.next (.closed rfl rfl (show Operation.Closes _ [.release] from rfl))
  refine ⟨_, hclosed.next (.released rfl rfl), fun event s' hstep => ?_⟩
  cases hstep <;> contradiction

/-- The thread that calls `tcp_dns` is stopped after it has set the timer. -/
theorem run_late : ∃ s, CallRun (tcpDnsCall (fun _ _ => []) 100 7) [.expired, .timedOut, .released] [] s := by
  have hstart : EarlyRun (tcpDnsCall (fun _ _ => []) 100 7) [] { operation := .none } := .start
  have hexpired := hstart.next (.expired rfl)
  have htimedOut := hexpired.next (.closing rfl rfl rfl (show Operation.Closes _ [.release] from rfl))
  exact ⟨_, .start (htimedOut.next (.released rfl rfl))⟩

section Udp

variable {stray : Bytes → Nat → List Nat} {timeout id : Nat} {atOnce : Bool}
  {early during after log : List (Event UdpStage UdpStage.Value)} {s : Queued UdpStage UdpStage.Value (List Nat)}

/-- What holds of the acts of a handler. -/
theorem forall_unlessFails {α : Type} {p : Act Resource → Prop} {acts : List (Act Resource)} {completion : Completion α}
    {cost : Nat} {handler : α → List (Act Resource)} (hacts : ∀ act ∈ acts, p act)
    (hhandler : ∀ value, ∀ act ∈ handler value, p act) :
    ∀ act ∈ unlessFails timeout acts completion cost handler, p act := by
  cases completion with
  | error => exact hacts
  | done value =>
    simp only [unlessFails]
    split
    · exact hhandler value
    · exact hacts

/-- Only a send that is not done at once is about the request. -/
theorem of_request {event : Event UdpStage UdpStage.Value} : ∀ act ∈ udpDnsActs timeout atOnce event,
    act.resource = .request →
      act = .use .request ∧ atOnce = false ∧ ∃ completion, event = .returned .send completion := by
  cases event with
  | returned stage completion =>
    cases stage with
    | send => cases atOnce <;> simp [udpDnsActs, Act.resource]
    | receive => simp [udpDnsActs, Act.resource]
  | handled stage completion cost =>
    cases stage with
    | send => exact forall_unlessFails (by simp [Act.resource]) (by simp [Act.resource])
    | receive =>
      refine List.forall_mem_append.2 ⟨forall_unlessFails ?_ ?_, ?_⟩
      all_goals simp [Act.resource]
  | _ => simp [udpDnsActs, Act.resource]

/-- The request is not allocated in an event. -/
theorem count_alloc_request (log : List (Event UdpStage UdpStage.Value)) :
    (log.flatMap (udpDnsActs timeout atOnce)).count (.alloc .request) = 0 := by
  rw [List.count_eq_zero, List.mem_flatMap]
  rintro ⟨event, -, hmem⟩
  obtain ⟨heq, -⟩ := of_request _ hmem rfl
  cases heq

/-- A send that comes back when the function has returned uses the request, which is freed. -/
theorem not_safe_of_returned {completion : Completion UdpStage.send.Value} (h : .returned .send completion ∈ after) :
    ¬Safe (udpDnsRun timeout false early during after) := by
  obtain ⟨before, rest, rfl⟩ := List.append_of_mem h
  have hsplit : udpDnsRun timeout false early during (before ++ .returned .send completion :: rest) =
      (callActs udpDnsArmed (udpDnsStarted false) (udpDnsActs timeout false) early during ++
        .free .request :: before.flatMap (udpDnsActs timeout false) ++ [.use .socket]) ++
          .use .request :: rest.flatMap (udpDnsActs timeout false) := by
    simp [udpDnsRun, udpDnsActs]
  rw [hsplit]
  refine not_safe_of_freed ?_ (.inl rfl)
  have hbegun : udpDnsArmed.count (.alloc .request) = 1 ∧ (udpDnsStarted false).count (.alloc .request) = 0 := by decide
  simp only [callActs, List.count_append, List.count_cons, count_alloc_request, hbegun.1, hbegun.2]
  simp
  omega

/-- **The request** is freed when the function returns: what is done is the same without it. -/
theorem all_udpDnsRun (h : CallRun (udpDnsCall stray timeout id) early (during ++ after) s) (htimer : .timedOut ∉ early)
    (hsent : atOnce = true ∨ ∀ completion, .returned .send completion ∉ after) :
    all (udpDnsRun timeout atOnce early during after) ∅ =
      some (((udpDnsFootprint stray timeout id atOnce).liveIn s.toState).erase .request) := by
  obtain ⟨mid, hmid⟩ := h.part
  have hbefore := (udpDnsFootprint stray timeout id atOnce).all_of_callRun hmid htimer
  have hall := (udpDnsFootprint stray timeout id atOnce).all_of_callRun h htimer
  rw [Footprint.ofRun, callActs, List.flatMap_append, ← List.append_assoc] at hall
  refine all_freed hbefore (Finset.mem_insert_self _ _) (fun act hact hrequest => ?_) hall
  obtain ⟨event, hevent, hact⟩ := List.mem_flatMap.1 hact
  obtain ⟨-, hfalse, completion, rfl⟩ := of_request act hact hrequest
  rcases hsent with htrue | hnone
  · rw [htrue] at hfalse
    cases hfalse
  · exact hnone completion hevent

/-- At rest nothing is left. -/
theorem udp_freesAll (h : CallRun (udpDnsCall stray timeout id) early (during ++ after) s) (htimer : .timedOut ∉ early)
    (hsent : atOnce = true ∨ ∀ completion, .returned .send completion ∉ after)
    (hrest : QueueRest (udpDnsCall stray timeout id) s) : FreesAll (udpDnsRun timeout atOnce early during after) := by
  have hall := (udpDnsFootprint stray timeout id atOnce).all_of_callRun h htimer
  obtain ⟨result, hcomplete⟩ :=
    (udpDnsFootprint stray timeout id atOnce).all_of_complete udpDnsCall_ne_leave h htimer hrest
  rw [hall, Option.some.injEq] at hcomplete
  rw [freesAll_iff, all_udpDnsRun h htimer hsent, hcomplete]
  change some ((udpDnsLive false false none).erase .request) = some ∅
  decide

end Udp

/-- **`udp_dns`**: when its socket is released before the datagram is sent, what is freed is used. In every run in
which the handler of the timer has not run before that, and the function has returned, nothing is used or freed that is
not live, iff the datagram is sent at once or the send has not come back behind the return; and then a call at rest has
freed everything it allocated once. -/
theorem udp_lifetimes (stray : Bytes → Nat → List Nat) (timeout id : Nat) (atOnce : Bool)
    (early during after : List (Event UdpStage UdpStage.Value)) (s : Queued UdpStage UdpStage.Value (List Nat))
    (h : CallRun (udpDnsCall stray timeout id) early (during ++ after) s) :
    (.released ∈ early → ¬Safe (udpDnsRun timeout atOnce early during after)) ∧
    (.timedOut ∉ early → (Safe (udpDnsRun timeout atOnce early during after) ↔
        atOnce = true ∨ ∀ completion, .returned .send completion ∉ after) ∧
      (QueueRest (udpDnsCall stray timeout id) s → Safe (udpDnsRun timeout atOnce early during after) →
        FreesAll (udpDnsRun timeout atOnce early during after))) := by
  refine ⟨fun hreleased => ?_, fun htimer => ?_⟩
  · rw [udpDnsRun, callActs, List.append_assoc, List.append_assoc, udpDnsStarted, List.cons_append]
    exact not_safe_of_released h hreleased (by decide) (by simp [udpDnsActs]) udp_ofTimer
  · have hiff : Safe (udpDnsRun timeout atOnce early during after) ↔
        atOnce = true ∨ ∀ completion, .returned .send completion ∉ after := by
      constructor
      · intro hsafe
        cases atOnce with
        | true => exact .inl rfl
        | false => exact .inr fun completion hmem => not_safe_of_returned hmem hsafe
      · intro hsent
        rw [Safe, all_udpDnsRun h htimer hsent]
        rfl
    exact ⟨hiff, fun hrest hsafe => udp_freesAll h htimer (hiff.1 hsafe) hrest⟩

/-- The send comes back when the request is gone. -/
theorem run_sent : ∃ s, CallRun (udpDnsCall (fun _ _ => []) 100 7) [.expired] ([] ++ [.returned .send .error]) s := by
  have hstart : EarlyRun (udpDnsCall (fun _ _ => []) 100 7) [] { operation := .none } := .start
  exact ⟨_, (CallRun.start (hstart.next (.expired rfl))).next (.returned .error rfl)⟩

theorem udp_lifetimes_at : ¬Safe (udpDnsRun 100 false [.expired] [] [.returned .send .error]) := by
  obtain ⟨s, hrun⟩ := run_sent
  intro hsafe
  rcases ((udp_lifetimes (fun _ _ => []) 100 7 false _ _ _ s hrun).2 (by simp)).1.1 hsafe with hatOnce | hnone
  · cases hatOnce
  · exact hnone .error (List.mem_singleton_self _)

/-! ## Forwarding -/

/-- An empty datagram comes in time. -/
def EmptyInTime (timeout : Nat) (log : List (Event UdpStage UdpStage.Value)) : Prop :=
  ∃ (datagram : Datagram) (cost : Nat), .handled .receive (.done datagram) cost ∈ log ∧ datagram.size = 0 ∧
    cost ≤ timeout

section Forward

variable {timeout : Nat} {log : List (Event UdpStage UdpStage.Value)}
  {s : Queued UdpStage UdpStage.Value (Option Datagram)}

/-- Only its handler leaves the call. -/
theorem leaves_iff_emptyInTime :
    (∃ event ∈ log, Leaves (forwardUdpCall timeout) event = true) ↔ EmptyInTime timeout log := by
  constructor
  · rintro ⟨event, hmem, hleaves⟩
    cases event with
    | handled stage completion cost =>
      rw [leaves_handled_iff] at hleaves
      cases stage with
      | send => exact absurd hleaves (unless_ne_leave (by simp))
      | receive =>
        cases completion with
        | error => cases hleaves
        | done datagram =>
          simp only [forwardUdpCall, unlessTimeoutOrError] at hleaves
          split at hleaves
          · rename_i hlate
            split at hleaves
            · cases hleaves
            · rename_i hsize
              exact ⟨datagram, cost, hmem, Nat.eq_zero_of_not_pos hsize, hlate⟩
          · cases hleaves
    | _ => cases hleaves
  · rintro ⟨datagram, cost, hmem, hsize, hlate⟩
    refine ⟨_, hmem, leaves_handled_iff.2 ?_⟩
    simp only [forwardUdpCall, unlessTimeoutOrError, if_pos hlate]
    exact if_neg (by rw [hsize]; exact Nat.lt_irrefl 0)

theorem head?_of_rest {early : List (Event UdpStage UdpStage.Value)} (h : CallRun (forwardUdpCall timeout) early log s)
    (htimer : .timedOut ∉ early) (hrest : QueueRest (forwardUdpCall timeout) s) :
    s.results.head? = none ↔ EmptyInTime timeout log := by
  have hrun := queueRun_of_callRun h htimer
  obtain ⟨hop, -⟩ := released_of_rest (ordered_of_queueRun hrun) hrest
  obtain ⟨-, hcount, -⟩ := count_of_run (run_of_queueRun hrun)
  have hempty : EmptyInTime timeout (early ++ log) ↔ EmptyInTime timeout log := by
    have hmem : ∀ (datagram : Datagram) cost, Event.handled UdpStage.receive (.done datagram) cost ∈ early ++ log ↔
        .handled .receive (.done datagram) cost ∈ log := fun datagram cost => h.mem_iff htimer (by simp)
    exact exists_congr fun datagram => exists_congr fun cost => and_congr_left fun _ => hmem datagram cost
  rw [hop, count_none] at hcount
  rw [← hempty, ← leaves_iff_emptyInTime, ← List.countP_pos_iff, List.head?_eq_none_iff, ← List.length_eq_zero_iff]
  omega

end Forward

/-- **`forward_udp`**: when its socket is released before the request is sent, what is freed is used. In every run in
which the handler of the timer has not run before that nothing is used or freed that is not live, and a call at rest has
freed everything it allocated but the response that it has handed on, unless it has received an empty datagram in time:
then its timer is left. -/
theorem forward_lifetimes (timeout : Nat) (early log : List (Event UdpStage UdpStage.Value))
    (s : Queued UdpStage UdpStage.Value (Option Datagram)) (h : CallRun (forwardUdpCall timeout) early log s) :
    (.released ∈ early → ¬Safe (callActs forwardUdpArmed forwardUdpStarted (forwardUdpActs timeout) early log)) ∧
    (.timedOut ∉ early → Safe (callActs forwardUdpArmed forwardUdpStarted (forwardUdpActs timeout) early log) ∧
      (QueueRest (forwardUdpCall timeout) s →
        (¬EmptyInTime timeout log →
          all (callActs forwardUdpArmed forwardUdpStarted (forwardUdpActs timeout) early log) ∅ =
            some (handedOn s.results.head?)) ∧
        (EmptyInTime timeout log →
          all (callActs forwardUdpArmed forwardUdpStarted (forwardUdpActs timeout) early log) ∅ = some {.timer}))) := by
  refine ⟨fun hreleased => ?_, fun htimer => ⟨(forwardUdpFootprint timeout).safe_of_callRun h htimer, fun hrest => ?_⟩⟩
  · rw [callActs, List.append_assoc]
    exact not_safe_of_released h hreleased (by decide) (by simp [forwardUdpActs]) forward_ofTimer
  · have hall := (forwardUdpFootprint timeout).all_of_rest h htimer hrest
    have hiff := head?_of_rest h htimer hrest
    constructor
    · intro hnone
      cases hresults : s.results.head? with
      | none => exact absurd (hiff.1 hresults) hnone
      | some result =>
        rw [hresults] at hall
        rcases result with _ | datagram <;> exact hall
    · intro hempty
      rw [hiff.2 hempty] at hall
      exact hall

/-- An empty datagram comes, and the timer expires. -/
theorem run_empty : ∃ s, CallRun (forwardUdpCall 100) []
    [.returned .send (.done (12 : Nat)), .handled .send (.done (12 : Nat)) 1,
      .returned .receive (.done ⟨[], 0, by decide⟩), .handled .receive (.done ⟨[], 0, by decide⟩) 2, .expired,
      .timedOut, .released] s ∧
    QueueRest (forwardUdpCall 100) s := by
  have hstart : CallRun (forwardUdpCall 100) [] [] { operation := .started .send } := .start .start
  have hsent := (hstart.next (.returned (.done (12 : Nat)) rfl)).next (.handled 1 rfl rfl)
  have hreceived := (hsent.next (.returned (.done ⟨[], 0, by decide⟩) rfl)).next (.handled 2 rfl rfl)
  have hexpired := hreceived.next (.expired rfl)
  have htimedOut := hexpired.next (.closing rfl rfl rfl (show Operation.Closes _ [.release] from rfl))
  refine ⟨_, htimedOut.next (.released rfl rfl), fun event s' hstep => ?_⟩
  cases hstep <;> contradiction

theorem forward_lifetimes_at : ∃ log : List (Event UdpStage UdpStage.Value),
    all (callActs forwardUdpArmed forwardUdpStarted (forwardUdpActs 100) [] log) ∅ = some {.timer} := by
  obtain ⟨s, hrun, hrest⟩ := run_empty
  exact ⟨_, (((forward_lifetimes 100 _ _ s hrun).2 (by simp)).2 hrest).2
    ⟨⟨[], 0, by decide⟩, 2, by simp, rfl, by decide⟩⟩

end StDns.Client
