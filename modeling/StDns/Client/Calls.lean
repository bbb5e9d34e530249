import StDns.Client.Fetch
import StDns.Lib.Async

/-!
# The calls of the client

`udp_dns`, `tcp_dns`, `tcp_tls_dns` for one area and `forward_udp` as chains of asynchronous operations under a timer,
each with the handlers of its source. Over UDP and TCP the handler of the timer closes the socket, so every operation
comes back and the call is completed once (`completes_once`). Over TLS it waits for the peer to answer the shutdown
before it closes the socket: a peer that falls silent after the handshake leaves the call open for ever
(`tls_completes_iff`).
-/

namespace StDns.Client

open Lib Lib.Async Protocol

/-! ## Operations -/

/-- A buffer whose first `n` bytes have been read. -/
structure Filled (n : Nat) where
  buffer : Bytes
  full : n ≤ buffer.length

inductive UdpStage where
  | send
  | receive
  deriving DecidableEq

/-- What an operation gives: the size that was sent, the datagram that was received. -/
def UdpStage.Value : UdpStage → Type
  | send => Nat
  | receive => Datagram

inductive TcpStage where
  | connect
  | write
  | readLength
  | readBody (dataLen : Nat)
  deriving DecidableEq

def TcpStage.Value : TcpStage → Type
  | connect => Unit
  | write => Nat
  | readLength => Filled 2
  | readBody dataLen => Filled dataLen

inductive TlsStage where
  | connect
  | handshake
  | write
  | readLength
  | readBody (dataLen : Nat)
  deriving DecidableEq

def TlsStage.Value : TlsStage → Type
  | connect | handshake => Unit
  | write => Nat
  | readLength => Filled 2
  | readBody dataLen => Filled dataLen

/-! ## Handlers -/

section Handlers

variable {Stage α ρ : Type}

/-- `is_timeout_or_error`: the call is completed with a default, or the handler goes on. -/
def unlessTimeoutOrError (timeout : Nat) (default : ρ) (completion : Completion α) (cost : Nat)
    (handler : α → Next Stage ρ) : Next Stage ρ :=
  match completion with
  | .error => .complete default
  | .done value => if cost ≤ timeout then handler value else .complete default

/-- The length that the first two bytes of the buffer announce. -/
def Filled.dataLen (lengthBytes : Filled 2) : Nat := (read lengthBytes.buffer 0 2).getD 0

end Handlers

section Calls

variable (stray : Bytes → Nat → List Nat) (timeout id : Nat)

/-- The operations of `udp_dns`. Where a read of the parser leaves the buffer, some `stray` addresses are handed on. -/
def udpDnsCall : Chain UdpStage UdpStage.Value (List Nat) where
  first := .send
  handler
    | .send, completion, cost => unlessTimeoutOrError timeout [] completion cost fun _ => .start .receive
    | .receive, completion, cost => unlessTimeoutOrError timeout [] completion cost fun datagram =>
      .complete ((UdpArrival.ips id (.received datagram)).getD (stray datagram.buffer datagram.size))
  graceful := false

/-- The operations of `tcp_dns` for one area. -/
def tcpDnsCall : Chain TcpStage TcpStage.Value (List Nat) where
  first := .connect
  handler
    | .connect, completion, cost => unlessTimeoutOrError timeout [] completion cost fun _ => .start .write
    | .write, completion, cost => unlessTimeoutOrError timeout [] completion cost fun _ => .start .readLength
    | .readLength, completion, cost => unlessTimeoutOrError timeout [] completion cost fun lengthBytes =>
      if 1024 < lengthBytes.dataLen then .complete [] else .start (.readBody lengthBytes.dataLen)
    | .readBody dataLen, completion, cost => unlessTimeoutOrError timeout [] completion cost fun dataBytes =>
      .complete ((DnsClient.parse dataBytes.buffer dataLen id).getD (stray dataBytes.buffer dataLen))
  graceful := false

/-- The operations of `tcp_tls_dns` for one area; the handler of its timer starts with `async_shutdown`. -/
def tcpTlsDnsCall : Chain TlsStage TlsStage.Value (List Nat) where
  first := .connect
  handler
    | .connect, completion, cost => unlessTimeoutOrError timeout [] completion cost fun _ => .start .handshake
    | .handshake, completion, cost => unlessTimeoutOrError timeout [] completion cost fun _ => .start .write
    | .write, completion, cost => unlessTimeoutOrError timeout [] completion cost fun _ => .start .readLength
    | .readLength, completion, cost => unlessTimeoutOrError timeout [] completion cost fun lengthBytes =>
      if 1024 < lengthBytes.dataLen then .complete [] else .start (.readBody lengthBytes.dataLen)
    | .readBody dataLen, completion, cost => unlessTimeoutOrError timeout [] completion cost fun dataBytes =>
      .complete ((DnsClient.parse dataBytes.buffer dataLen id).getD (stray dataBytes.buffer dataLen))
  graceful := true

/-- The operations of `forward_udp`: its callback gets the datagram, or a null pointer. -/
def forwardUdpCall : Chain UdpStage UdpStage.Value (Option Datagram) where
  first := .send
  handler
    | .send, completion, cost => unlessTimeoutOrError timeout none completion cost fun _ => .start .receive
    | .receive, completion, cost => unlessTimeoutOrError timeout none completion cost fun datagram =>
      if 0 < datagram.size then .complete (some datagram) else .leave
  graceful := false

end Calls

/-! ## Completing once -/

section Once

variable {stray : Bytes → Nat → List Nat} {timeout id : Nat}

theorem unless_ne_leave {Stage α ρ : Type} {default : ρ} {completion : Completion α} {cost : Nat}
    {handler : α → Next Stage ρ} (h : ∀ value, handler value ≠ .leave) :
    unlessTimeoutOrError timeout default completion cost handler ≠ .leave := by
  cases completion with
  | error => exact nofun
  | done value =>
    simp only [unlessTimeoutOrError]
    split
    · exact h value
    · exact nofun

theorem udpDnsCall_ne_leave (stage : UdpStage) (completion : Completion stage.Value) (cost : Nat) :
    (udpDnsCall stray timeout id).handler stage completion cost ≠ .leave := by
  cases stage with
  | send => exact unless_ne_leave nofun
  | receive => exact unless_ne_leave nofun

theorem tcpDnsCall_ne_leave (stage : TcpStage) (completion : Completion stage.Value) (cost : Nat) :
    (tcpDnsCall stray timeout id).handler stage completion cost ≠ .leave := by
  cases stage with
  | connect => exact unless_ne_leave nofun
  | write => exact unless_ne_leave nofun
  | readLength =>
    refine unless_ne_leave fun lengthBytes => ?_
    split <;> exact nofun
  | readBody dataLen => exact unless_ne_leave nofun

theorem tcpTlsDnsCall_ne_leave (stage : TlsStage) (completion : Completion stage.Value) (cost : Nat) :
    (tcpTlsDnsCall stray timeout id).handler stage completion cost ≠ .leave := by
  cases stage with
  | connect => exact unless_ne_leave nofun
  | handshake => exact unless_ne_leave nofun
  | write => exact unless_ne_leave nofun
  | readLength =>
    refine unless_ne_leave fun lengthBytes => ?_
    split <;> exact nofun
  | readBody dataLen => exact unless_ne_leave nofun

end Once

/-- **UDP and TCP**: in every run of `udp_dns` and of `tcp_dns` for one area the handler is called at most once, and
once when nothing is left to run; and the timer is deleted with it. -/
theorem completes_once (stray : Bytes → Nat → List Nat) (timeout id : Nat) :
    (∀ log s, Run (udpDnsCall stray timeout id) log s → Once (udpDnsCall stray timeout id) s) ∧
      ∀ log s, Run (tcpDnsCall stray timeout id) log s → Once (tcpDnsCall stray timeout id) s :=
  ⟨fun _ _ h => once_of_run udpDnsCall_ne_leave h, fun _ _ h => once_of_run tcpDnsCall_ne_leave h⟩

/-- A run of `udp_dns` that ends: the request is sent, the receive fails, and then the timer's handler and the release
of the socket run. -/
theorem completes_once_at : ∃ log s, Run (udpDnsCall (fun _ _ => []) 100 7) log s ∧ s.results = [[]] ∧
    Once (udpDnsCall (fun _ _ => []) 100 7) s := by
  have begun : Run (udpDnsCall (fun _ _ => []) 100 7) [] { operation := .started .send } := .start
  have sent := (begun.next (.returned _ (.done (19 : Nat)) rfl)).next (.handled _ 1 rfl)
  have failed := (sent.next (.returned _ .error rfl)).next (.handled _ 3 rfl)
  have h := (failed.next (.timedOut _ rfl)).next (.released _ rfl)
  exact ⟨_, _, h, rfl, (completes_once _ _ _).1 _ _ h⟩

/-! ## Over TLS -/

/-- How an operation comes back that ends the call: with an error or too late, with a length above 1024, or it is the
last. -/
def EndsCall (timeout : Nat) : (stage : TlsStage) → Completion stage.Value → Nat → Prop
  | _, .error, _ => True
  | stage, .done value, cost => timeout < cost ∨
    match stage, value with
    | .readLength, lengthBytes => 1024 < lengthBytes.dataLen
    | .readBody _, _ => True
    | _, _ => False

section Tls

variable {stray : Bytes → Nat → List Nat} {timeout id : Nat}

theorem completes_iff {stage : TlsStage} {completion : Completion stage.Value} {cost : Nat} :
    Completes (tcpTlsDnsCall stray timeout id) (.handled stage completion cost) = true ↔
      EndsCall timeout stage completion cost := by
  cases completion with
  | error => cases stage <;> exact iff_of_true rfl trivial
  | done value =>
    by_cases hlate : cost ≤ timeout
    · cases stage with
      | readLength =>
        by_cases hlen : 1024 < Filled.dataLen value
        · simp [Completes, tcpTlsDnsCall, unlessTimeoutOrError, EndsCall, hlate, hlen]
        · simp [Completes, tcpTlsDnsCall, unlessTimeoutOrError, EndsCall, hlate, hlen]
      | _ => simp [Completes, tcpTlsDnsCall, unlessTimeoutOrError, EndsCall, hlate]
    · have hlt := Nat.lt_of_not_le hlate
      cases stage <;> simp [Completes, tcpTlsDnsCall, unlessTimeoutOrError, EndsCall, hlate, hlt]

/-- **TLS**: in every run of `tcp_tls_dns` for one area, when its timer has fired and nothing can run without the peer,
the handler has been called once iff the shutdown came back, or one of the operations that came back ended the
call. -/
theorem tls_completes_iff {log : List (Event TlsStage TlsStage.Value)}
    {s : State TlsStage TlsStage.Value (List Nat)} (h : Run (tcpTlsDnsCall stray timeout id) log s)
    (hquiet : Quiet (tcpTlsDnsCall stray timeout id) s) :
    s.results.length ≤ 1 ∧ (s.results.length = 1 ↔ Event.shutDown ∈ log ∨ ∃ stage completion cost,
      Event.returned stage completion ∈ log ∧ Event.handled stage completion cost ∈ log ∧
        EndsCall timeout stage completion cost) := by
  refine ⟨(once_of_run tcpTlsDnsCall_ne_leave h).most, ?_⟩
  rw [complete_iff_of_quiet rfl h (fun event _ => leaves_eq_false tcpTlsDnsCall_ne_leave event) hquiet]
  simp only [completes_iff]

end Tls

/-- The request is written, and then nothing comes from the peer. -/
theorem run_silent : ∃ log, Run (tcpTlsDnsCall (fun _ _ => []) 100 7) log
    { operation := .started .readLength, timer := .over, connection := .shutting } := by
  have begun : Run (tcpTlsDnsCall (fun _ _ => []) 100 7) [] { operation := .started .connect } := .start
  have connected := (begun.next (.returned _ (.done ()) rfl)).next (.handled _ 10 rfl)
  have secured := (connected.next (.returned _ (.done ()) rfl)).next (.handled _ 30 rfl)
  have written := (secured.next (.returned _ (.done (21 : Nat)) rfl)).next (.handled _ 31 rfl)
  exact ⟨_, (written.next (.expired _ rfl)).next (.timedOut _ rfl)⟩

/-- Nothing is left to run in it without the peer. -/
theorem quiet_silent : Quiet (tcpTlsDnsCall (fun _ _ => []) 100 7)
    { operation := .started .readLength, timer := .over, connection := .shutting } := by
  intro event s' hstep
  cases hstep with
  | returned completion h => trivial
  | shutDown h => trivial
  | handled cost h => cases h
  | expired h => cases h
  | timedOut h => cases h
  | closed h => cases h
  | released h => cases h

theorem tls_completes_iff_at : ∃ log : List (Event TlsStage TlsStage.Value),
    ([] : List (List Nat)).length ≤ 1 ∧ (([] : List (List Nat)).length = 1 ↔
      Event.shutDown ∈ log ∨ ∃ stage completion cost, Event.returned stage completion ∈ log ∧
        Event.handled stage completion cost ∈ log ∧ EndsCall 100 stage completion cost) := by
  obtain ⟨log, h⟩ := run_silent
  exact ⟨log, tls_completes_iff h quiet_silent⟩

/-- A silent peer: the socket is never closed, and the handler is never called. -/
theorem tls_not_completes : ¬∀ (stray : Bytes → Nat → List Nat) (timeout id : Nat)
    (log : List (Event TlsStage TlsStage.Value)) (s : State TlsStage TlsStage.Value (List Nat)),
    Run (tcpTlsDnsCall stray timeout id) log s → Quiet (tcpTlsDnsCall stray timeout id) s → s.results.length = 1 := by
  intro h
  obtain ⟨log, hrun⟩ := run_silent
  exact absurd (h _ _ _ log _ hrun quiet_silent) (by decide)

end StDns.Client
