import StDns.Client.Calls
import StDns.Server.Flags
import StDns.Server.LocalNames

/-!
# Forwarded requests

A request that is neither for addresses nor for IPv6 addresses is forwarded to the first server over UDP. The callback
of `forward_udp` gets the datagram of that server, or a null pointer; the response is sent to the client, and the
session ends in the handler of that. The callback is called at most once, but not at all when an empty datagram comes
in time, so that such a session never ends, nor when `make_address_v4` does not take the address of the server and
throws (`replied_iff`).
-/

namespace StDns.Server

open Lib Protocol Client Async

/-! ## The source -/

/-- What `end_session` and the callback see of a request that is forwarded. -/
def forwardSession (m : Bytes) (r : UdpRequest) : Session :=
  { Session.fresh m with request := r, record := { domain := r.getHost }, processType := .forward }

@[simp] theorem buffer_forwardSession (m : Bytes) (r : UdpRequest) : (forwardSession m r).buffer = m := rfl

@[simp] theorem request_forwardSession (m : Bytes) (r : UdpRequest) : (forwardSession m r).request = r := rfl

/-- The callback that `forward_dns_request` hands to `forward_udp`: the session and the bytes that are sent. -/
def callback (config : Config) (s : Session) (datagram : Option Datagram) : Except Fault (Session × Bytes) :=
  complete config { s with
    response := datagram.map fun d => { buffer := d.buffer, response := { data := 0, len := d.size } } }

/-- A timeout is converted to `uint64_t`. -/
def RemoteDnsServer.forwardTimeout (server : RemoteDnsServer) : Nat := (server.timeout % 2 ^ 64).toNat

/-- The call of `forward_udp`, the sends to the client whose handler has not been called, all that was sent, the
sessions that were ended, and whether an exception has ended the process. -/
structure ForwardState where
  call : Async.State UdpStage UdpStage.Value (Option Datagram) := { operation := .started .send }
  sending : List Session := []
  sent : List Bytes := []
  endings : List Ending := []
  threw : Bool := false

/-- The call that throws before its send is started. -/
def ForwardState.thrown : ForwardState := { call := { operation := .none }, threw := true }

/-- The callback is called. Nothing follows when the response is not built. -/
def ForwardState.called (config : Config) (session : Session) (s : ForwardState) (datagram : Option Datagram) :
    ForwardState :=
  match callback config session datagram with
  | .ok (se, bytes) => { s with sending := s.sending ++ [se], sent := s.sent ++ [bytes] }
  | .error _ => s

section Runs

variable (makeAddressV4 : Bytes → Option UInt32) (config : Config) (server : RemoteDnsServer) (session : Session)

/-- The runs of `forward_udp`, with the callback where it completes, and of the handlers of the sends. Without an
address to send to there is nothing but an exception. -/
inductive ForwardRun : List (Event UdpStage UdpStage.Value) → ForwardState → Prop
  | start : (makeAddressV4 server.ip).isSome = true → ForwardRun [] {}
  | threw : makeAddressV4 server.ip = none → ForwardRun [] .thrown
  | call {log : List (Event UdpStage UdpStage.Value)} {s : ForwardState} {event : Event UdpStage UdpStage.Value}
    {call : Async.State UdpStage UdpStage.Value (Option Datagram)} :
    ForwardRun log s → s.threw = false → Async.Step (forwardUdpCall server.forwardTimeout) s.call event call →
    ForwardRun (log ++ [event])
      ((event.result (forwardUdpCall server.forwardTimeout)).toList.foldl (ForwardState.called config session)
        { s with call := call })
  | sent {log : List (Event UdpStage UdpStage.Value)} {s : ForwardState} {before after : List Session} {se : Session}
    {ending : Ending} : ForwardRun log s → s.sending = before ++ se :: after → endSession se = .ok ending →
    ForwardRun log { s with sending := before ++ after, endings := s.endings ++ [ending] }

/-- No handler is left to run, or no process to run it. -/
def ForwardState.AtRest (s : ForwardState) : Prop :=
  s.threw = true ∨ (Async.AtRest (forwardUdpCall server.forwardTimeout) s.call ∧
    ∀ se ∈ s.sending, ∀ ending, endSession se ≠ .ok ending)

end Runs

/-! ## The callback -/

/-- The questions of the request, as its parser measured them, fit in the buffer of a response behind the header. -/
def QuestionsFit (r : UdpRequest) : Prop :=
  ∃ zone, r.queryZone = some zone ∧ DnsHeader.defaultLen + zone.len ≤ 1024

section Callback

variable {config : Config} {server : RemoteDnsServer} {m : Bytes} {n : Nat} {r : UdpRequest}

/-- A datagram of the server is relayed. -/
theorem callback_some (config : Config) (session : Session) (d : Datagram) :
    ∃ se, callback config session (some d) = .ok (se, d.buffer.take d.size) ∧ se.request = session.request := by
  let response : BuiltResponse := { buffer := d.buffer, response := { data := 0, len := d.size } }
  have hgiven : complete config { session with response := some response } = .ok (_, response.bytes) :=
    complete_given rfl
  exact ⟨{ session with response := some response }, hgiven, rfl⟩

theorem ok_iff_map_ok {e : Except Fault (Session × Bytes)} :
    (∃ se bytes, e = .ok (se, bytes)) ↔ ∃ se bytes, some <$> e = .ok (some (se, bytes)) := by
  cases e with
  | error fault => simp only [Except.map_error, reduceCtorEq, exists_false]
  | ok p => simp only [Except.map_ok, Except.ok.injEq, Option.some.injEq]

/-- Without a datagram a response is built, if the questions fit. -/
theorem callback_none_iff (h : UdpRequest.parse m n = some r) (hv : r.valid = true) (hm : m.length = 1024) :
    (∃ se bytes, callback config (forwardSession m r) none = .ok (se, bytes)) ↔ QuestionsFit r := by
  obtain ⟨header, zone, query, hh, hz, hdata, -, -⟩ := accepted_parts h hv
  have hbuilds : Builds config m r (some <$> callback config (forwardSession m r) none) :=
    complete_builds rfl rfl rfl
  have hfit : QuestionsFit r ↔ DnsHeader.defaultLen + zone.len ≤ 1024 := by
    constructor
    · rintro ⟨zone', hz', hle⟩
      cases hz.symm.trans hz'
      exact hle
    · exact fun hle => ⟨zone, hz, hle⟩
  rw [hfit, ← builds_ok_iff hbuilds hh hz hdata hm]
  exact ok_iff_map_ok

/-- The callback keeps the request of its session. -/
theorem callback_request {session se : Session} {datagram : Option Datagram} {bytes : Bytes}
    (h : callback config session datagram = .ok (se, bytes)) : se.request = session.request := by
  cases datagram with
  | some d =>
    obtain ⟨se', hse, hrequest⟩ := callback_some config session d
    rw [hse] at h
    cases h
    exact hrequest
  | none =>
    have hbuilds : Builds config session.buffer session.request (some <$> callback config session none) :=
      complete_builds rfl rfl rfl
    exact hbuilds.request (by rw [h]; rfl)

/-- What the callback gets. -/
def Forwarded.Gives : Forwarded → Option Datagram → Prop
  | failed, datagram => datagram = none
  | received buffer size, datagram => 0 < size ∧ ∃ d, datagram = some d ∧ d.buffer = buffer ∧ d.size = size

/-- The processing of an accepted request of another type. -/
theorem processSession_forwards {world : World} (h : UdpRequest.parse m n = some r) (hv : r.valid = true)
    (hforwards : Forwards r) : processSession config world { Session.fresh m with request := r } =
      forwardDnsRequest config world (forwardSession m r) := by
  obtain ⟨header, zone, query, -, hz, -, hq, -⟩ := accepted_parts h hv
  obtain ⟨queryType, htype, ha, haaaa⟩ := hforwards
  rw [getQueryType_eq hz hq, Except.ok.injEq] at htype
  subst htype
  rw [processSession_eq (s := { Session.fresh m with request := r }) hz hq, if_neg ha, if_neg haaaa]
  rfl

/-- **Forwarding**: the processing of an accepted request of another type comes to what the callback makes of what it
gets. -/
theorem processSession_forwarded {world : World} {address : UInt32} {datagram : Option Datagram}
    (h : UdpRequest.parse m n = some r) (hv : r.valid = true) (hforwards : Forwards r)
    (hserver : forwardServer config = some server) (haddress : world.makeAddressV4 server.ip = some address)
    (hgets : (world.forwarded address server.port (m.take n)).Gives datagram) :
    processSession config world { Session.fresh m with request := r } =
      some <$> callback config (forwardSession m r) datagram := by
  rw [processSession_forwards h hv hforwards, forwardDnsRequest, hserver]
  rw [← len_of_parse h] at hgets
  simp only [forwardUdp, haddress, unlessThrown, bind, Except.bind, pure, Except.pure, buffer_forwardSession,
    request_forwardSession]
  unfold Forwarded.Gives at hgets
  cases hforwarded : world.forwarded address server.port (m.take r.len) with
  | failed =>
    rw [hforwarded] at hgets
    subst hgets
    rfl
  | received buffer size =>
    rw [hforwarded] at hgets
    obtain ⟨hsize, d, rfl, rfl, rfl⟩ := hgets
    simp only [if_pos hsize]
    rfl

/-- Without an address it throws. -/
theorem processSession_thrown {world : World} (h : UdpRequest.parse m n = some r) (hv : r.valid = true)
    (hforwards : Forwards r) (hserver : forwardServer config = some server)
    (haddress : world.makeAddressV4 server.ip = none) :
    processSession config world { Session.fresh m with request := r } = .error .exception := by
  rw [processSession_forwards h hv hforwards, forwardDnsRequest, hserver]
  simp only [forwardUdp, haddress]
  rfl

end Callback

/-! ## Runs -/

/-- The handler gets an empty datagram, and in time. -/
def EmptyInTime (timeout : Nat) : Event UdpStage UdpStage.Value → Prop
  | .handled .receive (.done datagram) cost => cost ≤ timeout ∧ datagram.size = 0
  | _ => False

/-- The handler gets an error, or is called too late. -/
def FailedOrLate (timeout : Nat) : Event UdpStage UdpStage.Value → Prop
  | .handled _ .error _ => True
  | .handled _ (.done _) cost => timeout < cost
  | _ => False

section Events

variable {timeout : Nat} {event : Event UdpStage UdpStage.Value}

/-- The handler of the receive leaves the call when it gets an empty datagram in time. -/
theorem leaves_iff : Leaves (forwardUdpCall timeout) event = true ↔ EmptyInTime timeout event := by
  cases event with
  | handled stage completion cost =>
    rw [leaves_handled_iff]
    cases completion with
    | error => cases stage <;> exact iff_of_false nofun id
    | done value =>
      cases stage with
      | send =>
        refine iff_of_false (fun hleave => ?_) id
        change (if cost ≤ timeout then Next.start UdpStage.receive else Next.complete none) = Next.leave at hleave
        split at hleave <;> cases hleave
      | receive =>
        change (if cost ≤ timeout then if 0 < Datagram.size value then Next.complete (some value) else Next.leave
          else Next.complete none) = Next.leave ↔ cost ≤ timeout ∧ Datagram.size value = 0
        split
        · rename_i htime
          split
          · rename_i hsize
            exact iff_of_false nofun fun h => absurd h.2 (Nat.ne_of_gt hsize)
          · rename_i hsize
            exact iff_of_true rfl ⟨htime, Nat.eq_zero_of_not_pos hsize⟩
        · rename_i hlate
          exact iff_of_false nofun fun h => hlate h.1
  | _ => exact iff_of_false nofun id

/-- The callback gets a null pointer from a handler that fails or is late. -/
theorem result_none_iff : event.result (forwardUdpCall timeout) = some none ↔ FailedOrLate timeout event := by
  cases event with
  | handled stage completion cost =>
    rw [result_handled_iff]
    cases completion with
    | error => cases stage <;> exact iff_of_true rfl trivial
    | done value =>
      have hlate : FailedOrLate timeout (.handled stage (.done value) cost) ↔ ¬cost ≤ timeout := Nat.not_le.symm
      rw [hlate]
      cases stage with
      | send =>
        change (if cost ≤ timeout then Next.start UdpStage.receive else Next.complete none) = Next.complete none ↔ _
        split
        · rename_i htime
          exact iff_of_false nofun (not_not.2 htime)
        · rename_i htime
          exact iff_of_true rfl htime
      | receive =>
        change (if cost ≤ timeout then if 0 < Datagram.size value then Next.complete (some value) else Next.leave
          else Next.complete none) = Next.complete none ↔ _
        split
        · rename_i htime
          refine iff_of_false (fun hnext => ?_) (not_not.2 htime)
          split at hnext <;> cases hnext
        · rename_i htime
          exact iff_of_true rfl htime
  | _ => exact iff_of_false nofun id

end Events

/-- The bytes that the callback sends for a datagram, or none if the response is not built. -/
def replyBytes (config : Config) (session : Session) (datagram : Option Datagram) : Option Bytes :=
  match callback config session datagram with
  | .ok (_, bytes) => some bytes
  | .error _ => none

section Runs

variable {makeAddressV4 : Bytes → Option UInt32} {config : Config} {server : RemoteDnsServer} {session : Session}
  {log : List (Event UdpStage UdpStage.Value)} {s : ForwardState}

/-- What a run keeps: the call is in a run of its own, all that was sent is what the callback made of its results, and
every send is still out or has ended its session. -/
structure ForwardKept (config : Config) (server : RemoteDnsServer) (session : Session)
    (log : List (Event UdpStage UdpStage.Value)) (s : ForwardState) : Prop where
  call : Async.Run (forwardUdpCall server.forwardTimeout) log s.call
  sent : s.sent = s.call.results.filterMap (replyBytes config session)
  sending : s.sending.length + s.endings.length = s.sent.length
  request : ∀ se ∈ s.sending, se.request = session.request

theorem ForwardKept.next (h : ForwardKept config server session log s) {event : Event UdpStage UdpStage.Value}
    {call : Async.State UdpStage UdpStage.Value (Option Datagram)}
    (hstep : Async.Step (forwardUdpCall server.forwardTimeout) s.call event call) :
    ForwardKept config server session (log ++ [event])
      ((event.result (forwardUdpCall server.forwardTimeout)).toList.foldl (ForwardState.called config session)
        { s with call := call }) := by
  have hrun := h.call.next hstep
  have hresults := results_step hstep
  cases hresult : event.result (forwardUdpCall server.forwardTimeout) with
  | none =>
    rw [hresult, Option.toList_none, List.append_nil] at hresults
    refine ⟨hrun, ?_, h.sending, h.request⟩
    show s.sent = call.results.filterMap _
    rw [hresults]
    exact h.sent
  | some datagram =>
    rw [hresult, Option.toList_some] at hresults
    rw [Option.toList_some, List.foldl_cons, List.foldl_nil, ForwardState.called]
    cases hcallback : callback config session datagram with
    | error fault =>
      have hreply : replyBytes config session datagram = none := by rw [replyBytes, hcallback]
      refine ⟨hrun, ?_, h.sending, h.request⟩
      show s.sent = call.results.filterMap _
      rw [hresults, List.filterMap_append, List.filterMap_cons_none hreply, List.filterMap_nil, List.append_nil]
      exact h.sent
    | ok p =>
      have hreply : replyBytes config session datagram = some p.2 := by rw [replyBytes, hcallback]
      refine ⟨hrun, ?_, ?_, fun se hse => ?_⟩
      · show s.sent ++ [p.2] = call.results.filterMap _
        rw [hresults, List.filterMap_append, List.filterMap_cons_some hreply, List.filterMap_nil, h.sent]
      · show (s.sending ++ [p.1]).length + s.endings.length = (s.sent ++ [p.2]).length
        have hcount := h.sending
        rw [List.length_append, List.length_append, List.length_singleton, List.length_singleton]
        omega
      · rcases List.mem_append.1 hse with hse | hse
        · exact h.request se hse
        · obtain rfl := List.mem_singleton.1 hse
          exact callback_request hcallback

/-- **A run** keeps this, or nothing has come before an exception. -/
theorem forwardKept_of_run (h : ForwardRun makeAddressV4 config server session log s) :
    (makeAddressV4 server.ip = none ∧ s = .thrown) ∨
      ((makeAddressV4 server.ip).isSome = true ∧ s.threw = false ∧ ForwardKept config server session log s) := by
  induction h with
  | start haddress => exact .inr ⟨haddress, rfl, .start, rfl, rfl, fun se hse => absurd hse List.not_mem_nil⟩
  | threw hnone => exact .inl ⟨hnone, rfl⟩
  | @call log s event call _ hthrew hstep ih =>
    obtain ⟨-, rfl⟩ | ⟨haddress, -, hk⟩ := ih
    · cases hthrew
    refine .inr ⟨haddress, ?_, hk.next hstep⟩
    cases event.result (forwardUdpCall server.forwardTimeout) with
    | none => exact hthrew
    | some datagram =>
      rw [Option.toList_some, List.foldl_cons, List.foldl_nil, ForwardState.called]
      split <;> exact hthrew
  | @sent log s before after se ending hrun hsending hend ih =>
    obtain ⟨-, rfl⟩ | ⟨haddress, hthrew, hk⟩ := ih
    · exact absurd hsending (by simp [ForwardState.thrown])
    have hcount := hk.sending
    have hrequest := hk.request
    rw [hsending] at hcount hrequest
    refine .inr ⟨haddress, hthrew, hk.call, hk.sent, ?_, fun se' hse' => hrequest se' ?_⟩
    · show (before ++ after).length + (s.endings ++ [ending]).length = s.sent.length
      rw [← hcount]
      simp only [List.length_append, List.length_cons, List.length_nil]
      omega
    · exact List.perm_middle.mem_iff.2 (List.mem_cons_of_mem _ hse')

/-- At rest every send has ended its session. -/
theorem sending_of_atRest {m : Bytes} {n : Nat} {r : UdpRequest} (h : UdpRequest.parse m n = some r)
    (hv : r.valid = true) (hk : ForwardKept config server (forwardSession m r) log s)
    (hrest : ∀ se ∈ s.sending, ∀ ending, endSession se ≠ .ok ending) : s.sending = [] := by
  obtain ⟨header, zone, query, -, hz, -, hq, -⟩ := accepted_parts h hv
  refine List.eq_nil_iff_forall_not_mem.2 fun se hse => ?_
  have hrequest : se.request = r := hk.request se hse
  obtain ⟨ending, hend⟩ := endSession_ok_iff.2 ⟨_, hrequest ▸ getQueryType_eq hz hq⟩
  exact hrest se hse ending hend

/-- A result is a datagram, or the response can be built. -/
theorem replyBytes_isSome_iff {m : Bytes} {n : Nat} {r : UdpRequest} (h : UdpRequest.parse m n = some r)
    (hv : r.valid = true) (hm : m.length = 1024) (config : Config) (datagram : Option Datagram) :
    (replyBytes config (forwardSession m r) datagram).isSome = true ↔ (datagram = none → QuestionsFit r) := by
  have hok : (replyBytes config (forwardSession m r) datagram).isSome = true ↔
      ∃ se bytes, callback config (forwardSession m r) datagram = .ok (se, bytes) := by
    unfold replyBytes
    cases callback config (forwardSession m r) datagram with
    | error fault => simp
    | ok p => exact iff_of_true rfl ⟨p.1, p.2, rfl⟩
  rw [hok]
  cases datagram with
  | none =>
    rw [callback_none_iff h hv hm]
    exact ⟨fun hfit _ => hfit, fun hfit => hfit rfl⟩
  | some d =>
    obtain ⟨se, hse, -⟩ := callback_some config (forwardSession m r) d
    exact iff_of_true ⟨se, _, hse⟩ nofun

end Runs

/-- The callback has been called once, the client has been sent one reply, and the session has ended once. -/
structure Replied (s : ForwardState) : Prop where
  called : s.call.results.length = 1
  sent : s.sent.length = 1
  ended : s.endings.length = 1

/-- **Forwarded requests**: in every run nothing happens twice, and when no handler is left to run the reply has been
sent and the session has ended iff the address of the server could be used, no empty datagram came in time, and the
questions fit in a response if one had to be built. -/
theorem replied_iff (makeAddressV4 : Bytes → Option UInt32) (config : Config) (server : RemoteDnsServer)
    (d tail : Bytes) (hd : (d ++ tail).length = 1024)
    (r : UdpRequest) (h : UdpRequest.parse (d ++ tail) d.length = some r) (hv : r.valid = true)
    (log : List (Event UdpStage UdpStage.Value)) (s : ForwardState)
    (hrun : ForwardRun makeAddressV4 config server (forwardSession (d ++ tail) r) log s) :
    (s.call.results.length ≤ 1 ∧ s.sent.length ≤ 1 ∧ s.endings.length ≤ 1) ∧
    (s.AtRest server → (Replied s ↔ (makeAddressV4 server.ip).isSome = true ∧
      (∀ event ∈ log, ¬EmptyInTime server.forwardTimeout event) ∧
      ((∃ event ∈ log, FailedOrLate server.forwardTimeout event) → QuestionsFit r))) := by
  obtain ⟨hnone, rfl⟩ | ⟨haddress, hthrew, hk⟩ := forwardKept_of_run hrun
  · refine ⟨⟨by decide, by decide, by decide⟩, fun _ => iff_of_false (fun hreplied => ?_) (by simp [hnone])⟩
    exact absurd hreplied.called (by decide)
  obtain ⟨-, hcount, -⟩ := count_of_run hk.call
  have hmost : s.call.results.length ≤ 1 := by omega
  have hsent : s.sent.length ≤ s.call.results.length := by
    rw [hk.sent]
    exact List.length_filterMap_le _ _
  have hended := hk.sending
  refine ⟨⟨hmost, by omega, by omega⟩, fun hrest => ?_⟩
  obtain ⟨hcall, hsends⟩ := hrest.resolve_left (by simp [hthrew])
  rw [and_iff_right haddress]
  have hsending := sending_of_atRest h hv hk hsends
  rw [hsending, List.length_nil, Nat.zero_add] at hended
  have hcalled : s.call.results.length = 1 ↔ ∀ event ∈ log, ¬EmptyInTime server.forwardTimeout event := by
    rw [complete_iff_of_atRest hk.call hcall]
    simp only [← leaves_iff, Bool.not_eq_true]
  have hnull : none ∈ s.call.results ↔ ∃ event ∈ log, FailedOrLate server.forwardTimeout event := by
    rw [results_of_run hk.call, List.mem_filterMap]
    simp only [result_none_iff]
  rw [← hcalled, ← hnull]
  have hreply : s.call.results.length = 1 → (s.sent.length = 1 ↔ (none ∈ s.call.results → QuestionsFit r)) := by
    intro hone
    obtain ⟨datagram, hdatagram⟩ := List.length_eq_one_iff.1 hone
    have hlist : s.sent = (replyBytes config (forwardSession (d ++ tail) r) datagram).toList := by
      rw [hk.sent, hdatagram]
      rfl
    rw [hlist, hdatagram, List.mem_singleton, Option.length_toList, eq_comm (a := none),
      ← replyBytes_isSome_iff h hv hd config datagram]
    cases replyBytes config (forwardSession (d ++ tail) r) datagram <;> simp
  constructor
  · exact fun ⟨hone, hsent, _⟩ => ⟨hone, (hreply hone).1 hsent⟩
  · intro ⟨hone, hfit⟩
    have hsent := (hreply hone).2 hfit
    exact ⟨hone, hsent, hended.trans hsent⟩

/-! ## An empty datagram -/

def udpServer : RemoteDnsServer := { ip := oneIp, port := 53, type := .udp }

/-- A datagram without a byte. -/
def emptyDatagram : Datagram := { buffer := List.replicate 1024 0, size := 0, fits := by decide }

/-- The call when all its handlers have run: it was left. -/
def leftForward : ForwardState := { call := { operation := .none, timer := .over, connection := .released } }

theorem run_leftForward (config : Config) (session : Session) :
    ∃ log, ForwardRun dottedQuad config udpServer session log leftForward := by
  have begun : ForwardRun dottedQuad config udpServer session [] {} := .start (by decide +kernel)
  have sent := (begun.call rfl (.returned _ (.done (23 : Nat)) rfl)).call rfl (.handled _ 1 rfl)
  have received := (sent.call rfl (.returned _ (.done emptyDatagram) rfl)).call rfl (.handled _ 2 rfl)
  have closed := (received.call rfl (.expired _ rfl)).call rfl (.timedOut _ rfl)
  exact ⟨_, closed.call rfl (.released _ rfl)⟩

theorem leftForward_atRest : leftForward.AtRest udpServer := by
  refine .inr ⟨fun event s' hstep => ?_, fun se hse => absurd hse List.not_mem_nil⟩
  cases hstep with
  | returned completion h => cases h
  | handled cost h => cases h
  | expired h => cases h
  | timedOut h => cases h
  | shutDown h => cases h
  | closed h => cases h
  | released h => cases h

/-- The request for the name `a.Lan` in a buffer of a session. -/
theorem lanPointer_accepted : ∃ r, UdpRequest.parse (lanPointer ++ List.replicate 1001 0) lanPointer.length = some r ∧
    r.valid = true ∧ getQueryType r = .ok 12 := by
  have h : (UdpRequest.parse (lanPointer ++ List.replicate 1001 0) lanPointer.length).any
      (fun r => r.valid && decide (getQueryType r = .ok 12)) = true := by decide +kernel
  obtain ⟨r, hr, h⟩ := (Option.any_eq_true _ _).1 h
  obtain ⟨hv, htype⟩ := (Bool.and_eq_true_iff ..).1 h
  exact ⟨r, hr, hv, of_decide_eq_true htype⟩

theorem replied_iff_at : ∃ (r : UdpRequest) (log : List (Event UdpStage UdpStage.Value)),
    UdpRequest.parse (lanPointer ++ List.replicate 1001 0) lanPointer.length = some r ∧
    (Replied leftForward ↔ (dottedQuad udpServer.ip).isSome = true ∧
      (∀ event ∈ log, ¬EmptyInTime udpServer.forwardTimeout event) ∧
      ((∃ event ∈ log, FailedOrLate udpServer.forwardTimeout event) → QuestionsFit r)) := by
  obtain ⟨r, hr, hv, -⟩ := lanPointer_accepted
  obtain ⟨log, hrun⟩ := run_leftForward oneServer (forwardSession (lanPointer ++ List.replicate 1001 0) r)
  exact ⟨r, log, hr, (replied_iff dottedQuad oneServer udpServer lanPointer (List.replicate 1001 0)
    (by decide +kernel) r hr hv log leftForward hrun).2 leftForward_atRest⟩

/-- An empty datagram in time: the callback is never called. -/
theorem not_replied : ¬∀ (makeAddressV4 : Bytes → Option UInt32) (config : Config) (server : RemoteDnsServer),
    forwardServer config = some server → (makeAddressV4 server.ip).isSome = true → ∀ (d tail : Bytes),
    (d ++ tail).length = 1024 → ∀ r, UdpRequest.parse (d ++ tail) d.length = some r → r.valid = true → Forwards r →
    ∀ log s, ForwardRun makeAddressV4 config server (forwardSession (d ++ tail) r) log s → s.AtRest server →
    Replied s := by
  intro h
  obtain ⟨r, hr, hv, htype⟩ := lanPointer_accepted
  obtain ⟨log, hrun⟩ := run_leftForward oneServer (forwardSession (lanPointer ++ List.replicate 1001 0) r)
  have hreplied := h dottedQuad oneServer udpServer rfl (by decide +kernel) lanPointer (List.replicate 1001 0)
    (by decide +kernel) r hr hv ⟨12, htype, by decide, by decide⟩ log leftForward hrun leftForward_atRest
  exact absurd hreplied.called (by decide)

end StDns.Server
