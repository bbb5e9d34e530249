import StDns.Protocol.Answer
import StDns.Server.Config

/-!
# The handling of a datagram

`dns_server::receive` and what it calls, from a datagram in the buffer of a session to the end of `end_session`. What
the server does not decide itself is in a `World`: whether the receive failed, what the record manager resolves, which
addresses `make_address_v4` takes, what an upstream answers to the bytes that it is sent. `end_session` looks up the
type of the first question, so it fails on a request without one (`endSession_ok_iff`); `handle_ends_iff` says for which
datagrams the handling comes to its end.
-/

namespace StDns.Server

open Lib Protocol

/-! ## Outside and session -/

/-- How `forward_udp` ends: with an error or a timeout, or with `size` bytes received into a buffer. -/
inductive Forwarded where
  | failed
  | received (buffer : Bytes) (size : Nat)

/-- What comes from outside: the error of the receive, the records resolved at once and after the wait for the
upstreams (nothing when the selection of the servers throws), the addresses that `make_address_v4` makes of texts, and
what an upstream at an address and a port answers to the bytes that are forwarded to it. -/
structure World where
  netError : Bool
  cached : Bytes → Option DnsRecord
  later : Bytes → Option DnsRecord
  makeAddressV4 : Bytes → Option UInt32
  forwarded : UInt32 → Int → Bytes → Forwarded

inductive ProcessType where
  | query
  | forward
  | drop
  deriving DecidableEq

structure Session where
  request : UdpRequest
  buffer : Bytes
  record : DnsRecord := {}
  processType : ProcessType := .query
  response : Option BuiltResponse := none

/-- A session before anything is parsed: `udp_request(1024)`. -/
def Session.fresh (m : Bytes) : Session := { request := { data := 0, len := 1024 }, buffer := m }

/-- `udp_request::get_query_type`: the type of the first question. -/
def getQueryType (r : UdpRequest) : Except Fault Nat := do
  let zone ← deref r.queryZone
  let query ← inBounds zone.querys[0]?
  return query.queryType

/-- `udp_request::get_query_type_value`. -/
def getQueryTypeValue (r : UdpRequest) : Except Fault Nat := do
  let zone ← deref r.queryZone
  let query ← inBounds zone.querys[0]?
  return query.queryTypeValue

/-! ## `end_session` -/

/-- What `end_session` finds out about a session. -/
structure Ending where
  success : Bool
  queryType : Nat
  domain : Bytes
  deriving DecidableEq

def endSession (s : Session) : Except Fault Ending := do
  let success := s.response.isSome && (s.processType ≠ .query || s.record.ips ≠ [])
  let queryType ← getQueryType s.request
  return { success := success, queryType := queryType, domain := s.request.getHost }

/-! ## `process_session` -/

/-- `dns_server::cal_expire`. -/
def calExpire (config : Config) (record : DnsRecord) : Nat :=
  let expire := if record.matchArea then config.dnsCacheExpire else 1
  min (max expire (1 * 10)) (10 * 60)

/-- The text `localhost`. -/
def localhost : Bytes := [108, 111, 99, 97, 108, 104, 111, 115, 116]

/-- The text `st-dns`. -/
def stDns : Bytes := [115, 116, 45, 100, 110, 115]

/-- The handler that `process_session` completes a session with: the bytes sent are those of its response. -/
def complete (config : Config) (s : Session) : Except Fault (Session × Bytes) :=
  match s.response with
  | some response => .ok (s, response.bytes)
  | none => do
    let response ← UdpResponse.ofRequest s.buffer s.request s.record (calExpire config s.record)
    return ({ s with response := some response }, response.bytes)

/-- The record that `query_dns_record` answers from. A host without addresses is looked up again when the upstreams
had time. -/
def queriedRecord (world : World) (s : Session) : Except Fault DnsRecord := do
  let host := s.request.getHost
  if host = localhost then
    return { s.record with server := stDns, domain := host, expireTime := 2 ^ 64 - 1 }
  else
    let record ← unlessThrown (world.cached host)
    if record.ips = [] then unlessThrown (world.later host) else return record

/-- The `complete` of `query_dns_record`. -/
def answer (config : Config) (s : Session) (record : DnsRecord) : Except Fault (Session × Bytes) := do
  let s := { s with record := record }
  let response ← UdpResponse.ofRequest s.buffer s.request s.record (calExpire config s.record)
  complete config { s with response := some response }

/-- `dns_server::query_dns_record`. -/
def queryDnsRecord (config : Config) (world : World) (s : Session) : Except Fault (Session × Bytes) := do
  let record ← queriedRecord world s
  answer config s record

/-- `forward_udp` for the first bytes of the buffer, as many as the request has. -/
def forwardUdp (world : World) (server : RemoteDnsServer) (s : Session) : Except Fault Forwarded := do
  let address ← unlessThrown (world.makeAddressV4 server.ip)
  return world.forwarded address server.port (s.buffer.take s.request.len)

/-- `dns_server::forward_dns_request`; nothing when the callback of `forward_udp` is never called. -/
def forwardDnsRequest (config : Config) (world : World) (s : Session) : Except Fault (Option (Session × Bytes)) :=
  match forwardServer config with
  | some server => do
    match ← forwardUdp world server s with
    | .failed => some <$> complete config s
    | .received buffer size =>
      if 0 < size then
        some <$> complete config
          { s with response := some { buffer := buffer, response := { data := 0, len := size } } }
      else .ok none
  | none => some <$> complete config s

/-- `dns_server::process_session`: the session and the bytes sent for it. -/
def processSession (config : Config) (world : World) (s : Session) : Except Fault (Option (Session × Bytes)) := do
  let s := { s with record := { s.record with domain := s.request.getHost } }
  let _ ← getQueryTypeValue s.request
  let queryType ← getQueryType s.request
  if queryType = QueryType.a then some <$> queryDnsRecord config world s
  else if queryType = QueryType.aaaa then some <$> complete config { s with processType := .drop }
  else forwardDnsRequest config world { s with processType := .forward }

/-! ## `receive` -/

/-- A handling that came to the end of `end_session`: the bytes sent to the client, if any. -/
structure Handled where
  sent : Option Bytes
  ending : Ending
  deriving DecidableEq

/-- The handler of `dns_server::receive` for `size` bytes received into the buffer `m`; nothing when the session is
left waiting for ever. -/
def handle (config : Config) (world : World) (m : Bytes) (size : Nat) : Except Fault (Option Handled) :=
  if world.netError = false ∧ 0 < size then do
    let request ← inBounds (UdpRequest.parse m size)
    let session := { Session.fresh m with request := request }
    if request.valid then
      match ← processSession config world session with
      | some (session, sent) => do
        let ending ← endSession session
        return some { sent := some sent, ending := ending }
      | none => return none
    else do
      let ending ← endSession session
      return some { sent := none, ending := ending }
  else do
    let ending ← endSession (Session.fresh m)
    return some { sent := none, ending := ending }

/-! ## Which handlings come to their end -/

/-- No lookup for the host throws: at once, and after the wait when that gives no address. -/
def looks (world : World) (host : Bytes) : Bool :=
  host = localhost || (world.cached host).any fun record => record.ips ≠ [] || (world.later host).isSome

/-- Where the response of an accepted request comes from: the server builds it, or relays the bytes of an upstream, or
there is none, or an exception ends the handling before. -/
inductive Route where
  | built
  | relayed (sent : Bytes)
  | never
  | thrown

/-- The route of the request in the buffer `m` by the type of its first question. -/
def route (config : Config) (world : World) (m : Bytes) (r : UdpRequest) (queryType : Nat) : Route :=
  if queryType = QueryType.a then if looks world r.getHost then .built else .thrown
  else if queryType = QueryType.aaaa then .built
  else
    match forwardServer config with
    | none => .built
    | some server =>
      match world.makeAddressV4 server.ip with
      | none => .thrown
      | some address =>
        match world.forwarded address server.port (m.take r.len) with
        | .failed => .built
        | .received buffer size => if 0 < size then .relayed (buffer.take size) else .never

/-- An accepted request can be answered: its questions lie in the buffer when a response is built from them, nothing
throws, and a relayed answer has come. -/
def Answerable (config : Config) (world : World) (m : Bytes) (r : UdpRequest) : Prop :=
  ∃ zone query, r.queryZone = some zone ∧ zone.querys.head? = some query ∧
    match route config world m r query.queryType with
    | .built => DnsHeader.defaultLen + zone.len ≤ 1024
    | .relayed _ => True
    | .never | .thrown => False

section Ends

variable {config : Config} {world : World} {m : Bytes} {r : UdpRequest} {s : Session}

/-- An accepted request has a header, and questions that begin behind it. -/
theorem accepted_parts {n : Nat} (h : UdpRequest.parse m n = some r) (hv : r.valid = true) :
    ∃ header zone query, r.header = some header ∧ r.queryZone = some zone ∧ zone.data = DnsHeader.defaultLen ∧
      zone.querys.head? = some query ∧ 0 < n := by
  obtain ⟨header, zone, hn, -, hzone, hzv, hne, hh, hz, -⟩ := accepted h hv
  obtain ⟨qs, -, rfl⟩ := zone_iff_chain.1 ⟨hzone, hzv⟩
  obtain ⟨q, qs, rfl⟩ := List.exists_cons_of_ne_nil hne
  exact ⟨header, _, q, hh, hz, rfl, rfl, Nat.lt_of_le_of_lt (Nat.zero_le _) hn⟩

theorem getQueryType_eq {zone : DnsQueryZone} {query : DnsQuery} (hz : r.queryZone = some zone)
    (hq : zone.querys.head? = some query) : getQueryType r = .ok query.queryType := by
  rw [List.head?_eq_getElem?] at hq
  simp only [getQueryType, hz, deref, hq, inBounds, bind, Except.bind]
  rfl

theorem getQueryTypeValue_eq {zone : DnsQueryZone} {query : DnsQuery} (hz : r.queryZone = some zone)
    (hq : zone.querys.head? = some query) : getQueryTypeValue r = .ok query.queryTypeValue := by
  rw [List.head?_eq_getElem?] at hq
  simp only [getQueryTypeValue, hz, deref, hq, inBounds, bind, Except.bind]
  rfl

/-- The end of a session succeeds iff its request has a first question. -/
theorem endSession_ok_iff : (∃ e, endSession s = .ok e) ↔ ∃ t, getQueryType s.request = .ok t := by
  unfold endSession
  cases getQueryType s.request with
  | ok t => exact ⟨fun _ => ⟨t, rfl⟩, fun _ => ⟨_, rfl⟩⟩
  | error f => simp [bind, Except.bind]

/-- A request that was not accepted has no question for the end of its session. -/
theorem endSession_rejected {n : Nat} (h : UdpRequest.parse m n = some r) (hv : ¬r.valid = true) (hs : s.request = r) :
    endSession s = .error .nullPointer := by
  simp [endSession, getQueryType, hs, (empty_of_rejected h hv).1, deref, bind, Except.bind]

/-- A session without a response is completed with the one built for it. -/
theorem complete_built {b : BuiltResponse} (hs : s.response = none)
    (hb : UdpResponse.ofRequest s.buffer s.request s.record (calExpire config s.record) = .ok b) :
    complete config s = .ok ({ s with response := some b }, b.bytes) := by
  unfold complete
  rw [hs, hb]
  rfl

theorem complete_fault {f : Fault} (hs : s.response = none)
    (hb : UdpResponse.ofRequest s.buffer s.request s.record (calExpire config s.record) = .error f) :
    complete config s = .error f := by
  unfold complete
  rw [hs, hb]
  rfl

/-- A session with a response is completed as it is. -/
theorem complete_given {b : BuiltResponse} (hs : s.response = some b) : complete config s = .ok (s, b.bytes) := by
  unfold complete
  rw [hs]

/-- What processing comes to when the response is built from some record: an answer with the bytes of that response,
or the fault of the constructor. -/
def Builds (config : Config) (m : Bytes) (r : UdpRequest) (e : Except Fault (Option (Session × Bytes))) : Prop :=
  ∃ record, match UdpResponse.ofRequest m r record (calExpire config record) with
    | .ok b => ∃ s', e = .ok (some (s', b.bytes)) ∧ s'.request = r
    | .error f => e = .error f

theorem complete_builds (hm : s.buffer = m) (hr : s.request = r) (hs : s.response = none) :
    Builds config m r (some <$> complete config s) := by
  subst hm hr
  refine ⟨s.record, ?_⟩
  split
  · rename_i b hb
    exact ⟨{ s with response := some b }, by rw [complete_built hs hb]; rfl, rfl⟩
  · rename_i f hf
    rw [complete_fault hs hf]
    rfl

theorem answer_builds (hm : s.buffer = m) (hr : s.request = r) (record : DnsRecord) :
    Builds config m r (some <$> answer config s record) := by
  subst hm hr
  refine ⟨record, ?_⟩
  unfold answer
  split
  · rename_i b hb
    refine ⟨{ s with record := record, response := some b }, ?_, rfl⟩
    simp only [hb, bind, Except.bind]
    rw [complete_given rfl]
    rfl
  · rename_i f hf
    simp only [hf, bind, Except.bind]
    rfl

/-- There is a record to answer from iff no lookup throws. -/
theorem queriedRecord_cases (world : World) (s : Session) :
    (looks world s.request.getHost = true ∧ ∃ record, queriedRecord world s = .ok record) ∨
      (looks world s.request.getHost = false ∧ queriedRecord world s = .error .exception) := by
  by_cases hlocal : s.request.getHost = localhost
  · exact .inl ⟨by rw [looks, decide_eq_true hlocal, Bool.true_or], _, if_pos hlocal⟩
  have hqueried : queriedRecord world s = (unlessThrown (world.cached s.request.getHost)).bind fun record =>
      if record.ips = [] then unlessThrown (world.later s.request.getHost) else .ok record := if_neg hlocal
  have hlooks : looks world s.request.getHost = (world.cached s.request.getHost).any fun record =>
      record.ips ≠ [] || (world.later s.request.getHost).isSome := by
    rw [looks, decide_eq_false hlocal, Bool.false_or]
  rw [hqueried, hlooks]
  cases world.cached s.request.getHost with
  | none => exact .inr ⟨rfl, rfl⟩
  | some record =>
    simp only [unlessThrown, Except.bind, Option.any_some]
    by_cases hips : record.ips = []
    · cases world.later s.request.getHost with
      | none => exact .inr ⟨by simp [hips], if_pos hips⟩
      | some later => exact .inl ⟨by simp, later, if_pos hips⟩
    · exact .inl ⟨by simp [hips], record, if_neg hips⟩

/-- The dispatch on the type of the first question. -/
theorem processSession_eq {zone : DnsQueryZone} {query : DnsQuery} (hz : s.request.queryZone = some zone)
    (hq : zone.querys.head? = some query) :
    processSession config world s =
      if query.queryType = QueryType.a then
        some <$> queryDnsRecord config world { s with record := { s.record with domain := s.request.getHost } }
      else if query.queryType = QueryType.aaaa then
        some <$> complete config
          { s with record := { s.record with domain := s.request.getHost }, processType := .drop }
      else
        forwardDnsRequest config world
          { s with record := { s.record with domain := s.request.getHost }, processType := .forward } := by
  simp only [processSession, getQueryType_eq hz hq, getQueryTypeValue_eq hz hq, bind, Except.bind]

/-- **The routes** of a request whose first question is `query`. -/
theorem processSession_route (config : Config) (world : World) {zone : DnsQueryZone} {query : DnsQuery}
    (hs : s.response = none)
    (hz : s.request.queryZone = some zone) (hq : zone.querys.head? = some query) :
    match route config world s.buffer s.request query.queryType with
    | .built => Builds config s.buffer s.request (processSession config world s)
    | .relayed sent => ∃ s', processSession config world s = .ok (some (s', sent)) ∧ s'.request = s.request
    | .never => processSession config world s = .ok none
    | .thrown => processSession config world s = .error .exception := by
  rw [processSession_eq hz hq]
  unfold route
  by_cases ha : query.queryType = QueryType.a
  · let t : Session := { s with record := { s.record with domain := s.request.getHost } }
    rw [if_pos ha, if_pos ha]
    rcases queriedRecord_cases world t with ⟨hlooks, record, hrecord⟩ | ⟨hlooks, hthrown⟩
    · have hanswer : queryDnsRecord config world t = answer config t record := by
        rw [queryDnsRecord, hrecord]
        rfl
      rw [if_pos hlooks, hanswer]
      exact answer_builds rfl rfl record
    · have hthrown' : queryDnsRecord config world t = .error .exception := by
        rw [queryDnsRecord, hthrown]
        rfl
      rw [if_neg (Bool.not_eq_true _ ▸ hlooks), hthrown']
      rfl
  by_cases haaaa : query.queryType = QueryType.aaaa
  · rw [if_neg ha, if_pos haaaa, if_neg ha, if_pos haaaa]
    exact complete_builds rfl rfl hs
  rw [if_neg ha, if_neg haaaa, if_neg ha, if_neg haaaa, forwardDnsRequest]
  cases forwardServer config with
  | none => exact complete_builds rfl rfl hs
  | some server =>
    simp only [forwardUdp]
    cases world.makeAddressV4 server.ip with
    | none => rfl
    | some address =>
      simp only [unlessThrown, bind, Except.bind, pure, Except.pure]
      cases world.forwarded address server.port (s.buffer.take s.request.len) with
      | failed => exact complete_builds rfl rfl hs
      | received buffer size =>
        by_cases hsize : 0 < size
        · simp only [if_pos hsize]
          rw [complete_given rfl]
          exact ⟨_, rfl, rfl⟩
        · simp only [if_neg hsize]

/-- A response is built iff the questions of the request lie in the buffer. -/
theorem builds_ok_iff {header : DnsHeader} {zone : DnsQueryZone} {e : Except Fault (Option (Session × Bytes))}
    (he : Builds config m r e) (hh : r.header = some header) (hz : r.queryZone = some zone)
    (hdata : zone.data = DnsHeader.defaultLen) (hm : m.length = 1024) :
    (∃ s' sent, e = .ok (some (s', sent))) ↔ DnsHeader.defaultLen + zone.len ≤ 1024 := by
  obtain ⟨record, he⟩ := he
  constructor
  · rintro ⟨s', sent, rfl⟩
    by_contra hout
    rw [ofRequest_fault hh hz hdata hm (Nat.lt_of_not_le hout)] at he
    cases he
  · intro hin
    obtain ⟨b, hb, -⟩ := ofRequest_ok record (calExpire config record) hh hz hdata hm hin
    rw [hb] at he
    obtain ⟨s', rfl, -⟩ := he
    exact ⟨s', b.bytes, rfl⟩

/-- The request of a session stays. -/
theorem Builds.request {e : Except Fault (Option (Session × Bytes))} {s' : Session} {sent : Bytes}
    (he : Builds config m r e) (hs : e = .ok (some (s', sent))) : s'.request = r := by
  obtain ⟨record, he⟩ := he
  split at he
  · obtain ⟨s'', he, hr⟩ := he
    rw [he] at hs
    cases hs
    exact hr
  · rw [he] at hs
    cases hs

theorem processSession_request {zone : DnsQueryZone} {query : DnsQuery} {s' : Session} {sent : Bytes}
    (hs : s.response = none) (hz : s.request.queryZone = some zone) (hq : zone.querys.head? = some query)
    (hp : processSession config world s = .ok (some (s', sent))) : s'.request = s.request := by
  have hroute := processSession_route config world hs hz hq
  split at hroute
  · exact hroute.request hp
  · obtain ⟨s'', he, hr⟩ := hroute
    rw [he] at hp
    cases hp
    exact hr
  all_goals
    rw [hroute] at hp
    cases hp

theorem answerable_iff {zone : DnsQueryZone} {query : DnsQuery} (hz : r.queryZone = some zone)
    (hq : zone.querys.head? = some query) :
    Answerable config world m r ↔ match route config world m r query.queryType with
      | .built => DnsHeader.defaultLen + zone.len ≤ 1024
      | .relayed _ => True
      | .never | .thrown => False := by
  constructor
  · rintro ⟨zone', query', hz', hq', h⟩
    obtain rfl : zone = zone' := Option.some.inj (hz.symm.trans hz')
    obtain rfl : query = query' := Option.some.inj (hq.symm.trans hq')
    exact h
  · exact fun h => ⟨zone, query, hz, hq, h⟩

/-- An accepted request is processed to the end iff it is answerable. -/
theorem processSession_ok_iff {n : Nat} (h : UdpRequest.parse m n = some r) (hv : r.valid = true) (hm : m.length = 1024)
    (hs : s.response = none) (hr : s.request = r) (hb : s.buffer = m) :
    (∃ s' sent, processSession config world s = .ok (some (s', sent))) ↔ Answerable config world m r := by
  subst hr hb
  obtain ⟨header, zone, query, hh, hz, hdata, hq, -⟩ := accepted_parts h hv
  rw [answerable_iff hz hq]
  have hroute := processSession_route config world hs hz hq
  split at hroute
  · exact builds_ok_iff hroute hh hz hdata hm
  · obtain ⟨s', he, -⟩ := hroute
    exact iff_of_true ⟨s', _, he⟩ trivial
  all_goals
    rw [hroute]
    simp

/-- The handler on an accepted datagram: process the session, then end it. -/
theorem handle_accepted {n : Nat} (hn : world.netError = false) (h : UdpRequest.parse m n = some r)
    (hv : r.valid = true) :
    handle config world m n = do
      match ← processSession config world { Session.fresh m with request := r } with
      | some (session, sent) => do
        let ending ← endSession session
        return some { sent := some sent, ending := ending }
      | none => return none := by
  obtain ⟨-, -, -, -, -, -, -, hpos⟩ := accepted_parts h hv
  simp only [handle, if_pos (And.intro hn hpos), h, inBounds, hv, if_true, bind, Except.bind]

/-- A session that is processed to its end is ended: its first question is still there. -/
theorem handle_processed {n : Nat} {sent : Bytes} (hn : world.netError = false) (h : UdpRequest.parse m n = some r)
    (hv : r.valid = true)
    (hp : processSession config world { Session.fresh m with request := r } = .ok (some (s, sent))) :
    ∃ ending, handle config world m n = .ok (some { sent := some sent, ending := ending }) := by
  obtain ⟨header, zone, query, -, hz, -, hq, -⟩ := accepted_parts h hv
  have hs : s.request = r := processSession_request rfl hz hq hp
  obtain ⟨ending, he⟩ := endSession_ok_iff.2 ⟨_, hs ▸ getQueryType_eq hz hq⟩
  refine ⟨ending, ?_⟩
  rw [handle_accepted hn h hv, hp]
  simp only [bind, Except.bind, he, pure, Except.pure]

/-- A handling that comes to its end is that of an accepted datagram, and its session was processed. -/
theorem accepted_of_handle {n : Nat} {e : Handled} (hh : handle config world m n = .ok (some e)) :
    world.netError = false ∧ ∃ r, UdpRequest.parse m n = some r ∧ r.valid = true ∧
      ∃ s sent, processSession config world { Session.fresh m with request := r } = .ok (some (s, sent)) := by
  by_cases hn : world.netError = false ∧ 0 < n
  · cases hp : UdpRequest.parse m n with
    | none => simp [handle, if_pos hn, hp, inBounds, bind, Except.bind] at hh
    | some r =>
      by_cases hv : r.valid = true
      · refine ⟨hn.1, r, rfl, hv, ?_⟩
        rw [handle_accepted hn.1 hp hv] at hh
        cases hps : processSession config world { Session.fresh m with request := r } with
        | error f => rw [hps] at hh; cases hh
        | ok processed =>
          cases processed with
          | none => rw [hps] at hh; cases hh
          | some p => exact ⟨p.1, p.2, rfl⟩
      · have he : endSession { Session.fresh m with request := r } = .error .nullPointer :=
          endSession_rejected hp hv rfl
        simp [handle, if_pos hn, hp, inBounds, bind, Except.bind, hv, he] at hh
  · have he : endSession (Session.fresh m) = .error .nullPointer := rfl
    simp [handle, if_neg hn, he, bind, Except.bind] at hh

end Ends

/-- **The end of a handling**: for every datagram of at most 1024 bytes in a session's buffer, whatever lies behind it
there, the handling comes to the end of `end_session` iff nothing went wrong in the receive, the datagram is accepted
and the request is answerable. -/
theorem handle_ends_iff (config : Config) (world : World) (d tail : Bytes) (hd : (d ++ tail).length = 1024) :
    (∃ e, handle config world (d ++ tail) d.length = .ok (some e)) ↔
      world.netError = false ∧ ∃ r, UdpRequest.parse (d ++ tail) d.length = some r ∧ r.valid = true ∧
        Answerable config world (d ++ tail) r := by
  constructor
  · rintro ⟨e, he⟩
    obtain ⟨hn, r, hr, hv, hp⟩ := accepted_of_handle he
    exact ⟨hn, r, hr, hv, (processSession_ok_iff hr hv hd rfl rfl rfl).1 hp⟩
  · rintro ⟨hn, r, hr, hv, ha⟩
    obtain ⟨s, sent, hp⟩ :=
      (processSession_ok_iff (s := { Session.fresh (d ++ tail) with request := r }) hr hv hd rfl rfl rfl).2 ha
    obtain ⟨ending, he⟩ := handle_processed hn hr hv hp
    exact ⟨_, he⟩

/-- Surroundings in which nothing goes wrong. -/
def calm : World :=
  { netError := false
    cached := fun _ => some { ips := [1] }
    later := fun _ => some {}
    makeAddressV4 := dottedQuad
    forwarded := fun _ _ _ => .failed }

theorem handle_ends_iff_at :
    (∃ e, handle oneServer calm (oneQuestion ++ List.replicate 1005 0) 19 = .ok (some e)) ↔
      calm.netError = false ∧ ∃ r, UdpRequest.parse (oneQuestion ++ List.replicate 1005 0) 19 = some r ∧
        r.valid = true ∧ Answerable oneServer calm (oneQuestion ++ List.replicate 1005 0) r :=
  handle_ends_iff oneServer calm oneQuestion (List.replicate 1005 0) (by decide +kernel)

/-- A datagram of one byte has no question that the end of its session could look at. -/
theorem handle_not_ends : ¬∀ (config : Config) (world : World) (d tail : Bytes), (d ++ tail).length = 1024 →
    ∃ e, handle config world (d ++ tail) d.length = .ok (some e) := by
  intro h
  obtain ⟨e, he⟩ := h oneServer calm [0] (List.replicate 1023 0) (by decide +kernel)
  obtain ⟨-, r, hr, hv, -⟩ := (accepted_of_handle he)
  cases hr
  cases hv

end StDns.Server
