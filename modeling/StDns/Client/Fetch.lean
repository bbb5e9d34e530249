import StDns.Client.Receive
import StDns.Protocol.ResponseBounds
import Mathlib.Data.List.Sort

/-!
# Asking an upstream

What the three ways to ask an upstream hand to their handler: `udp_dns`, and `tcp_dns` and `tcp_tls_dns` for one area
or several. Every query has a request with an id of its own and gets a message, or ends in an error or a timeout and
then hands on nothing. Whatever is handed on comes from an answer record of a message with the id of its query
(`udp_answered`, `tcp_answered`, `tls_answered`); the owner of the record and the question of the message are not looked
at, nor where the data of the record end.
-/

namespace StDns.Client

open Lib Protocol

/-! ## One query -/

/-- A datagram in the receive buffer of 1024 bytes. -/
structure Datagram where
  buffer : Bytes
  size : Nat
  fits : size ≤ 1024

/-- What a query over UDP gets. -/
inductive UdpArrival where
  | failed
  | received (datagram : Datagram)

/-- What a query over a stream gets: the two bytes of the length, and the buffer once the payload is in it. -/
inductive TcpArrival where
  | failed
  | received (lengthBytes buffer : Bytes)

/-- The addresses that `udp_dns` hands on; nothing when a read leaves the buffer. -/
def UdpArrival.ips (qid : Nat) : UdpArrival → Option (List Nat)
  | failed => some []
  | received datagram => udpDns datagram.buffer datagram.size qid

/-- The addresses that `tcp_dns` or `tcp_tls_dns` hands on for one area. -/
def TcpArrival.ips (dnsId : Nat) : TcpArrival → Option (List Nat)
  | failed => some []
  | received lengthBytes buffer => do
    let dataLen ← read lengthBytes 0 2
    if 1024 < dataLen then return []
    else DnsClient.parse buffer dataLen dnsId

/-! ## Several areas -/

/-- The variables that the handlers of the areas share. -/
structure AreaState where
  counter : UInt16 := 0
  loadAll : Bool := true
  result : List Nat := []

/-- What the handler of an area does with its addresses. -/
def AreaState.each (s : AreaState) (ips : List Nat) : AreaState :=
  { counter := s.counter + 1
    loadAll := s.loadAll && !ips.isEmpty
    result := ips.foldl (fun result ip => if ip ∈ result then result else result ++ [ip]) s.result }

/-- The handlers in the order they are called, until the counter is `full`; `order` is that of the set. -/
def runAreas (full : UInt16 → Bool) (order : List Nat → List Nat) : AreaState → List (List Nat) →
    Option (List Nat × Bool)
  | _, [] => none
  | s, ips :: rest =>
    let s := s.each ips
    if full s.counter then some (order s.result, s.loadAll) else runAreas full order s rest

/-- The addresses and `load_all` that are handed on for the areas of a server, given those of each query in the order
they come; nothing as long as some are missing. -/
def dnsAreas (full : UInt16 → Bool) (order : List Nat → List Nat) (areas : List (Bytes × UInt16))
    (results : List (List Nat)) : Option (List Nat × Bool) :=
  match areas with
  | [] | [_] => results.head?.map fun ips => (ips, true)
  | _ :: _ :: _ => runAreas full order {} results

/-- `tcp_dns` for some areas; the set is an ordered one. -/
def tcpDns (areas : List (Bytes × UInt16)) (arrivals : List (Nat × TcpArrival)) : Option (List Nat × Bool) := do
  let results ← arrivals.mapM fun arrival => arrival.2.ips arrival.1
  dnsAreas (fun counter => counter.toNat = areas.length) (fun result => result.mergeSort) areas results

/-- `tcp_tls_dns` for some areas; the set has whatever `order`. -/
def tcpTlsDns (order : List Nat → List Nat) (areas : List (Bytes × UInt16)) (arrivals : List (Nat × TcpArrival)) :
    Option (List Nat × Bool) := do
  let results ← arrivals.mapM fun arrival => arrival.2.ips arrival.1
  dnsAreas (fun counter => areas.length ≤ counter.toNat) order areas results

/-! ## Where addresses come from -/

/-- The address is a word of the data of an answer record that is not of type `CNAME`, and all of it is among the `n`
bytes of the message. -/
def WordOf (m : Bytes) (n ip : Nat) (r : UdpResponse) : Prop :=
  ∃ a ∈ r.answerZones, a.type ≠ QueryType.cname ∧ ∃ j, j * 4 + 4 ≤ a.length ∧ a.dataBegin + j * 4 + 4 ≤ n ∧
    read m (a.dataBegin + j * 4) 4 = some ip

/-- The message of `n` bytes in the buffer `m` is taken for an answer to the query `id`, without an error code, and the
address for one of its addresses; and when the questions and records of the message end inside its `n` bytes, the
address is a word of it. -/
def Answered (m : Bytes) (n id ip : Nat) : Prop :=
  ∃ r header, UdpResponse.parse m n = some r ∧ r.valid = true ∧ r.header = some header ∧ header.id = id ∧
    header.responseCode = 0 ∧ r.answerZones.length = header.answerCount ∧ ip ∈ r.ips ∧
    (QuestionsFit m n header.answerCount header.questionCount DnsHeader.defaultLen → WordOf m n ip r)

section Answered

variable {m : Bytes} {n : Nat}

/-- Records of a chain are parsed. -/
theorem parsed_of_chain {a : DnsResourceZone} : ∀ {rest : Nat} {as : List DnsResourceZone}, RecordChain m n rest as →
    a ∈ as → ∃ i, DnsResourceZone.ofRest m n i = some a ∧ a.valid = true
  | rest, b :: as, h, ha => by
    rcases List.mem_cons.1 ha with rfl | ha
    · exact ⟨_, h.1⟩
    · exact parsed_of_chain h.2 ha

/-- An address of a parsed record is a word of its data. -/
theorem word_of_record {a : DnsResourceZone} {i ip : Nat} (h : DnsResourceZone.ofRest m n i = some a)
    (hv : a.valid = true) (hip : ip ∈ a.ipv4s) :
    a.type ≠ QueryType.cname ∧ ∃ j, ∃ hj : j < a.ipv4s.length, a.ipv4s[j] = ip ∧
      read m (a.dataBegin + j * 4) 4 = some ip := by
  obtain ⟨k, -, -, hdata, hdomain, -, -, -, htype⟩ := record_parsed h hv
  rcases htype with ⟨-, hnone⟩ | ⟨hne, hlen, hips⟩
  · rw [hnone] at hip
    cases hip
  · refine ⟨hne, ?_⟩
    obtain ⟨hcount, hread⟩ := readIpv4s_eq_some hips
    obtain ⟨j, hj, rfl⟩ := List.getElem_of_mem hip
    refine ⟨j, hj, rfl, ?_⟩
    rw [DnsResourceZone.dataBegin, hdata, hdomain, Option.getD_some]
    exact hread j hj

/-- An address is a word. -/
theorem Answered.lt {id ip : Nat} (hn : n < 2 ^ 64) (h : Answered m n id ip) : ip < 2 ^ 32 := by
  obtain ⟨r, header, hr, hv, hh, -, hrc, -, hip, -⟩ := h
  obtain ⟨-, header', qs, as, -, -, -, -, hchain, rfl⟩ :=
    (UdpResponse.parse_iff_chains hn).1 ⟨hr, hv, header, hh, hrc⟩
  obtain ⟨a, ha, hip⟩ := List.mem_flatMap.1 hip
  obtain ⟨i, hparsed, hav⟩ := parsed_of_chain hchain ha
  obtain ⟨-, j, -, -, hread⟩ := word_of_record hparsed hav hip
  exact read_lt (by decide) hread

/-- The addresses of a valid response. -/
theorem answered_of_ips {r : UdpResponse} {header : DnsHeader} {ip : Nat} (hn : n < 2 ^ 16)
    (h : UdpResponse.parse m n = some r) (hv : r.valid = true) (hh : r.header = some header)
    (hrc : header.responseCode = 0) (hip : ip ∈ r.ips) : Answered m n header.id ip := by
  obtain ⟨-, header', qs, as, -, -, -, hcount, hchain, heq⟩ :=
    (UdpResponse.parse_iff_chains (by omega)).1 ⟨h, hv, header, hh, hrc⟩
  obtain rfl : header' = header := Option.some.inj ((congrArg UdpResponse.header heq).symm.trans hh)
  refine ⟨r, header', h, hv, hh, rfl, hrc, by rw [heq]; exact hcount, hip, fun hfit => ?_⟩
  -- on a walk that ends inside the message every address of a record does
  obtain ⟨-, -, -, -, -, -, ⟨hips, hinside⟩, -⟩ := inside_of_fit hn h hv hh hrc hfit
  rw [hips] at hip
  obtain ⟨a, ha, hip⟩ := List.mem_flatMap.1 hip
  obtain ⟨i, hparsed, hav⟩ := parsed_of_chain hchain (by rw [heq] at ha; exact ha)
  obtain ⟨hne, j, hj, rfl, hread⟩ := word_of_record hparsed hav hip
  obtain ⟨-, hdata, hend⟩ := hinside a ha j hj
  exact ⟨a, ha, hne, j, hdata, hend, hread⟩

/-- **A datagram** whose addresses are handed on answers the query. -/
theorem udp_answered {id ip : Nat} {ips : List Nat} (hn : n < 2 ^ 16) (h : udpDns m n id = some ips) (hip : ip ∈ ips) :
    Answered m n id ip := by
  obtain ⟨r, hr, h⟩ := Option.bind_eq_some_iff.1 h
  by_cases hv : r.valid = true
  · rw [if_pos hv] at h
    obtain ⟨header, hh, h⟩ := Option.bind_eq_some_iff.1 h
    obtain ⟨header', hh', hips⟩ := response_header (by omega) hr hv
    obtain rfl : header' = header := Option.some.inj (hh'.symm.trans hh)
    cases h
    by_cases hid : header'.id = id
    · rw [if_pos hid] at hip
      have hrc : header'.responseCode = 0 := by
        by_contra hne
        rw [hips hne] at hip
        cases hip
      exact hid ▸ answered_of_ips hn hr hv hh hrc hip
    · rw [if_neg hid] at hip
      cases hip
  · rw [if_neg hv] at h
    cases h
    cases hip

/-- **A payload** whose addresses are handed on answers the query. -/
theorem payload_answered {id ip : Nat} {ips : List Nat} (h : DnsClient.parse m n id = some ips) (hip : ip ∈ ips) :
    Answered m n id ip := by
  by_cases hn : 0 < n ∧ n ≤ 1024
  · rw [← udpDns_eq_parse hn.1 hn.2] at h
    exact udp_answered (by omega) h hip
  · unfold DnsClient.parse at h
    rw [if_neg hn] at h
    cases h
    cases hip

end Answered

/-- The address is from a message that answers one of the queries. -/
def StreamAnswered (arrivals : List (Nat × TcpArrival)) (ip : Nat) : Prop :=
  ∃ id lengthBytes buffer n, (id, TcpArrival.received lengthBytes buffer) ∈ arrivals ∧
    read lengthBytes 0 2 = some n ∧ n ≤ 1024 ∧ Answered buffer n id ip

section Streams

variable {arrivals : List (Nat × TcpArrival)}

/-- One query. -/
theorem arrival_answered {id ip : Nat} {arrival : TcpArrival} {ips : List Nat} (hmem : (id, arrival) ∈ arrivals)
    (h : arrival.ips id = some ips) (hip : ip ∈ ips) : StreamAnswered arrivals ip := by
  cases arrival with
  | failed =>
    cases h
    cases hip
  | received lengthBytes buffer =>
    obtain ⟨n, hn, h⟩ := Option.bind_eq_some_iff.1 h
    by_cases hlong : 1024 < n
    · rw [if_pos hlong] at h
      cases h
      cases hip
    · rw [if_neg hlong] at h
      exact ⟨id, lengthBytes, buffer, n, hmem, hn, Nat.le_of_not_lt hlong, payload_answered h hip⟩

/-- All queries. -/
theorem results_answered {results : List (List Nat)}
    (h : (arrivals.mapM fun arrival => arrival.2.ips arrival.1) = some results) {ips : List Nat} (hips : ips ∈ results)
    {ip : Nat} (hip : ip ∈ ips) : StreamAnswered arrivals ip := by
  obtain ⟨⟨id, arrival⟩, hmem, harrival⟩ := exists_of_mem_mapM h hips
  exact arrival_answered hmem harrival hip

theorem mem_emplaced {ip : Nat} (ips : List Nat) (result : List Nat) :
    ip ∈ ips.foldl (fun result ip => if ip ∈ result then result else result ++ [ip]) result ↔
      ip ∈ result ∨ ip ∈ ips := by
  induction ips generalizing result with
  | nil => simp
  | cons i ips ih =>
    rw [List.foldl_cons, ih, List.mem_cons]
    by_cases hi : i ∈ result
    · rw [if_pos hi]
      constructor
      · rintro (h | h)
        · exact .inl h
        · exact .inr (.inr h)
      · rintro (h | rfl | h)
        · exact .inl h
        · exact .inl hi
        · exact .inr h
    · rw [if_neg hi, List.mem_append, List.mem_singleton, or_assoc]

/-- What the handlers of the areas hand on is in the set of one of them. -/
theorem mem_runAreas {full : UInt16 → Bool} {order : List Nat → List Nat} (horder : ∀ l, (order l).Perm l) {ip : Nat}
    {out : List Nat × Bool} : ∀ {results : List (List Nat)} {s : AreaState},
      runAreas full order s results = some out → ip ∈ out.1 → ip ∈ s.result ∨ ∃ ips ∈ results, ip ∈ ips
  | ips :: rest, s, h, hip => by
    rw [runAreas] at h
    split at h
    · cases h
      have hmem := (mem_emplaced ips s.result).1 ((horder _).mem_iff.1 hip)
      exact hmem.imp_right fun hip => ⟨ips, List.mem_cons_self, hip⟩
    · rcases mem_runAreas horder h hip with hmem | ⟨ips', hmem, hip'⟩
      · exact ((mem_emplaced ips s.result).1 hmem).imp_right fun hip => ⟨ips, List.mem_cons_self, hip⟩
      · exact .inr ⟨ips', List.mem_cons_of_mem _ hmem, hip'⟩

theorem mem_dnsAreas {full : UInt16 → Bool} {order : List Nat → List Nat} (horder : ∀ l, (order l).Perm l)
    {areas : List (Bytes × UInt16)} {results : List (List Nat)} {out : List Nat × Bool} {ip : Nat}
    (h : dnsAreas full order areas results = some out) (hip : ip ∈ out.1) : ∃ ips ∈ results, ip ∈ ips := by
  have hone : (results.head?.map fun ips => (ips, true)) = some out → ∃ ips ∈ results, ip ∈ ips := by
    intro hhead
    obtain ⟨ips, hmem, rfl⟩ := Option.map_eq_some_iff.1 hhead
    exact ⟨ips, List.mem_of_mem_head? hmem, hip⟩
  unfold dnsAreas at h
  split at h
  · exact hone h
  · exact hone h
  · exact (mem_runAreas horder h hip).resolve_left List.not_mem_nil

/-- **Streams**: whatever is handed on for a server over TCP is from a message that answers its query. -/
theorem tcp_answered {areas : List (Bytes × UInt16)} {out : List Nat × Bool} {ip : Nat}
    (h : tcpDns areas arrivals = some out) (hip : ip ∈ out.1) : StreamAnswered arrivals ip := by
  obtain ⟨results, hresults, h⟩ := Option.bind_eq_some_iff.1 h
  obtain ⟨ips, hmem, hip⟩ := mem_dnsAreas (fun l => List.mergeSort_perm l _) h hip
  exact results_answered hresults hmem hip

/-- And over TLS. -/
theorem tls_answered {order : List Nat → List Nat} (horder : ∀ l, (order l).Perm l) {areas : List (Bytes × UInt16)}
    {out : List Nat × Bool} {ip : Nat} (h : tcpTlsDns order areas arrivals = some out) (hip : ip ∈ out.1) :
    StreamAnswered arrivals ip := by
  obtain ⟨results, hresults, h⟩ := Option.bind_eq_some_iff.1 h
  obtain ⟨ips, hmem, hip⟩ := mem_dnsAreas horder h hip
  exact results_answered hresults hmem hip

end Streams

end StDns.Client
