import StDns.Protocol.Carried

/-!
# Requests from hosts are read back

The constructors of `udp_request` and `tcp_request` write the header, the questions of all hosts, and the questions a
second time. The header and the first copy are the message; `udp_request::parse` gives back its identifier and its
hosts, all with questions of type A (`request_round_trip`).
-/

namespace StDns.Protocol

open Lib Wire

/-- Labels of 1 to 63 bytes, none of them zero, joined by dots, and at most 253 bytes in all. -/
def HostName (host : Bytes) : Prop := host.length ≤ 253 ∧ (0 : UInt8) ∉ host ∧ ∀ piece ∈ host.splitOn dot, LabelOk piece

instance (host : Bytes) : Decidable (HostName host) := inferInstanceAs (Decidable (_ ∧ _ ∧ _))

/-- The question of a host. -/
def hostQuestion (host : Bytes) : Question := nameQuestion (host.splitOn dot)

/-- The questions of hosts. -/
def questionsBytes (hosts : List Bytes) : Bytes := hosts.flatMap fun host => (hostQuestion host).bytes

section HostName

variable {host : Bytes}

theorem HostName.hostText (h : HostName host) : HostText host := ⟨h.2.1, fun piece hpiece => (h.2.2 piece hpiece).2⟩

/-- A host name does not begin with a dot, and is not empty. -/
theorem HostName.head_ne_dot (h : HostName host) : (host ++ [dot])[0]? ≠ some dot := by
  intro h0
  have hempty : [] ∈ host.splitOn dot := by
    cases host with
    | nil => exact List.mem_singleton.2 rfl
    | cons c rest =>
      obtain rfl : c = dot := by simpa using h0
      have hsplit : ([] ++ dot :: rest).splitOn dot = [] :: rest.splitOn dot :=
        List.splitOn_append_cons_self_of_not_mem List.not_mem_nil rest
      rw [List.nil_append] at hsplit
      rw [hsplit]
      exact List.mem_cons_self
  exact absurd (h.2.2 [] hempty).1 (Nat.lt_irrefl 0)

/-- What is written for a host name: its question, with the length it declares. -/
theorem HostName.written (h : HostName host) : Written (fun host => (hostQuestion host).bytes) host := by
  have h253 := h.1
  have hdecl := finalDataLen_eq h.2.1
  have hbytes := nameBytes_short h.2.1 (by omega) h.head_ne_dot
  have hencodable : Encodable host := ⟨by omega, h.head_ne_dot, fun h => absurd h (by omega)⟩
  obtain ⟨bytes, hbytes', hexact⟩ := (nameBytes_iff h.2.1 (by omega) h.hostText.2).2 hencodable
  obtain rfl := Option.some.inj (hbytes.symm.trans hbytes')
  refine ⟨_, hbytes, by rw [hexact, u32_of_lt (by omega)], ?_⟩
  change _ ++ DnsQuery.defaultFlags = _ ++ (beBytes 2 1 ++ beBytes 2 1)
  rw [show beBytes 2 1 ++ beBytes 2 1 = DnsQuery.defaultFlags by decide]
  rfl

theorem HostName.questionLen (h : HostName host) : questionLen host = host.length + 6 := by
  have h253 := h.1
  rw [Protocol.questionLen, finalDataLen_eq h.2.1, u32_of_lt (by omega)]
  rfl

end HostName

/-! ## What is written -/

section Message

variable {id : Nat} {hosts : List Bytes}

/-- The header and the questions of hosts. -/
def hostsMessage (id : Nat) (hosts : List Bytes) : Bytes :=
  DnsHeader.initBytes id hosts.length 0 0 false ++ questionsBytes hosts

theorem length_hostsMessage (id : Nat) (h : ∀ host ∈ hosts, HostName host) :
    (hostsMessage id hosts).length = DnsHeader.defaultLen + (hosts.map questionLen).sum := by
  rw [hostsMessage, List.length_append, length_initBytes, questionsBytes,
    length_questions fun host hhost => (h host hhost).written]

end Message

/-! ## What is read back -/

/-- The message of hosts: its identifier and a question of type A for each of them. -/
def hostsQuery (id : Nat) (hosts : List Bytes) : QueryMessage := { id := id, questions := hosts.map hostQuestion }

section ReadBack

variable {id : Nat} {hosts : List Bytes}

theorem initBytes_query (id count : Nat) : DnsHeader.initBytes id count 0 0 false =
    beBytes 2 id ++ [1, 0] ++ beBytes 2 count ++ [0, 0, 0, 0, 0, 0] :=
  initBytes_numbers id count 0 false

theorem hostQuestion_ok {host : Bytes} (h : HostName host) : (∀ l ∈ (hostQuestion host).labels, LabelOk l) ∧
    (hostQuestion host).type < 2 ^ 16 ∧ (hostQuestion host).cls < 2 ^ 16 :=
  ⟨h.2.2, show (1 : Nat) < 2 ^ 16 by decide, show (1 : Nat) < 2 ^ 16 by decide⟩

/-- The message is a query for the hosts. -/
theorem hostsMessage_at (hid : id < 2 ^ 16) (hne : hosts ≠ []) (h : ∀ host ∈ hosts, HostName host)
    (hroom : (hostsMessage id hosts).length ≤ 1024) : (hostsQuery id hosts).At (hostsMessage id hosts) := by
  have hcount : hosts.length ≤ (hosts.map questionLen).sum := by
    have hle := List.length_le_sum_of_one_le (hosts.map questionLen) fun n hn => by
      obtain ⟨host, -, rfl⟩ := List.mem_map.1 hn
      exact Nat.succ_pos _
    rwa [List.length_map] at hle
  have hlen := length_hostsMessage id h
  have hmessage : hostsMessage id hosts = beBytes 2 id ++ ([1, 0] ++ (beBytes 2 hosts.length ++
      ([0, 0, 0, 0, 0, 0] ++ questionsBytes hosts))) := by
    rw [hostsMessage, initBytes_query]
    simp only [List.append_assoc]
  have hholds : Holds (hostsMessage id hosts) 0 (hostsMessage id hosts) := List.prefix_rfl
  rw [hmessage] at hholds
  simp only [holds_append, length_beBytes, List.length_cons, List.length_nil] at hholds
  rw [← hmessage] at hholds
  obtain ⟨hholdsId, -, hholdsCount, -, hquestions⟩ := hholds
  refine ⟨hroom, ?_, ?_, hid, hholdsId, ?_, questionsAt_iff.2 ⟨?_, ?_⟩⟩
  · simpa [hostsQuery] using hne
  · rw [hostsQuery, List.length_map]
    omega
  · rw [hostsQuery, List.length_map]
    exact hholdsCount
  · rintro question hquestion
    obtain ⟨host, hhost, rfl⟩ := List.mem_map.1 hquestion
    exact hostQuestion_ok (h host hhost)
  · rw [hostsQuery, List.flatMap_map]
    exact hquestions

/-- The text of a host's question is the host. -/
theorem text_hostQuestion {host : Bytes} (h : HostName host) (i : Nat) :
    (parsedQuestion i (hostQuestion host)).text = host := by
  change decodedLabels (host.splitOn dot) = host
  rw [decodedLabels_eq (fun l hl => (not_mem_of_mem_splitOn hl).2 h.2.1) h.2.2, joinLabels_eq_intercalate]
  exact List.intercalate_splitOn dot

theorem texts_hostQuestions (h : ∀ host ∈ hosts, HostName host) (i : Nat) :
    (parsedQuestions i (hosts.map hostQuestion)).map DnsQuery.text = hosts := by
  induction hosts generalizing i with
  | nil => rfl
  | cons host hosts ih =>
    obtain ⟨hhost, hhosts⟩ := List.forall_mem_cons.1 h
    rw [List.map_cons, parsedQuestions, List.map_cons, text_hostQuestion hhost, ih hhosts]

theorem mem_parsedQuestions {query : DnsQuery} {questions : List Question} {i : Nat}
    (h : query ∈ parsedQuestions i questions) : ∃ question ∈ questions, query.queryType = question.type := by
  induction questions generalizing i with
  | nil => cases h
  | cons question questions ih =>
    rcases List.mem_cons.1 h with rfl | h
    · exact ⟨question, List.mem_cons_self, rfl⟩
    · obtain ⟨q, hq, htype⟩ := ih h
      exact ⟨q, List.mem_cons_of_mem _ hq, htype⟩

/-- What parsing the message of hosts gives. -/
def ReadBack (id : Nat) (hosts : List Bytes) (r : UdpRequest) : Prop :=
  r.valid = true ∧ (∃ header, r.header = some header ∧ header.id = id) ∧ r.hosts = hosts ∧
    ∃ zone, r.queryZone = some zone ∧ zone.querys.length = hosts.length ∧
      ∀ query ∈ zone.querys, query.queryType = QueryType.a

/-- The message of hosts is read back, whatever stands behind it. -/
theorem parse_hostsMessage (tail : Bytes) (hid : id < 2 ^ 16) (hne : hosts ≠ []) (h : ∀ host ∈ hosts, HostName host)
    (hroom : (hostsMessage id hosts).length ≤ 1024) : ∃ r,
      UdpRequest.parse (hostsMessage id hosts ++ tail) (hostsMessage id hosts).length = some r ∧
        ReadBack id hosts r := by
  obtain ⟨r, header, hr, hv, hheader, hhid, hzone⟩ := request_of_query tail (hostsMessage_at hid hne h hroom)
  obtain ⟨header', zone, -, -, -, -, -, -, hzone', hhosts⟩ := accepted hr hv
  obtain rfl := Option.some.inj (hzone.symm.trans hzone')
  refine ⟨r, hr, hv, ⟨header, hheader, hhid⟩, ?_, _, hzone, ?_, ?_⟩
  · have hne' : ∀ host ∈ hosts, host ≠ [] := by
      rintro host hhost rfl
      exact (h [] hhost).head_ne_dot rfl
    rw [hhosts, hostsOf_eq]
    change ((parsedQuestions 12 (hosts.map hostQuestion)).map DnsQuery.text).filter _ = hosts
    rw [texts_hostQuestions h, List.filter_eq_self]
    simpa using hne'
  · change (parsedQuestions 12 (hosts.map hostQuestion)).length = _
    rw [length_parsedQuestions, List.length_map]
  · intro query hquery
    obtain ⟨question, hquestion, htype⟩ := mem_parsedQuestions hquery
    obtain ⟨host, -, rfl⟩ := List.mem_map.1 hquestion
    exact htype

end ReadBack

section Built

variable {id : Nat} {hosts : List Bytes}

/-- The request over TCP begins with the length of the message and the message. -/
theorem tcp_hostsMessage (h : ∀ host ∈ hosts, HostName host)
    (hroom : DnsHeader.defaultLen + 2 * (hosts.map questionLen).sum ≤ 1024) :
    TcpRequest.ofHosts id hosts =
      some (padded 1026 (beBytes 2 (hostsMessage id hosts).length ++ (hostsMessage id hosts ++ questionsBytes hosts)),
        { hostsRequest 2 id hosts with len := (hostsMessage id hosts).length + TcpRequest.sizeHeader }) := by
  have hlen := length_hostsMessage id h
  have hreq : (hostsRequest 2 id hosts).len = (hostsMessage id hosts).length := hlen.symm
  have hwrite : writeBytes 2 ((hostsMessage id hosts).length % 2 ^ 16) = beBytes 2 (hostsMessage id hosts).length := by
    rw [writeBytes_eq, Nat.mod_eq_of_lt (by omega)]
  have htcp := @tcp_hosts _ id _ (fun host hhost => (h host hhost).written) hroom
  rw [hreq, hwrite] at htcp
  exact htcp

/-- What a memory begins with. -/
theorem take_padded (size : Nat) (front rest : Bytes) : (padded size (front ++ rest)).take front.length = front := by
  rw [padded, List.append_assoc, List.take_left]

end Built

/-- **Round trip**: for host names whose questions fit twice into the buffer, both requests are built; the message of
the first is read back, in whatever buffer it is received, and the second is the length of the message, then the
message. -/
theorem request_round_trip (id : Nat) (hosts : List Bytes) (hid : id < 2 ^ 16) (hne : hosts ≠ [])
    (h : ∀ host ∈ hosts, HostName host)
    (hroom : DnsHeader.defaultLen + 2 * (hosts.map fun host => host.length + 6).sum ≤ 1024) :
    ∃ (message m tcp : Bytes) (request tcpRequest : UdpRequest),
      UdpRequest.ofHosts id hosts = some (m, request) ∧ m.take request.len = message ∧
        request.len = message.length ∧ request.hosts = hosts ∧ message.length < 2 ^ 16 ∧
        (∀ tail, ∃ r, UdpRequest.parse (message ++ tail) request.len = some r ∧ ReadBack id hosts r) ∧
        TcpRequest.ofHosts id hosts = some (tcp, tcpRequest) ∧
        tcp.take tcpRequest.len = beBytes 2 message.length ++ message ∧ tcpRequest.len = 2 + message.length := by
  have hsum : (hosts.map fun host => host.length + 6).sum = (hosts.map questionLen).sum := by
    congr 1
    exact List.map_congr_left fun host hhost => (h host hhost).questionLen.symm
  rw [hsum] at hroom
  have h12 : DnsHeader.defaultLen = 12 := rfl
  have hlen := length_hostsMessage id h
  have hreq : (hostsRequest 0 id hosts).len = (hostsMessage id hosts).length := hlen.symm
  have hwritten : ∀ host ∈ hosts, Written (fun host => (hostQuestion host).bytes) host :=
    fun host hhost => (h host hhost).written
  refine ⟨hostsMessage id hosts, _, _, _, _, udp_hosts hwritten hroom, ?_, hreq, rfl, by omega, fun tail => ?_,
    tcp_hostsMessage h hroom, ?_, Nat.add_comm _ 2⟩
  · rw [hreq]
    exact take_padded 1024 (hostsMessage id hosts) (questionsBytes hosts)
  · rw [hreq]
    exact parse_hostsMessage tail hid hne h (by omega)
  · have hfront : (hostsMessage id hosts).length + TcpRequest.sizeHeader =
        (beBytes 2 (hostsMessage id hosts).length ++ hostsMessage id hosts).length := by
      rw [List.length_append, length_beBytes]
      exact Nat.add_comm _ 2
    change (padded 1026 _).take ((hostsMessage id hosts).length + TcpRequest.sizeHeader) = _
    rw [hfront, ← List.append_assoc, take_padded]

/-- The hosts `a.b` and `c`. -/
theorem request_round_trip_at : ∃ (message m tcp : Bytes) (request tcpRequest : UdpRequest),
    UdpRequest.ofHosts 7 [[97, 46, 98], [99]] = some (m, request) ∧ m.take request.len = message ∧
      request.len = message.length ∧ request.hosts = [[97, 46, 98], [99]] ∧ message.length < 2 ^ 16 ∧
      (∀ tail, ∃ r, UdpRequest.parse (message ++ tail) request.len = some r ∧
        ReadBack 7 [[97, 46, 98], [99]] r) ∧
      TcpRequest.ofHosts 7 [[97, 46, 98], [99]] = some (tcp, tcpRequest) ∧
      tcp.take tcpRequest.len = beBytes 2 message.length ++ message ∧ tcpRequest.len = 2 + message.length :=
  request_round_trip 7 [[97, 46, 98], [99]] (by decide) (by decide) (by decide) (by decide)

end StDns.Protocol
