import StDns.Protocol.Upstream
import Mathlib.Algebra.BigOperators.Group.List.Basic

/-!
# What the constructors write for hosts

`udp_request` and `tcp_request` write the header, the questions of all hosts, and the questions a second time. For
hosts whose names are written with the lengths that they declare, the memory is known byte by byte (`udp_hosts`,
`tcp_hosts`).
-/

namespace StDns.Protocol

open Lib Wire

/-- The objects of the questions, the first of them at `data`. -/
def hostQueries : Nat → List Bytes → List DnsQuery
  | _, [] => []
  | data, host :: hosts => hostQuery data host :: hostQueries (data + questionLen host) hosts

/-- The object that `init` leaves at `data` behind what the memory begins with. -/
def hostsRequest (data id : Nat) (hosts : List Bytes) : UdpRequest :=
  let start := data + DnsHeader.defaultLen
  let size := (hosts.map questionLen).sum
  { data := 0
    len := DnsHeader.defaultLen + size
    header := some { data := data, len := DnsHeader.defaultLen, id := id, answerCount := 0, questionCount := 0,
                     responseCode := 0, qr := 0, opcode := 0 }
    queryZone := some { data := start + size, len := size, querys := hostQueries start hosts, hosts := hosts }
    hosts := hosts }

/-- The bytes of a question are what is written for a host, with the length it declares. -/
def Written (question : Bytes → Bytes) (host : Bytes) : Prop :=
  ∃ bytes, nameBytes host = some bytes ∧ bytes.length = u32 (finalDataLen host) ∧
    bytes ++ DnsQuery.defaultFlags = question host

section Hosts

variable {question : Bytes → Bytes} {size id : Nat} {front : Bytes} {hosts : List Bytes}

theorem Written.length {host : Bytes} (h : Written question host) : (question host).length = questionLen host := by
  obtain ⟨bytes, -, hlen, hquestion⟩ := h
  rw [← hquestion, List.length_append, hlen]
  rfl

theorem length_questions (h : ∀ host ∈ hosts, Written question host) :
    (hosts.flatMap question).length = (hosts.map questionLen).sum := by
  rw [List.length_flatMap]
  congr 1
  exact List.map_congr_left fun host hhost => (h host hhost).length

/-- One question behind what was written so far. -/
theorem generateDomain_padded {host : Bytes} (h : Written question host)
    (hroom : front.length + questionLen host ≤ size) :
    DnsQuery.generateDomain (padded size front) front.length host =
      some (padded size (front ++ question host), hostQuery front.length host) := by
  obtain ⟨bytes, hbytes, hlen, hquestion⟩ := h
  have hflags : DnsQuery.defaultFlags.length = 4 := rfl
  have hsize : questionLen host = bytes.length + 4 := by rw [hlen]; rfl
  refine generateDomain_eq_some.2 ⟨bytes, padded size (front ++ bytes), hbytes, store_padded (by omega), ?_, rfl⟩
  rw [← hlen, ← List.length_append, ← hquestion, ← List.append_assoc]
  exact store_padded (by rw [List.length_append]; omega)

/-- The first loop writes the questions one behind the other. -/
theorem generateDomains_padded (front : Bytes) (h : ∀ host ∈ hosts, Written question host)
    (hroom : front.length + (hosts.map questionLen).sum ≤ size) :
    generateDomains hosts (padded size front) front.length =
      some (padded size (front ++ hosts.flatMap question), hostQueries front.length hosts) := by
  induction hosts generalizing front with
  | nil => simp [generateDomains, hostQueries]
  | cons host hosts ih =>
    obtain ⟨hhost, hhosts⟩ := List.forall_mem_cons.1 h
    rw [List.map_cons, List.sum_cons] at hroom
    have hnext : (front ++ question host).length = front.length + questionLen host := by
      rw [List.length_append, hhost.length]
    have hrest := ih (front ++ question host) hhosts (by omega)
    rw [hnext] at hrest
    rw [generateDomains, generateDomain_padded hhost (by omega)]
    simp only [Option.bind_eq_bind, Option.bind_some]
    rw [show (hostQuery front.length host).len = questionLen host from rfl, hrest]
    simp [hostQueries]

/-- The second loop writes the questions, which stand behind `front`, once more behind everything. -/
theorem copyDomains_padded {data : Nat} (curLen : Nat) (front post : Bytes)
    (h : ∀ host ∈ hosts, Written question host)
    (hat : data + curLen = (front ++ hosts.flatMap question ++ post).length)
    (hroom : data + curLen + (hosts.map questionLen).sum ≤ size) :
    copyDomains data (hostQueries front.length hosts) (padded size (front ++ hosts.flatMap question ++ post)) curLen =
      some (padded size (front ++ hosts.flatMap question ++ post ++ hosts.flatMap question)) := by
  induction hosts generalizing front post curLen with
  | nil => simp [copyDomains, hostQueries]
  | cons host hosts ih =>
    obtain ⟨hhost, hhosts⟩ := List.forall_mem_cons.1 h
    rw [List.map_cons, List.sum_cons] at hroom
    have hquestion : (question host).length = questionLen host := hhost.length
    have hpos : 0 < questionLen host := Nat.succ_pos _
    have hcons : (host :: hosts).flatMap question = question host ++ hosts.flatMap question := rfl
    have hshift : ∀ tail, front ++ (host :: hosts).flatMap question ++ tail =
        (front ++ question host) ++ hosts.flatMap question ++ tail := by
      intro tail
      rw [hcons]
      simp only [List.append_assoc]
    have hslice : slice (padded size (front ++ (host :: hosts).flatMap question ++ post)) front.length
        (questionLen host) = some (question host) := by
      have hholds := holds_padded size (front ++ (question host ++ (hosts.flatMap question ++ post)))
      have hmid := (holds_append.1 (holds_append.1 hholds).2).1.slice (List.length_pos_iff.1 (by omega))
      rw [hquestion, Nat.zero_add] at hmid
      rw [hshift]
      simpa only [List.append_assoc] using hmid
    have hstore : store (padded size (front ++ (host :: hosts).flatMap question ++ post)) (data + curLen)
        (question host) = some (padded size (front ++ (host :: hosts).flatMap question ++ post ++ question host)) := by
      rw [hat]
      exact store_padded (by rw [← hat]; omega)
    have hnext : (front ++ question host).length = front.length + questionLen host := by
      rw [List.length_append, hquestion]
    have hrest := ih (curLen + questionLen host) (front ++ question host) (post ++ question host) hhosts (by
        rw [← hshift, ← List.append_assoc, List.length_append, ← hat, hquestion]
        omega) (by omega)
    rw [hnext, ← hshift] at hrest
    rw [hostQueries, copyDomains]
    simp only [Option.bind_eq_bind]
    change (slice _ front.length (questionLen host)).bind _ = _
    rw [hslice, Option.bind_some, hstore, Option.bind_some]
    change copyDomains data _ _ (curLen + questionLen host) = _
    rw [List.append_assoc _ post, hrest, hcons]
    simp only [List.append_assoc]

theorem sum_hostQueries : ∀ (hosts : List Bytes) (data : Nat),
    ((hostQueries data hosts).map fun query => query.len).sum = (hosts.map questionLen).sum
  | [], _ => rfl
  | host :: hosts, data => by
    rw [hostQueries, List.map_cons, List.sum_cons, sum_hostQueries hosts, List.map_cons, List.sum_cons]
    rfl

/-- **The writes** of `init`: the header, the questions, and the questions once more. -/
theorem init_hosts (h : ∀ host ∈ hosts, Written question host)
    (hroom : front.length + DnsHeader.defaultLen + 2 * (hosts.map questionLen).sum ≤ size) :
    UdpRequest.init (padded size front) front.length id hosts =
      some (padded size (front ++ (DnsHeader.initBytes id hosts.length 0 0 false ++ hosts.flatMap question) ++
        hosts.flatMap question), hostsRequest front.length id hosts) := by
  let header := DnsHeader.initBytes id hosts.length 0 0 false
  have hheader : header.length = DnsHeader.defaultLen := length_initBytes ..
  have hstart : (front ++ header).length = front.length + DnsHeader.defaultLen := by rw [List.length_append, hheader]
  have hstore : store (padded size front) front.length header = some (padded size (front ++ header)) :=
    store_padded (by omega)
  have hfirst : generateDomains hosts (padded size (front ++ header)) (front ++ header).length = _ :=
    generateDomains_padded _ h (by omega)
  have hsecond : copyDomains (front.length + DnsHeader.defaultLen + (hosts.map questionLen).sum)
      (hostQueries (front ++ header).length hosts)
      (padded size (front ++ header ++ hosts.flatMap question ++ [])) 0 = _ :=
    copyDomains_padded 0 (front ++ header) [] h
      (by rw [List.append_nil, List.length_append, hstart, length_questions h]; rfl) (by omega)
  rw [hstart] at hfirst
  rw [hstart, List.append_nil] at hsecond
  simp only [UdpRequest.init, DnsHeader.generateQuery, DnsQueryZone.generate, Option.bind_eq_bind, Option.pure_def]
  rw [hstore]
  simp only [Option.map_some, Option.bind_some, hfirst, sum_hostQueries, hsecond]
  rw [List.append_assoc front]
  rfl

/-- The request over UDP: the message, and the questions once more. -/
theorem udp_hosts (h : ∀ host ∈ hosts, Written question host)
    (hroom : DnsHeader.defaultLen + 2 * (hosts.map questionLen).sum ≤ 1024) :
    UdpRequest.ofHosts id hosts =
      some (padded 1024 (DnsHeader.initBytes id hosts.length 0 0 false ++ hosts.flatMap question ++
        hosts.flatMap question), hostsRequest 0 id hosts) := by
  have hinit : UdpRequest.init (padded 1024 []) ([] : Bytes).length id hosts = _ :=
    init_hosts h (by rw [List.length_nil]; omega)
  rw [padded_nil, List.nil_append, List.length_nil] at hinit
  exact hinit

/-- The request over TCP: its length in front of the same bytes. -/
theorem tcp_hosts (h : ∀ host ∈ hosts, Written question host)
    (hroom : DnsHeader.defaultLen + 2 * (hosts.map questionLen).sum ≤ 1024) :
    TcpRequest.ofHosts id hosts =
      some (padded 1026 (writeBytes 2 ((hostsRequest 2 id hosts).len % 2 ^ 16) ++
        (DnsHeader.initBytes id hosts.length 0 0 false ++ hosts.flatMap question ++ hosts.flatMap question)),
        { hostsRequest 2 id hosts with len := (hostsRequest 2 id hosts).len + TcpRequest.sizeHeader }) := by
  have hinit : UdpRequest.init (padded 1026 [0, 0]) ([0, 0] : Bytes).length id hosts = _ :=
    init_hosts h (by rw [List.length_cons, List.length_singleton]; omega)
  have hle : ([0, 0] ++ (DnsHeader.initBytes id hosts.length 0 0 false ++ hosts.flatMap question ++
      hosts.flatMap question)).length ≤ 1026 := by
    rw [List.length_append, List.length_append, List.length_append, length_initBytes, length_questions h,
      List.length_cons, List.length_singleton]
    omega
  have hstore := store_padded_front [0, 0] (writeBytes 2 ((hostsRequest 2 id hosts).len % 2 ^ 16)) rfl hle
  rw [TcpRequest.ofHosts]
  change (UdpRequest.init (padded 1026 [0, 0]) ([0, 0] : Bytes).length id hosts).bind _ = _
  rw [hinit, Option.bind_some, List.append_assoc]
  change (store _ 0 (writeBytes 2 ((hostsRequest 2 id hosts).len % 2 ^ 16))).bind _ = _
  rw [hstore]
  rfl

end Hosts

end StDns.Protocol
