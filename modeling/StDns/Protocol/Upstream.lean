import StDns.Protocol.GenerateExact

/-!
# The query for one host

`udp_request` and `tcp_request` are built from one host when the server asks upstream. `init_eq_some` goes through the
writes of `udp_request::init` in order, and `init_isSome_iff` says when all of them lie in the buffer.
-/

namespace StDns.Protocol

open Lib Wire

section Init

variable {m m' host bytes : Bytes} {data id : Nat}

/-- The length of the question for a host. -/
def questionLen (host : Bytes) : Nat := u32 (finalDataLen host) + DnsQuery.defaultFlagsSize

/-- The question for a host at `data`. -/
def hostQuery (data : Nat) (host : Bytes) : DnsQuery :=
  { data := data
    len := questionLen host
    domain := some { data := data, len := u32 (finalDataLen host), domain := host } }

/-- The request object for a host whose buffer begins at `data`. -/
def hostRequest (data id : Nat) (host : Bytes) : UdpRequest :=
  let start := data + DnsHeader.defaultLen
  { data := 0
    len := DnsHeader.defaultLen + questionLen host
    header := some { data := data, len := DnsHeader.defaultLen, id := id, answerCount := 0, questionCount := 0,
                     responseCode := 0, qr := 0, opcode := 0 }
    queryZone := some { data := start + questionLen host, len := questionLen host, querys := [hostQuery start host],
                        hosts := [host] }
    hosts := [host] }

theorem generateDomain_eq_some {query : DnsQuery} : DnsQuery.generateDomain m data host = some (m', query) ↔
    ∃ bytes m₁, nameBytes host = some bytes ∧ store m data bytes = some m₁ ∧
      store m₁ (data + u32 (finalDataLen host)) DnsQuery.defaultFlags = some m' ∧ query = hostQuery data host := by
  simp only [DnsQuery.generateDomain, DnsDomain.generate, Option.bind_eq_bind, Option.pure_def, Option.bind_eq_some_iff,
    Option.some.injEq, Prod.exists, Prod.mk.injEq]
  constructor
  · rintro ⟨_, _, ⟨bytes, hbytes, m₁, hm₁, rfl, rfl⟩, m₂, hm₂, rfl, rfl⟩
    exact ⟨bytes, m₁, hbytes, hm₁, hm₂, rfl⟩
  · rintro ⟨bytes, m₁, hbytes, hm₁, hm₂, rfl⟩
    exact ⟨_, _, ⟨bytes, hbytes, m₁, hm₁, rfl, rfl⟩, _, hm₂, rfl, rfl⟩

theorem generateZone_eq_some {zone : DnsQueryZone} : DnsQueryZone.generate m data [host] = some (m', zone) ↔
    ∃ m₁ query question, DnsQuery.generateDomain m data host = some (m₁, query) ∧
      slice m₁ query.data query.len = some question ∧ store m₁ (data + query.len) question = some m' ∧
      zone = { data := data + query.len, len := query.len, querys := [query], hosts := [host] } := by
  simp only [DnsQueryZone.generate, generateDomains, Option.bind_eq_bind, Option.pure_def, Option.bind_eq_some_iff,
    Option.some.injEq, Prod.exists, Prod.mk.injEq]
  constructor
  · rintro ⟨_, _, ⟨m₁, query, hquery, _, _, ⟨rfl, rfl⟩, rfl, rfl⟩, m₂, hcopy, rfl, rfl⟩
    simp only [List.map_cons, List.map_nil, List.sum_cons, List.sum_nil, Nat.add_zero, copyDomains,
      Option.bind_eq_bind, Option.bind_eq_some_iff, Option.some.injEq] at hcopy ⊢
    obtain ⟨question, hslice, _, hstore, rfl⟩ := hcopy
    exact ⟨m₁, query, question, hquery, hslice, hstore, rfl⟩
  · rintro ⟨m₁, query, question, hquery, hslice, hstore, rfl⟩
    refine ⟨_, _, ⟨m₁, query, hquery, _, _, ⟨rfl, rfl⟩, rfl, rfl⟩, m', ?_, rfl, rfl⟩
    simp only [copyDomains, Option.bind_eq_bind, Option.bind_eq_some_iff, Option.some.injEq]
    exact ⟨question, hslice, m', hstore, rfl⟩

/-- **The writes** of a query for one host: the header, the name, its type and class, and all of the question once more
behind it. -/
theorem init_eq_some {r : UdpRequest} : UdpRequest.init m data id [host] = some (m', r) ↔
    ∃ bytes m₁ m₂ m₃ question, store m data (DnsHeader.initBytes id 1 0 0 false) = some m₁ ∧
      nameBytes host = some bytes ∧ store m₁ (data + DnsHeader.defaultLen) bytes = some m₂ ∧
      store m₂ (data + DnsHeader.defaultLen + u32 (finalDataLen host)) DnsQuery.defaultFlags = some m₃ ∧
      slice m₃ (data + DnsHeader.defaultLen) (questionLen host) = some question ∧
      store m₃ (data + DnsHeader.defaultLen + questionLen host) question = some m' ∧ r = hostRequest data id host := by
  simp only [UdpRequest.init, DnsHeader.generateQuery, Option.bind_eq_bind, Option.pure_def, Option.bind_eq_some_iff,
    Option.map_eq_some_iff, Option.some.injEq, Prod.exists, Prod.mk.injEq, generateZone_eq_some,
    generateDomain_eq_some]
  constructor
  · rintro ⟨_, _, ⟨m₁, hm₁, rfl, rfl⟩, _, _, ⟨m₃, _, question, ⟨bytes, m₂, hbytes, hm₂, hm₃, rfl⟩, hslice, hstore, rfl⟩,
      rfl, rfl⟩
    exact ⟨bytes, m₁, m₂, m₃, question, hm₁, hbytes, hm₂, hm₃, hslice, hstore, rfl⟩
  · rintro ⟨bytes, m₁, m₂, m₃, question, hm₁, hbytes, hm₂, hm₃, hslice, hstore, rfl⟩
    exact ⟨_, _, ⟨m₁, hm₁, rfl, rfl⟩, _, _, ⟨m₃, _, question, ⟨bytes, m₂, hbytes, hm₂, hm₃, rfl⟩, hslice, hstore, rfl⟩,
      rfl, rfl⟩

theorem le_of_store {i : Nat} (h : store m i bytes = some m') : i + bytes.length ≤ m.length :=
  store_isSome_iff.1 (by rw [h]; rfl)

theorem length_of_slice {i n : Nat} (h : slice m i n = some bytes) : bytes.length = n := by
  unfold slice at h
  split at h
  · cases h
    rw [List.length_take, List.length_drop]
    omega
  · cases h

/-- **Room**: the writes of a query lie in the buffer iff the name does and the question does twice. -/
theorem init_isSome_iff (m : Bytes) (data id : Nat) (host : Bytes) : (UdpRequest.init m data id [host]).isSome ↔
    ∃ bytes, nameBytes host = some bytes ∧ data + DnsHeader.defaultLen + bytes.length ≤ m.length ∧
      data + DnsHeader.defaultLen + 2 * questionLen host ≤ m.length := by
  have hheader : (DnsHeader.initBytes id 1 0 0 false).length = DnsHeader.defaultLen := length_initBytes ..
  have hflags : u32 (finalDataLen host) + DnsQuery.defaultFlags.length = questionLen host := rfl
  rw [Option.isSome_iff_exists]
  simp only [Prod.exists, init_eq_some]
  constructor
  · rintro ⟨m', r, bytes, m₁, m₂, m₃, question, hm₁, hbytes, hm₂, hm₃, hslice, hm', -⟩
    have hle₂ := le_of_store hm₂
    have hle := le_of_store hm'
    rw [length_store hm₁] at hle₂
    rw [length_of_slice hslice, length_store hm₃, length_store hm₂, length_store hm₁] at hle
    exact ⟨bytes, hbytes, hle₂, by omega⟩
  · rintro ⟨bytes, hbytes, hname, hroom⟩
    obtain ⟨m₁, hm₁⟩ := store_isSome m data (DnsHeader.initBytes id 1 0 0 false) (by omega)
    have hlen₁ := length_store hm₁
    obtain ⟨m₂, hm₂⟩ := store_isSome m₁ (data + DnsHeader.defaultLen) bytes (by omega)
    have hlen₂ := length_store hm₂
    obtain ⟨m₃, hm₃⟩ := store_isSome m₂ (data + DnsHeader.defaultLen + u32 (finalDataLen host)) DnsQuery.defaultFlags
      (by omega)
    have hlen₃ := length_store hm₃
    obtain ⟨question, hslice⟩ : ∃ question,
        slice m₃ (data + DnsHeader.defaultLen) (questionLen host) = some question := by
      unfold slice
      rw [if_pos (by omega)]
      exact ⟨_, rfl⟩
    have hquestion := length_of_slice hslice
    obtain ⟨m', hm'⟩ := store_isSome m₃ (data + DnsHeader.defaultLen + questionLen host) question (by omega)
    exact ⟨m', _, bytes, m₁, m₂, m₃, question, hm₁, hbytes, hm₂, hm₃, hslice, hm', rfl⟩

end Init

/-! ## What a build may touch -/

/-- Both queries for a host are built: characters of the host are read and the objects' own buffers written, and the
name takes the bytes that it declares. -/
def Buildable (host : Bytes) : Prop :=
  ∀ id, (UdpRequest.ofHosts id [host]).isSome ∧ (TcpRequest.ofHosts id [host]).isSome ∧
    ∃ bytes, nameBytes host = some bytes ∧ bytes.length = finalDataLen host

/-- Either query is built iff `init` has the room it needs in 1024 bytes. -/
theorem ofHosts_isSome_iff (id : Nat) (host : Bytes) :
    ((UdpRequest.ofHosts id [host]).isSome ∧ (TcpRequest.ofHosts id [host]).isSome) ↔
      ∃ bytes, nameBytes host = some bytes ∧ DnsHeader.defaultLen + bytes.length ≤ 1024 ∧
        DnsHeader.defaultLen + 2 * questionLen host ≤ 1024 := by
  have hudp : (UdpRequest.ofHosts id [host]).isSome ↔ _ := init_isSome_iff (List.replicate 1024 0) 0 id host
  have htcp : (TcpRequest.ofHosts id [host]).isSome ↔
      (UdpRequest.init (List.replicate (1024 + TcpRequest.sizeHeader) 0) 2 id [host]).isSome := by
    rw [TcpRequest.ofHosts]
    cases hinit : UdpRequest.init (List.replicate (1024 + TcpRequest.sizeHeader) 0) 2 id [host] with
    | none => rfl
    | some built =>
      obtain ⟨m', r⟩ := built
      obtain ⟨_, m₁, m₂, m₃, question, hm₁, -, hm₂, hm₃, -, hm', -⟩ := init_eq_some.1 hinit
      have hlen : m'.length = 1026 := by
        rw [length_store hm', length_store hm₃, length_store hm₂, length_store hm₁, List.length_replicate]
        rfl
      obtain ⟨m'', hm''⟩ := store_isSome m' 0 (writeBytes 2 (r.len % 2 ^ 16)) (by
        rw [hlen]
        exact (by decide : 0 + 2 ≤ 1026))
      simp only [Option.bind_eq_bind, Option.bind_some, hm'']
      rfl
  rw [hudp, htcp, init_isSome_iff, List.length_replicate, List.length_replicate, TcpRequest.sizeHeader]
  constructor
  · rintro ⟨⟨bytes, hbytes, hname, hroom⟩, -⟩
    exact ⟨bytes, hbytes, by omega, by omega⟩
  · rintro ⟨bytes, hbytes, hname, hroom⟩
    exact ⟨⟨bytes, hbytes, by omega, by omega⟩, bytes, hbytes, by omega, by omega⟩

/-- A host of short labels can be sent upstream iff it is written as it is. -/
theorem buildable_iff {host : Bytes} (hz : (0 : UInt8) ∉ host) (h63 : ∀ piece ∈ host.splitOn dot, piece.length ≤ 63) :
    Buildable host ↔ Encodable host := by
  have hlen := finalDataLen_eq hz
  have h4 : questionLen host = u32 (finalDataLen host) + 4 := rfl
  have h12 : DnsHeader.defaultLen = 12 := rfl
  constructor
  · intro h
    obtain ⟨hudp, htcp, bytes, hbytes, hexact⟩ := h 0
    obtain ⟨bytes', hbytes', hname, hroom⟩ := (ofHosts_isSome_iff 0 host).1 ⟨hudp, htcp⟩
    obtain rfl := Option.some.inj (hbytes.symm.trans hbytes')
    rw [h4, u32_of_lt (by omega)] at hroom
    exact (nameBytes_iff hz (by omega) h63).1 ⟨bytes, hbytes, hexact⟩
  · intro h id
    obtain ⟨bytes, hbytes, hexact⟩ := (nameBytes_iff hz h.1 h63).2 h
    have h500 := h.1
    have hsome := (ofHosts_isSome_iff id host).2 ⟨bytes, hbytes, by omega, by rw [h4, u32_of_lt (by omega)]; omega⟩
    exact ⟨hsome.1, hsome.2, bytes, hbytes, hexact⟩

end StDns.Protocol
