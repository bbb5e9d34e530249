import StDns.Protocol.Stability

/-!
# Receiving an answer

What `dns_client` makes of the bytes that an upstream sends: `udp_dns` parses a datagram in a zeroed buffer,
`dns_client::parse` a payload read from a stream into a buffer that still holds other bytes. Over one buffer the two
hand on the same addresses (`udpDns_eq_parse`); over two buffers they do when the payload is parsed without a look at
what lies behind it (`same_addresses`).
-/

namespace StDns.Client

open Lib Protocol

/-- What `udp_dns` hands to its handler when `size` bytes of the buffer `m` were received. -/
def udpDns (m : Bytes) (size qid : Nat) : Option (List Nat) := do
  let dnsResponse ← UdpResponse.parse m size
  if dnsResponse.valid then
    let header ← dnsResponse.header
    return if header.id = qid then dnsResponse.ips else []
  else return []

/-- `dns_client::parse` of `length` bytes in the buffer `m`. -/
def DnsClient.parse (m : Bytes) (length dnsId : Nat) : Option (List Nat) :=
  if 0 < length ∧ length ≤ 1024 then do
    let dnsResponse ← UdpResponse.parse m length
    if dnsResponse.valid then
      let header ← dnsResponse.header
      let dnsResponse := if header.id ≠ dnsId then dnsResponse.markInvalid else dnsResponse
      let dnsResponse := if header.responseCode ≠ 0 then dnsResponse.markInvalid else dnsResponse
      return if dnsResponse.valid then dnsResponse.ips else []
    else return []
  else return []

section Paths

variable {m : Bytes} {n : Nat}

/-- A valid response has a header, and addresses only without an error code. -/
theorem response_header {r : UdpResponse} (hn : n < 2 ^ 64) (h : UdpResponse.parse m n = some r)
    (hv : r.valid = true) : ∃ header, r.header = some header ∧ (header.responseCode ≠ 0 → r.ips = []) := by
  by_cases h12 : DnsHeader.defaultLen < n
  swap
  · unfold UdpResponse.parse at h
    rw [if_neg h12] at h
    cases h; cases hv
  rw [UdpResponse.parse_eq h12 hn] at h
  obtain ⟨hd, -, h⟩ := Option.bind_eq_some_iff.1 h
  cases hd with
  | none => cases h; cases hv
  | some header =>
    simp only at h
    by_cases hrc : header.responseCode = 0
    · rw [if_pos hrc] at h
      obtain ⟨zone, -, h⟩ := Option.bind_eq_some_iff.1 h
      by_cases hzv : zone.valid = true
      · rw [if_pos hzv] at h
        obtain ⟨c, hc, rfl⟩ := Option.map_eq_some_iff.1 h
        exact ⟨header, (parseAnswers_keeps hc).1, fun h => absurd hrc h⟩
      · rw [if_neg hzv] at h
        cases h; cases hv
    · rw [if_neg hrc] at h
      cases h
      exact ⟨header, rfl, fun _ => rfl⟩

/-- **One buffer**: the datagram path and the stream path hand on the same addresses. -/
theorem udpDns_eq_parse (hn : 0 < n) (hn' : n ≤ 1024) (id : Nat) : udpDns m n id = DnsClient.parse m n id := by
  unfold udpDns DnsClient.parse
  rw [if_pos ⟨hn, hn'⟩]
  cases hr : UdpResponse.parse m n with
  | none => rfl
  | some r =>
    by_cases hv : r.valid = true
    · obtain ⟨header, hh, hips⟩ := response_header (by omega) hr hv
      simp only [Option.bind_eq_bind, Option.bind_some, if_pos hv, hh, Option.pure_def]
      by_cases hid : header.id = id
      · by_cases hrc : header.responseCode = 0
        · simp [hid, hrc, hv]
        · simp [hid, hrc, hips hrc, UdpResponse.markInvalid]
      · by_cases hrc : header.responseCode = 0
        · simp [hid, hrc, UdpResponse.markInvalid]
        · simp [hid, hrc, UdpResponse.markInvalid]
    · simp [hv]

theorem udpDns_stable (id : Nat) (hn : n < 2 ^ 64) : Stable fun m => udpDns m n id := by
  unfold udpDns
  refine Stable.bind (response_stable hn) fun _ r _ => Stable.ite ?_ (Stable.const _)
  exact Stable.bind (Stable.const r.header) fun _ _ _ => Stable.const _

/-- A parse that gives a response gives addresses. -/
theorem udpDns_isSome {r : UdpResponse} (id : Nat) (hn : n < 2 ^ 64) (h : UdpResponse.parse m n = some r) :
    ∃ ips, udpDns m n id = some ips := by
  unfold udpDns
  rw [h]
  by_cases hv : r.valid = true
  · obtain ⟨header, hh, -⟩ := response_header hn h hv
    simp [hv, hh]
  · simp [hv]

end Paths

/-- **Two runs**: a payload that is parsed without a read behind its end gives the same addresses on both paths,
whatever the buffers hold behind it. -/
theorem same_addresses (p : Bytes) (id : Nat) (hp : 0 < p.length) (hp' : p.length ≤ 1024)
    (h : UdpResponse.parse p p.length ≠ none) :
    ∃ ips, ∀ tail tail', udpDns (p ++ tail) p.length id = some ips ∧
      DnsClient.parse (p ++ tail') p.length id = some ips := by
  obtain ⟨r, hr⟩ := Option.ne_none_iff_exists'.1 h
  obtain ⟨ips, hips⟩ := udpDns_isSome id (by omega) hr
  have more : ∀ tail, udpDns (p ++ tail) p.length id = some ips := fun tail =>
    udpDns_stable id (by omega) p (p ++ tail) ips (List.prefix_append p tail) hips
  exact ⟨ips, fun tail tail' => ⟨more tail, (udpDns_eq_parse hp hp' id).symm.trans (more tail')⟩⟩

theorem same_addresses_at : ∃ ips, ∀ tail tail', udpDns (oneAddress ++ tail) 27 7 = some ips ∧
    DnsClient.parse (oneAddress ++ tail') 27 7 = some ips :=
  same_addresses oneAddress 7 (by decide) (by decide) (by decide)

/-- The payload ends before the address that its `RDLENGTH` announces: each path reads its own stale bytes. -/
theorem other_addresses : ¬∀ (p : Bytes) (id : Nat) (tail : Bytes), 0 < p.length → p.length ≤ 1024 →
    tail.length = 2048 - p.length →
    udpDns (p ++ List.replicate (1024 - p.length) 0) p.length id = DnsClient.parse (p ++ tail) p.length id := by
  intro h
  have := h (oneAddress.take 23) 7 (List.replicate 2025 1) (by decide) (by decide) (by
    rw [List.length_replicate]; decide)
  exact absurd this (by decide +kernel)

end StDns.Client
