import StDns.Protocol.Response

/-!
# Whether the parts of a response lie in the payload

A response counts down the bytes it has left by the lengths of its parts, and takes the two bytes of a record's
`RDLENGTH` at their word. `QuestionsFit` walks over the payload with the lengths of the names that the decoder returns:
no question or record ends behind the payload. A response left valid is `Inside` the payload iff this walk fits
(`parse_inside_iff`).
-/

namespace StDns.Protocol

open Lib

/-! ## The walk over the payload -/

/-- So many records from index `i` end inside the payload of `n` bytes. -/
def RecordsFit (m : Bytes) (n : Nat) : Nat → Nat → Prop
  | 0, _ => True
  | k + 1, i => ∀ name length, (parseDomain m n i (n - i) []).ret = some name → read m (i + name + 8) 2 = some length →
      i + name + DnsResourceZone.fixedLen + length ≤ n ∧
        RecordsFit m n k (i + name + DnsResourceZone.fixedLen + length)

/-- So many questions from index `i`, or all that the bytes left hold, end inside the payload, and so do the records
behind them. -/
def QuestionsFit (m : Bytes) (n records : Nat) : Nat → Nat → Prop
  | 0, i => RecordsFit m n records i
  | k + 1, i =>
    if i < n then
      ∀ name, (parseDomain (m.drop i) (n - DnsHeader.defaultLen) 0 (n - DnsHeader.defaultLen) []).ret = some name →
        i + name + DnsQuery.defaultFlagsSize ≤ n ∧ QuestionsFit m n records k (i + name + DnsQuery.defaultFlagsSize)
    else RecordsFit m n records i

/-! ## The parts of a response -/

/-- Numbers subtracted from a counter one after the other, none of them more than is left. -/
def Subtracts : Nat → List Nat → Prop
  | _, [] => True
  | rest, x :: xs => x ≤ rest ∧ Subtracts (rest - x) xs

theorem subtracts_iff : ∀ {xs : List Nat} {n : Nat}, Subtracts n xs ↔ xs.sum ≤ n
  | [], n => by simp [Subtracts]
  | x :: xs, n => by rw [Subtracts, subtracts_iff, List.sum_cons]; omega

/-- Where the data of a record begins. -/
def DnsResourceZone.dataBegin (a : DnsResourceZone) : Nat := a.data + (a.domain.map fun d => d.len).getD 0 + fixedLen

/-- The addresses of a record were read inside its data and inside the payload. -/
def AddressesInside (m : Bytes) (n : Nat) (a : DnsResourceZone) : Prop :=
  ∀ j (hj : j < a.ipv4s.length), read m (a.dataBegin + j * 4) 4 = some a.ipv4s[j] ∧ j * 4 + 4 ≤ a.length ∧
    a.dataBegin + j * 4 + 4 ≤ n

/-- The parts of a response lie in the payload, as many records as announced, and the counter never underflows. -/
def Inside (m : Bytes) (n : Nat) (r : UdpResponse) : Prop :=
  ∃ header zone, r.header = some header ∧ r.queryZone = some zone ∧
    DnsHeader.defaultLen + zone.len + (r.answerZones.map fun a => a.len).sum ≤ n ∧
    r.answerZones.length = header.answerCount ∧
    (r.ips = r.answerZones.flatMap DnsResourceZone.ipv4s ∧ ∀ a ∈ r.answerZones, AddressesInside m n a) ∧
    Subtracts n (DnsHeader.defaultLen :: zone.len :: r.answerZones.map fun a => a.len)

section Walk

variable {m : Bytes} {n : Nat}

/-- The records of a chain and the walk over them. -/
theorem recordsFit_iff (hn : n < 2 ^ 16) : ∀ {as : List DnsResourceZone} {i : Nat}, i ≤ n →
    RecordChain m n (n - i) as → (RecordsFit m n as.length i ↔ i + (as.map fun a => a.len).sum ≤ n)
  | [], i, hi, _ => by simpa [RecordsFit] using hi
  | a :: as, i, hi, hc => by
    have h10 : DnsResourceZone.fixedLen = 10 := rfl
    have hbegin : sub64 n (n - i) = i := by rw [sub64_of_le (by omega) (by omega)]; omega
    have hwin : sub64 n i = n - i := sub64_of_le hi (by omega)
    obtain ⟨⟨ha, hav⟩, hrest⟩ := hc
    rw [hbegin] at ha
    obtain ⟨k, hk, hk0, -, -, -, hlen, hsize, -⟩ := record_parsed ha hav
    rw [hwin] at hk
    have hkle : k ≤ n - i + 1 := ret_le (by omega) (by simp) hk
    rw [u32_of_lt (by omega)] at hlen hsize
    rw [List.map_cons, List.sum_cons, List.length_cons, RecordsFit]
    have next : i + a.len ≤ n → (RecordsFit m n as.length (i + a.len) ↔
        i + a.len + (as.map fun a => a.len).sum ≤ n) := by
      intro hle
      rw [sub64_of_le (by omega) (by omega), Nat.sub_sub] at hrest
      exact recordsFit_iff hn hle hrest
    have hend : i + k + DnsResourceZone.fixedLen + a.length = i + a.len := by omega
    constructor
    · intro h
      obtain ⟨hle, hfit⟩ := h k a.length hk hlen
      rw [hend] at hle hfit
      rw [← Nat.add_assoc]
      exact (next hle).1 hfit
    · intro hsum name length hname hlength
      obtain rfl : k = name := Option.some.inj (hk.symm.trans hname)
      obtain rfl : a.length = length := Option.some.inj (hlen.symm.trans hlength)
      rw [hend]
      exact ⟨by omega, (next (by omega)).2 (by omega)⟩

/-- The addresses of a chain that ends inside the payload. -/
theorem addressesInside_of_chain (hn : n < 2 ^ 16) : ∀ {as : List DnsResourceZone} {i : Nat}, i ≤ n →
    RecordChain m n (n - i) as → i + (as.map fun a => a.len).sum ≤ n → ∀ a ∈ as, AddressesInside m n a
  | [], _, _, _, _ => by simp
  | a :: as, i, hi, hc, hsum => by
    have h10 : DnsResourceZone.fixedLen = 10 := rfl
    have hbegin : sub64 n (n - i) = i := by rw [sub64_of_le (by omega) (by omega)]; omega
    obtain ⟨⟨ha, hav⟩, hrest⟩ := hc
    rw [hbegin] at ha
    obtain ⟨k, -, -, hdata, hdom, -, -, hsize, hips⟩ := record_parsed ha hav
    rw [List.map_cons, List.sum_cons] at hsum
    rw [sub64_of_le (by omega) (by omega), Nat.sub_sub] at hrest
    rw [List.forall_mem_cons]
    refine ⟨fun j hj => ?_, addressesInside_of_chain hn (by omega) hrest (by omega)⟩
    rcases hips with ⟨-, hnil⟩ | ⟨-, h4, hread⟩
    · rw [hnil] at hj; cases hj
    · obtain ⟨hl, hget⟩ := readIpv4s_eq_some hread
      rw [DnsResourceZone.dataBegin, hdata, hdom, Option.getD_some]
      exact ⟨hget j hj, by omega, by omega⟩

/-- The questions of a chain and the walk over them. -/
theorem questionsFit_iff (records : Nat) (hn : n < 2 ^ 16) : ∀ {qs : List DnsQuery} {size i : Nat}, i ≤ n →
    DnsHeader.defaultLen ≤ i → QuestionChain m (n - DnsHeader.defaultLen) size (n - i) i qs →
    (QuestionsFit m n records size i ↔ i + (qs.map fun q => q.len).sum ≤ n ∧
      RecordsFit m n records (i + (qs.map fun q => q.len).sum))
  | [], 0, i, hi, _, _ => by simp [QuestionsFit, hi]
  | [], size + 1, i, hi, _, hc => by
    have hi' : ¬i < n := fun h => hc ⟨by omega, Nat.succ_pos size⟩
    simp [QuestionsFit, hi, hi']
  | q :: qs, 0, _, _, _, hc => absurd hc.1.1.2 (Nat.lt_irrefl 0)
  | q :: qs, size + 1, i, hi, h12, hc => by
    have h4 : DnsQuery.defaultFlagsSize = 4 := rfl
    obtain ⟨⟨⟨hpos, -⟩, hq, hqv⟩, hrest⟩ := hc
    obtain ⟨k, hk, hk0, -, hsize, -⟩ := question_parsed hq hqv
    rw [u32_of_lt (by omega)] at hk
    have hkle : k ≤ n - DnsHeader.defaultLen + 1 := ret_le (by omega) (by simp) hk
    rw [u32_of_lt (by omega)] at hsize
    rw [QuestionsFit, if_pos (by omega), List.map_cons, List.sum_cons]
    have next : i + q.len ≤ n → (QuestionsFit m n records size (i + q.len) ↔
        i + q.len + (qs.map fun q => q.len).sum ≤ n ∧
          RecordsFit m n records (i + q.len + (qs.map fun q => q.len).sum)) := by
      intro hle
      rw [sub32_of_le (by omega) (by omega), Nat.sub_sub] at hrest
      exact questionsFit_iff records hn hle (by omega) hrest
    have hend : i + k + DnsQuery.defaultFlagsSize = i + q.len := by omega
    rw [← Nat.add_assoc]
    constructor
    · intro h
      obtain ⟨hle, hfit⟩ := h k hk
      rw [hend] at hle hfit
      exact (next hle).1 hfit
    · intro h name hname
      obtain rfl : k = name := Option.some.inj (hk.symm.trans hname)
      rw [hend]
      exact ⟨by omega, (next (by omega)).2 h⟩

/-- A response whose parts end inside the payload on the walk lies in it. -/
theorem inside_of_fit {r : UdpResponse} {header : DnsHeader} (hn : n < 2 ^ 16) (h : UdpResponse.parse m n = some r)
    (hv : r.valid = true) (hh : r.header = some header) (hrc : header.responseCode = 0)
    (hfit : QuestionsFit m n header.answerCount header.questionCount DnsHeader.defaultLen) : Inside m n r := by
  obtain ⟨h12, header', qs, as, -, -, hqs, hlen, has, rfl⟩ :=
    (UdpResponse.parse_iff_chains (by omega)).1 ⟨h, hv, header, hh, hrc⟩
  obtain rfl : header' = header := Option.some.inj hh
  rw [u32_of_lt (by omega)] at hqs
  obtain ⟨hle, hrecords⟩ := (questionsFit_iff header'.answerCount hn h12.le (Nat.le_refl _) hqs).1 hfit
  have hle : DnsHeader.defaultLen + (zoneOf qs).len ≤ n := hle
  rw [sub64_of_le (by omega) (by omega), Nat.sub_sub] at has
  rw [← hlen] at hrecords
  have hsum := (recordsFit_iff hn hle has).1 hrecords
  refine ⟨header', zoneOf qs, rfl, rfl, hsum, hlen, ⟨rfl, addressesInside_of_chain hn hle has hsum⟩, ?_⟩
  rw [subtracts_iff]
  simp only [List.sum_cons]
  exact (Nat.add_assoc _ _ _) ▸ hsum

end Walk

/-- **Containment**: a response left valid without an error code lies inside the payload iff every question and every
record, with the name length that the decoder returns and the `RDLENGTH` that is written, ends inside it. -/
theorem parse_inside_iff (m : Bytes) (n : Nat) (r : UdpResponse) (header : DnsHeader) (hn : n < 2 ^ 16)
    (h : UdpResponse.parse m n = some r) (hv : r.valid = true) (hh : r.header = some header)
    (hrc : header.responseCode = 0) :
    Inside m n r ↔ QuestionsFit m n header.answerCount header.questionCount DnsHeader.defaultLen := by
  refine ⟨?_, inside_of_fit hn h hv hh hrc⟩
  rintro ⟨header₁, zone, hh₁, hz, hsum, -⟩
  obtain ⟨h12, header', qs, as, -, -, hqs, hlen, has, rfl⟩ :=
    (UdpResponse.parse_iff_chains (by omega)).1 ⟨h, hv, header, hh, hrc⟩
  obtain rfl : header' = header := Option.some.inj hh
  obtain rfl : zoneOf qs = zone := Option.some.inj hz
  have hle : DnsHeader.defaultLen + (zoneOf qs).len ≤ n := by omega
  rw [u32_of_lt (by omega)] at hqs
  rw [sub64_of_le (by omega) (by omega), Nat.sub_sub] at has
  rw [questionsFit_iff header'.answerCount hn h12.le (Nat.le_refl _) hqs, ← hlen]
  exact ⟨hle, (recordsFit_iff hn hle has).2 hsum⟩

theorem parse_inside_iff_at : ∃ r header, UdpResponse.parse oneAddress 27 = some r ∧ r.header = some header ∧
    (Inside oneAddress 27 r ↔ QuestionsFit oneAddress 27 header.answerCount header.questionCount 12) := by
  have hp : (UdpResponse.parse oneAddress 27).any (fun r => r.valid && r.header.any fun h => h.responseCode = 0) =
      true := by decide
  obtain ⟨r, hr, hp⟩ := (Option.any_eq_true _ _).1 hp
  rw [Bool.and_eq_true, Option.any_eq_true] at hp
  obtain ⟨hv, header, hh, hrc⟩ := hp
  exact ⟨r, header, hr, hh, parse_inside_iff oneAddress 27 r header (by decide) hr hv hh (of_decide_eq_true hrc)⟩

/-- The payload ends behind an `RDLENGTH` of four; the address is read from the stale bytes of the buffer. -/
theorem parse_not_inside : ¬∀ (p : Bytes) (r : UdpResponse) (header : DnsHeader), p.length ≤ 1024 →
    UdpResponse.parse (p ++ List.replicate (1024 - p.length) 0) p.length = some r → r.valid = true →
    r.header = some header → header.responseCode = 0 →
    Inside (p ++ List.replicate (1024 - p.length) 0) p.length r := by
  intro h
  let p : Bytes := oneAddress.take 23
  let parsed := UdpResponse.parse (p ++ List.replicate (1024 - p.length) 0) p.length
  have hp : parsed.any (fun r => (r.valid && r.header.any fun h => h.responseCode = 0) &&
      r.queryZone.all fun zone => 23 < 12 + zone.len + (r.answerZones.map fun a => a.len).sum) = true := by
    decide +kernel
  obtain ⟨r, hr, hp⟩ := (Option.any_eq_true _ _).1 hp
  rw [Bool.and_eq_true, Bool.and_eq_true, Option.any_eq_true] at hp
  obtain ⟨⟨hv, header, hh, hrc⟩, hlt⟩ := hp
  obtain ⟨-, zone, -, hz, hle, -⟩ := h p r header (by decide) hr hv hh (of_decide_eq_true hrc)
  rw [hz, Option.all_some, decide_eq_true_eq] at hlt
  exact absurd hle (Nat.not_le_of_lt hlt)

end StDns.Protocol
