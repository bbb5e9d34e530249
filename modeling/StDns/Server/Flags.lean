import StDns.Server.Session

/-!
# The flags of a datagram

The third and the fourth byte of a datagram hold its flags, the `QR` bit that marks an answer among them. The header
object keeps them, and nothing in the handling of a datagram looks at them. A request that is forwarded has them among
the bytes that the upstream gets: with other flags a datagram is handled alike when the upstream answers alike
(`handle_withFlags`).
-/

namespace StDns

open Lib Protocol

/-- A memory with other flags at its start. -/
def withFlags (m : Bytes) (f g : UInt8) : Bytes := (m.set 2 f).set 3 g

namespace Protocol

/-- A header with other flags. -/
def DnsHeader.withFlags (header : DnsHeader) (f g : UInt8) : DnsHeader :=
  { header with
    qr := (f &&& 0b10000000).toNat
    opcode := ((f &&& 0b01111000) >>> 3).toNat
    responseCode := (g &&& 0b1111).toNat }

@[simp] theorem DnsHeader.id_withFlags (header : DnsHeader) (f g : UInt8) : (header.withFlags f g).id = header.id := rfl

/-- A request with other flags. -/
def UdpRequest.withFlags (r : UdpRequest) (f g : UInt8) : UdpRequest :=
  { r with header := r.header.map fun header => header.withFlags f g }

section Parsing

variable {m m' : Bytes} {f g : UInt8}

@[simp] theorem length_withFlags : (withFlags m f g).length = m.length := by simp [withFlags]

theorem drop_withFlags : (withFlags m f g).drop DnsHeader.defaultLen = m.drop DnsHeader.defaultLen := by
  rw [withFlags, List.drop_set_of_lt (by decide), List.drop_set_of_lt (by decide)]

/-- Reads behind the header are the same. -/
theorem getElem?_of_drop (h : m'.drop DnsHeader.defaultLen = m.drop DnsHeader.defaultLen) {i : Nat}
    (hi : DnsHeader.defaultLen ≤ i) : m'[i]? = m[i]? := by
  obtain ⟨j, rfl⟩ := Nat.exists_eq_add_of_le hi
  rw [← List.getElem?_drop, h, List.getElem?_drop]

theorem question_of_drop (h : m'.drop DnsHeader.defaultLen = m.drop DnsHeader.defaultLen) {i : Nat} (len : Nat)
    (hi : DnsHeader.defaultLen ≤ i) : DnsQuery.parse m' i len = DnsQuery.parse m i len := by
  have hd : m'.drop i = m.drop i := by
    obtain ⟨j, rfl⟩ := Nat.exists_eq_add_of_le hi
    rw [← List.drop_drop, h, List.drop_drop]
  have hr : ∀ k, read m' (i + k) 2 = read m (i + k) 2 := by
    intro k
    unfold read
    congr 1
    funext result j
    rw [getElem?_of_drop h (by omega)]
  simp only [DnsQuery.parse, DnsDomain.parse, hd, hr]

/-- The questions depend on the bytes behind the header only. -/
theorem zone_of_drop (h : m'.drop DnsHeader.defaultLen = m.drop DnsHeader.defaultLen) (len size : Nat) :
    DnsQueryZone.ofBytes m' DnsHeader.defaultLen len size = DnsQueryZone.ofBytes m DnsHeader.defaultLen len size := by
  unfold DnsQueryZone.ofBytes
  refine loop_congr (I := fun c : ZoneCursor => DnsHeader.defaultLen ≤ c.data) ?_ ?_ _ (Nat.le_refl _)
  · intro c c' hc hr
    obtain ⟨q, -, -, -, hr'⟩ | hr' | ⟨-, hr'⟩ | ⟨-, hr'⟩ := zoneRound_cases m DnsHeader.defaultLen len size c
    · rw [hr'] at hr
      cases hr
      exact Nat.le_trans hc (Nat.le_add_right _ _)
    all_goals rw [hr'] at hr; cases hr
  · intro c hc
    unfold zoneRound
    rw [question_of_drop h len hc]

theorem header_withFlags : DnsHeader.parse (withFlags m f g) 0 DnsHeader.defaultLen =
    (DnsHeader.parse m 0 DnsHeader.defaultLen).map fun header => header.map fun header => header.withFlags f g := by
  have hget : ∀ i, i ≠ 2 → i ≠ 3 → (withFlags m f g)[i]? = m[i]? := by
    intro i h2 h3
    rw [withFlags, List.getElem?_set_ne h3.symm, List.getElem?_set_ne h2.symm]
  have hread : ∀ i, 4 ≤ i → read (withFlags m f g) i 2 = read m i 2 := by
    intro i hi
    unfold read
    congr 1
    funext result j
    rw [hget _ (by omega) (by omega)]
  have h2 : (withFlags m f g)[2]? = (m[2]?).map fun _ => f := by
    rw [withFlags, List.getElem?_set_ne (by decide), List.getElem?_set_self']; rfl
  have h3 : (withFlags m f g)[3]? = (m[3]?).map fun _ => g := by
    rw [withFlags, List.getElem?_set_self', List.getElem?_set_ne (by decide)]; rfl
  unfold DnsHeader.parse
  rw [if_pos (Nat.le_refl _), if_pos (Nat.le_refl _)]
  simp only [Nat.zero_add, hget 0 (by decide) (by decide), hget 1 (by decide) (by decide), h2, h3,
    hread 4 (by decide), hread 6 (by decide)]
  cases m[0]? <;> cases m[1]? <;> cases m[2]? <;> cases m[3]? <;> cases read m 4 2 <;> cases read m 6 2 <;> rfl

/-- **Acceptance** does not depend on the flags, and what is accepted differs in the flags of its header only. -/
theorem parse_withFlags (n : Nat) :
    UdpRequest.parse (withFlags m f g) n = (UdpRequest.parse m n).map fun r => r.withFlags f g := by
  unfold UdpRequest.parse
  by_cases hn : DnsHeader.defaultLen < n
  swap
  · rw [if_neg hn, if_neg hn]; rfl
  rw [if_pos hn, if_pos hn, header_withFlags]
  cases DnsHeader.parse m 0 DnsHeader.defaultLen with
  | none => rfl
  | some head =>
    cases head with
    | none => rfl
    | some header =>
      simp only [Option.map_some, Option.bind_eq_bind, Option.bind_some]
      rw [show (header.withFlags f g).questionCount = header.questionCount from rfl, zone_of_drop drop_withFlags]
      cases DnsQueryZone.ofBytes m DnsHeader.defaultLen (n - DnsHeader.defaultLen) header.questionCount with
      | none => rfl
      | some zone =>
        simp only [Option.bind_some]
        split
        · split <;> rfl
        · rfl

/-- The response that is built does not depend on the flags. -/
theorem ofRequest_withFlags {r : UdpRequest} (hz : ∀ zone ∈ r.queryZone, zone.data = DnsHeader.defaultLen)
    (record : DnsRecord) (expire : Nat) :
    UdpResponse.ofRequest (withFlags m f g) (r.withFlags f g) record expire =
      UdpResponse.ofRequest m r record expire := by
  unfold UdpResponse.ofRequest UdpRequest.withFlags
  have hcopy : ∀ zone ∈ r.queryZone, ∀ m' data, zone.copy (withFlags m f g) m' data = zone.copy m m' data := by
    intro zone hmem m' data
    unfold DnsQueryZone.copy slice
    rw [hz zone hmem, drop_withFlags, length_withFlags]
  cases r.header with
  | none => simp only [Option.map_none, deref, bind, Except.bind]
  | some header =>
    cases hq : r.queryZone with
    | none => simp only [Option.map_some, deref, bind, Except.bind, DnsHeader.id_withFlags]
    | some zone => simp only [Option.map_some, deref, bind, Except.bind, DnsHeader.id_withFlags, hcopy zone hq]

end Parsing

end Protocol

namespace Server

/-- A session with other flags. -/
def Session.withFlags (s : Session) (f g : UInt8) : Session :=
  { s with request := s.request.withFlags f g, buffer := StDns.withFlags s.buffer f g }

/-- Processing a session with other flags: the same outcome, with those flags in the session left. -/
def flagged (f g : UInt8) (p : Session × Bytes) : Session × Bytes := (p.1.withFlags f g, p.2)

/-- The response of a session does not depend on its flags. -/
def Unflagged (s : Session) : Prop :=
  ∀ f g record expire, UdpResponse.ofRequest (StDns.withFlags s.buffer f g) (s.request.withFlags f g) record expire =
    UdpResponse.ofRequest s.buffer s.request record expire

section Handling

variable (config : Config) (world : World) {s : Session} {f g : UInt8}

theorem map_some_flagged (e : Except Fault (Session × Bytes)) :
    some <$> e.map (flagged f g) = (some <$> e).map (Option.map (flagged f g)) := by
  cases e <;> rfl

theorem complete_withFlags (h : Unflagged s) :
    complete config (s.withFlags f g) = (complete config s).map (flagged f g) := by
  obtain ⟨request, buffer, record, processType, response⟩ := s
  unfold complete
  simp only [Session.withFlags, h f g record]
  cases response with
  | some b => rfl
  | none => cases UdpResponse.ofRequest buffer request record (calExpire config record) <;> rfl

theorem answer_withFlags (h : Unflagged s) (record : DnsRecord) :
    answer config (s.withFlags f g) record = (answer config s record).map (flagged f g) := by
  unfold answer
  simp only [Session.withFlags, h f g record]
  cases UdpResponse.ofRequest s.buffer s.request record (calExpire config record) with
  | error f => rfl
  | ok b => exact complete_withFlags config (s := { s with record := record, response := some b }) h

theorem queryDnsRecord_withFlags (h : Unflagged s) :
    queryDnsRecord config world (s.withFlags f g) = (queryDnsRecord config world s).map (flagged f g) := by
  unfold queryDnsRecord
  rw [show queriedRecord world (s.withFlags f g) = queriedRecord world s from rfl]
  cases queriedRecord world s with
  | error f => rfl
  | ok record => exact answer_withFlags config h record

/-- The upstream that requests are forwarded to answers these alike: `n` bytes of the buffer, with these flags and with
their own. -/
def AnswersAlike (m : Bytes) (n : Nat) (f g : UInt8) : Prop :=
  ∀ server address, forwardServer config = some server → world.makeAddressV4 server.ip = some address →
    world.forwarded address server.port ((StDns.withFlags m f g).take n) =
      world.forwarded address server.port (m.take n)

theorem forwardUdp_withFlags {server : RemoteDnsServer} (hserver : forwardServer config = some server)
    (ha : AnswersAlike config world s.buffer s.request.len f g) :
    forwardUdp world server (s.withFlags f g) = forwardUdp world server s := by
  unfold forwardUdp
  cases haddress : world.makeAddressV4 server.ip with
  | none => rfl
  | some address => exact congrArg Except.ok (ha server address hserver haddress)

theorem forwardDnsRequest_withFlags (h : Unflagged s) (ha : AnswersAlike config world s.buffer s.request.len f g) :
    forwardDnsRequest config world (s.withFlags f g) =
      (forwardDnsRequest config world s).map (Option.map (flagged f g)) := by
  have hc : some <$> complete config (s.withFlags f g) =
      (some <$> complete config s).map (Option.map (flagged f g)) := by
    rw [complete_withFlags config h, map_some_flagged]
  unfold forwardDnsRequest
  cases hserver : forwardServer config with
  | none => exact hc
  | some server =>
    simp only [forwardUdp_withFlags config world hserver ha]
    cases forwardUdp world server s with
    | error f => rfl
    | ok forwarded =>
      cases forwarded with
      | failed => exact hc
      | received buffer size =>
        by_cases hsize : 0 < size
        · simp only [bind, Except.bind, if_pos hsize]
          rfl
        · simp only [bind, Except.bind, if_neg hsize]
          rfl

/-- The request is forwarded. -/
def Forwards (r : UdpRequest) : Prop :=
  ∃ queryType, getQueryType r = .ok queryType ∧ queryType ≠ QueryType.a ∧ queryType ≠ QueryType.aaaa

theorem processSession_withFlags (h : Unflagged s)
    (ha : Forwards s.request → AnswersAlike config world s.buffer s.request.len f g) :
    processSession config world (s.withFlags f g) =
      (processSession config world s).map (Option.map (flagged f g)) := by
  let t : Session := { s with record := { s.record with domain := s.request.getHost } }
  have hv : getQueryTypeValue (s.withFlags f g).request = getQueryTypeValue s.request := rfl
  have ht : getQueryType (s.withFlags f g).request = getQueryType s.request := rfl
  simp only [processSession, hv, ht]
  cases getQueryTypeValue s.request with
  | error f => rfl
  | ok value =>
    cases htype : getQueryType s.request with
    | error f => rfl
    | ok queryType =>
      simp only [bind, Except.bind]
      split
      · have hq := queryDnsRecord_withFlags config world (s := t) (f := f) (g := g) h
        exact (congrArg (some <$> ·) hq).trans (map_some_flagged _)
      · rename_i hne
        split
        · have hc := complete_withFlags config (s := { t with processType := .drop }) (f := f) (g := g) h
          exact (congrArg (some <$> ·) hc).trans (map_some_flagged _)
        · rename_i hne'
          exact forwardDnsRequest_withFlags config world (s := { t with processType := .forward }) h
            (ha ⟨queryType, htype, hne, hne'⟩)

/-- **Flags**: whatever they are, the `QR` bit among them, a datagram is handled alike; when it is forwarded, if it is
answered alike. -/
theorem handle_withFlags (m : Bytes) (size : Nat)
    (ha : ∀ r, UdpRequest.parse m size = some r → Forwards r → AnswersAlike config world m size f g) :
    handle config world (StDns.withFlags m f g) size = handle config world m size := by
  unfold handle
  split
  swap
  · rfl
  rw [parse_withFlags]
  cases hp : UdpRequest.parse m size with
  | none => simp only [Option.map_none, inBounds, bind, Except.bind]
  | some r =>
    simp only [Option.map_some, inBounds, bind, Except.bind]
    by_cases hv : r.valid = true
    swap
    · rw [if_neg hv, if_neg (show ¬(r.withFlags f g).valid = true from hv)]
      rfl
    rw [if_pos hv, if_pos (show (r.withFlags f g).valid = true from hv)]
    have hu : Unflagged { Session.fresh m with request := r } := by
      intro f g record expire
      refine ofRequest_withFlags (fun zone hz => ?_) record expire
      obtain ⟨-, zone', -, -, hz', hdata, -⟩ := accepted_parts hp hv
      rw [Option.mem_def, hz', Option.some.injEq] at hz
      rw [← hz, hdata]
    have halike : Forwards r → AnswersAlike config world m r.len f g := by
      rw [len_of_parse hp]
      exact ha r hp
    have hps := processSession_withFlags config world (f := f) (g := g) hu halike
    rw [show ({ Session.fresh (StDns.withFlags m f g) with request := r.withFlags f g } : Session) =
      Session.withFlags { Session.fresh m with request := r } f g from rfl, hps]
    cases processSession config world { Session.fresh m with request := r } with
    | error f => rfl
    | ok p =>
      cases p with
      | none => rfl
      | some p => rfl

end Handling

end Server

end StDns
