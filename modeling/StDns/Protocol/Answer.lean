import StDns.Protocol.ResponseExact

/-!
# Building responses

The constructor of `udp_response` from a request and a record. It fails with a `Fault` where C++ leaves the behaviour
undefined: on the header of a request that has none, and on bytes outside a buffer. On a request
whose questions lie in the buffer it succeeds, and has written then a header with the `QR` bit set and the questions
byte for byte (`ofRequest_ok`); on any other it reads outside (`ofRequest_fault`).
-/

namespace StDns.Protocol

open Lib Wire

/-- How an access goes wrong, or a call: with an exception that nothing catches. -/
inductive Fault where
  | nullPointer
  | outOfBounds
  | exception
  deriving DecidableEq

/-- A pointer that is dereferenced. -/
def deref {α : Type} : Option α → Except Fault α
  | some a => .ok a
  | none => .error .nullPointer

/-- An access that must lie inside its memory. -/
def inBounds {α : Type} : Option α → Except Fault α
  | some a => .ok a
  | none => .error .outOfBounds

/-- A call that may throw. -/
def unlessThrown {α : Type} : Option α → Except Fault α
  | some a => .ok a
  | none => .error .exception

/-- `dns_record`. -/
structure DnsRecord where
  ips : List Nat := []
  expireTime : Nat := 0
  server : Bytes := []
  domain : Bytes := []
  servers : List Bytes := []
  expire : Bool := false
  matchArea : Bool := false
  trustedIpCount : UInt32 := 0
  totalIpCount : UInt32 := 0
  deriving DecidableEq

/-! ## The parts -/

/-- The twelve bytes that `dns_header::init` writes. -/
def DnsHeader.initBytes (id hostCount additionalCount answerCount : Nat) (isAnswer : Bool) : Bytes :=
  let tmpData := [id, if isAnswer then 0x8000 ||| 0x0080 else 0x0100, hostCount, answerCount, 0, additionalCount]
  tmpData.flatMap fun t => [UInt8.ofNat ((t &&& 0xFF00) >>> 8), UInt8.ofNat (t &&& 0xFF)]

/-- `dns_header::generateAnswer` into the memory `m` at `data`. Of the object only the identifier is set. -/
def DnsHeader.generateAnswer (m : Bytes) (data id hostCount answerCount : Nat) : Option (Bytes × DnsHeader) :=
  (store m data (initBytes id hostCount 0 answerCount true)).map fun m =>
    (m, { data := data
          len := defaultLen
          id := id
          answerCount := 0
          questionCount := 0
          responseCode := 0
          qr := 0
          opcode := 0 })

/-- `dns_query_zone::copy` from the memory `from'` into `m` at `data`. -/
def DnsQueryZone.copy (zone : DnsQueryZone) (from' m : Bytes) (data : Nat) : Option (Bytes × DnsQueryZone) := do
  let bytes ← slice from' zone.data zone.len
  let m ← store m data bytes
  return (m, { data := data, len := zone.len, querys := [] })

def DnsResourceZone.defaultSingleIpLen : Nat := 2 + 2 + 2 + 4 + 2 + 4
def DnsResourceZone.maxLen : Nat := 512

/-- The bytes that `dns_resource_zone::generate` writes: a pointer to the name behind the header, then the fields. -/
def DnsResourceZone.generateBytes (ip expire : Nat) : Bytes :=
  [0b11000000, UInt8.ofNat DnsHeader.defaultLen] ++ writeBytes 2 QueryType.a ++ writeBytes 2 1 ++ writeBytes 4 expire ++
    writeBytes 2 4 ++ writeBytes 4 ip

/-- `dns_resource_zone::generate` into the memory `m` at `data`. -/
def DnsResourceZone.generate (m : Bytes) (data ip expire : Nat) : Option (Bytes × DnsResourceZone) :=
  (store m data (generateBytes ip expire)).map fun m =>
    (m, { data := data
          len := defaultSingleIpLen
          type := QueryType.a
          resource := 1
          liveTime := expire
          ipv4s := [ip] })

/-! ## `udp_response` from a request -/

/-- The variables of the constructor. -/
structure BuildCursor where
  buffer : Bytes
  curData : Nat
  finalLen : Nat
  response : UdpResponse

/-- The loop over the addresses. -/
def addAnswers (expire : Nat) : List Nat → BuildCursor → Option BuildCursor
  | [], c => some c
  | ip :: ips, c =>
    if DnsResourceZone.maxLen ≤ c.finalLen + DnsResourceZone.defaultSingleIpLen then some c
    else do
      let (buffer, resourceZone) ← DnsResourceZone.generate c.buffer c.curData ip expire
      addAnswers expire ips
        { buffer := buffer
          curData := c.curData + resourceZone.len
          finalLen := c.finalLen + resourceZone.len
          response :=
            { c.response with
              answerZones := c.response.answerZones ++ [resourceZone], ips := c.response.ips ++ [ip] } }

/-- The addresses of a record that a response takes: the first five. -/
def DnsRecord.firstIps (record : DnsRecord) : List Nat :=
  if 5 ≤ record.ips.length then record.ips.take 5 else record.ips

/-- A response together with its buffer. -/
structure BuiltResponse where
  buffer : Bytes
  response : UdpResponse
  deriving DecidableEq

/-- The bytes that are sent for a response. -/
def BuiltResponse.bytes (b : BuiltResponse) : Bytes := b.buffer.take b.response.len

/-- The constructor of `udp_response` from a request in the buffer `m` and a record. -/
def UdpResponse.ofRequest (m : Bytes) (request : UdpRequest) (record : DnsRecord) (expire : Nat) :
    Except Fault BuiltResponse := do
  let ips := record.firstIps
  let requestHeader ← deref request.header
  let hostCount := match request.queryZone with
    | some zone => zone.querys.length
    | none => 0
  let (buffer, header) ← inBounds <|
    DnsHeader.generateAnswer (List.replicate 1024 0) 0 requestHeader.id hostCount ips.length
  let c : BuildCursor :=
    { buffer := buffer
      curData := header.len
      finalLen := header.len
      response := { data := 0, len := 1024, header := some header } }
  let c ← match request.queryZone with
    | some zone => do
      let (buffer, queryZone) ← inBounds (zone.copy m c.buffer c.curData)
      pure
        { buffer := buffer
          curData := c.curData + queryZone.len
          finalLen := c.finalLen + queryZone.len
          response := { c.response with queryZone := some queryZone } }
    | none => pure c
  let c ← inBounds (addAnswers expire ips c)
  return { buffer := c.buffer, response := { c.response with len := c.finalLen } }

/-! ## What the constructor writes -/

/-- The record that `dns_resource_zone::generate` leaves at index `i`. -/
def writtenZone (expire i ip : Nat) : DnsResourceZone :=
  { data := i, len := DnsResourceZone.defaultSingleIpLen, type := QueryType.a, resource := 1, liveTime := expire,
    ipv4s := [ip] }

/-- The records for these addresses, one behind the other from index `i` on. -/
def writtenZones (expire : Nat) : Nat → List Nat → List DnsResourceZone
  | _, [] => []
  | i, ip :: ips => writtenZone expire i ip :: writtenZones expire (i + DnsResourceZone.defaultSingleIpLen) ips

/-- The bytes of the records for these addresses. -/
def recordBytes (expire : Nat) (ips : List Nat) : Bytes := ips.flatMap fun ip => DnsResourceZone.generateBytes ip expire

/-- The addresses that the loop takes when `finalLen` bytes are written: their records end before byte 512. -/
def writtenIps (finalLen : Nat) (ips : List Nat) : List Nat :=
  ips.take ((DnsResourceZone.maxLen - 1 - finalLen) / DnsResourceZone.defaultSingleIpLen)

/-- The header object of a reply. -/
def replyHeader (id : Nat) : DnsHeader :=
  { data := 0, len := DnsHeader.defaultLen, id := id, answerCount := 0, questionCount := 0, responseCode := 0, qr := 0,
    opcode := 0 }

/-- The bytes of a response: the header of a reply, the questions, and a record for every address that is taken. The
header announces a record for every address there is. -/
def responseBytes (id count : Nat) (questions : Bytes) (ips : List Nat) (expire : Nat) : Bytes :=
  DnsHeader.initBytes id count 0 ips.length true ++ questions ++
    recordBytes expire (writtenIps (DnsHeader.defaultLen + questions.length) ips)

/-- The response that the constructor leaves. -/
def builtResponse (id count : Nat) (questions : Bytes) (ips : List Nat) (expire : Nat) : BuiltResponse :=
  let start := DnsHeader.defaultLen + questions.length
  { buffer := padded 1024 (responseBytes id count questions ips expire)
    response :=
      { data := 0
        len := (responseBytes id count questions ips expire).length
        header := some (replyHeader id)
        queryZone := some { data := DnsHeader.defaultLen, len := questions.length, querys := [] }
        answerZones := writtenZones expire start (writtenIps start ips)
        ips := writtenIps start ips } }

section Building

variable {m : Bytes} {request : UdpRequest} {header : DnsHeader} {zone : DnsQueryZone} {record : DnsRecord}
  {expire : Nat}

@[simp] theorem length_generateBytes (ip expire : Nat) :
    (DnsResourceZone.generateBytes ip expire).length = DnsResourceZone.defaultSingleIpLen := by
  simp [DnsResourceZone.generateBytes, writeBytes, DnsResourceZone.defaultSingleIpLen]

@[simp] theorem length_initBytes (id hosts additionals answers : Nat) (isAnswer : Bool) :
    (DnsHeader.initBytes id hosts additionals answers isAnswer).length = DnsHeader.defaultLen := rfl

/-- A header, number by number: the flags of a reply are `QR` and `RA`, the flag of a query is `RD`. -/
theorem initBytes_numbers (id hosts answers : Nat) (isAnswer : Bool) :
    DnsHeader.initBytes id hosts 0 answers isAnswer =
      beBytes 2 id ++ (if isAnswer then [0x80, 0x80] else [1, 0]) ++ beBytes 2 hosts ++
        (beBytes 2 answers ++ [0, 0, 0, 0]) := by
  have high : ∀ t, (t &&& 0xFF00) >>> 8 = t / 256 % 256 := by
    intro t
    rw [Nat.shiftRight_and_distrib, Nat.shiftRight_eq_div_pow]
    exact Nat.and_two_pow_sub_one_eq_mod (t / 256) 8
  have low : ∀ t, t &&& 0xFF = t % 256 := fun t => Nat.and_two_pow_sub_one_eq_mod t 8
  simp only [DnsHeader.initBytes, List.flatMap_cons, List.flatMap_nil, high, low, beBytes_two, List.cons_append,
    List.nil_append, List.append_nil]
  cases isAnswer <;> rfl

theorem initBytes_eq (id hosts answers : Nat) :
    DnsHeader.initBytes id hosts 0 answers true =
      beBytes 2 id ++ [0x80, 0x80] ++ beBytes 2 hosts ++ (beBytes 2 answers ++ [0, 0, 0, 0]) :=
  initBytes_numbers id hosts answers true

theorem length_recordBytes (expire : Nat) (ips : List Nat) : (recordBytes expire ips).length = ips.length * 16 := by
  induction ips with
  | nil => rfl
  | cons ip ips ih =>
    rw [recordBytes, List.flatMap_cons, List.length_append, length_generateBytes, ← recordBytes, ih, List.length_cons,
      DnsResourceZone.defaultSingleIpLen]
    omega

@[simp] theorem length_writtenZones (expire i : Nat) (ips : List Nat) :
    (writtenZones expire i ips).length = ips.length := by
  induction ips generalizing i with
  | nil => rfl
  | cons ip ips ih => rw [writtenZones, List.length_cons, ih, List.length_cons]

theorem generateBytes_eq (ip expire : Nat) : DnsResourceZone.generateBytes ip expire =
    pointerBytes 12 ++
      (beBytes 2 QueryType.a ++ (beBytes 2 1 ++ (beBytes 4 expire ++ (beBytes 2 4 ++ beBytes 4 ip)))) := by
  simp only [DnsResourceZone.generateBytes, writeBytes_eq, List.append_assoc]
  rfl

/-- Every written record has the expiry, and its owner is a pointer to the name behind the header. -/
theorem mem_writtenZones {a : DnsResourceZone} : ∀ {ips : List Nat} {i : Nat}, Holds m i (recordBytes expire ips) →
    a ∈ writtenZones expire i ips → a.liveTime = expire ∧ Holds m a.data (pointerBytes 12)
  | ip :: ips, i, h, ha => by
    rw [recordBytes, List.flatMap_cons, ← recordBytes, holds_append, length_generateBytes] at h
    rcases List.mem_cons.1 ha with rfl | ha
    · rw [generateBytes_eq, holds_append] at h
      exact ⟨rfl, h.1.1⟩
    · exact mem_writtenZones h.2 ha

/-- No record is taken behind byte 512, and one before it is. -/
theorem writtenIps_cons {finalLen ip : Nat} {ips : List Nat} :
    writtenIps finalLen (ip :: ips) =
      if DnsResourceZone.maxLen ≤ finalLen + DnsResourceZone.defaultSingleIpLen then []
      else ip :: writtenIps (finalLen + DnsResourceZone.defaultSingleIpLen) ips := by
  unfold writtenIps DnsResourceZone.maxLen DnsResourceZone.defaultSingleIpLen
  by_cases h : 512 ≤ finalLen + (2 + 2 + 2 + 4 + 2 + 4)
  · rw [if_pos h, show (512 - 1 - finalLen) / (2 + 2 + 2 + 4 + 2 + 4) = 0 by omega, List.take_zero]
  · rw [if_neg h, show (512 - 1 - finalLen) / (2 + 2 + 2 + 4 + 2 + 4) =
      (512 - 1 - (finalLen + (2 + 2 + 2 + 4 + 2 + 4))) / (2 + 2 + 2 + 4 + 2 + 4) + 1 by omega, List.take_succ_cons]

/-- A record is generated right behind what is written. -/
theorem generate_padded {w : Bytes} (ip expire : Nat) (h : w.length + DnsResourceZone.defaultSingleIpLen ≤ 1024) :
    DnsResourceZone.generate (padded 1024 w) w.length ip expire =
      some (padded 1024 (w ++ DnsResourceZone.generateBytes ip expire), writtenZone expire w.length ip) := by
  rw [DnsResourceZone.generate, store_padded (by rw [length_generateBytes]; exact h), Option.map_some]
  rfl

/-- **The loop over the addresses** writes the records of those it takes behind what is there. -/
theorem addAnswers_eq (expire : Nat) : ∀ (ips : List Nat) (w : Bytes) (response : UdpResponse), w.length ≤ 1024 →
    addAnswers expire ips { buffer := padded 1024 w, curData := w.length, finalLen := w.length, response := response } =
      some
        { buffer := padded 1024 (w ++ recordBytes expire (writtenIps w.length ips))
          curData := (w ++ recordBytes expire (writtenIps w.length ips)).length
          finalLen := (w ++ recordBytes expire (writtenIps w.length ips)).length
          response :=
            { response with
              answerZones := response.answerZones ++ writtenZones expire w.length (writtenIps w.length ips)
              ips := response.ips ++ writtenIps w.length ips } }
  | [], w, response, _ => by simp [addAnswers, writtenIps, recordBytes, writtenZones]
  | ip :: ips, w, response, hw => by
    rw [addAnswers, writtenIps_cons]
    by_cases hfull : DnsResourceZone.maxLen ≤ w.length + DnsResourceZone.defaultSingleIpLen
    · simp [if_pos hfull, recordBytes, writtenZones]
    · have hin : w.length + DnsResourceZone.defaultSingleIpLen ≤ 1024 := by
        rw [DnsResourceZone.maxLen] at hfull
        omega
      have hnext : (w ++ DnsResourceZone.generateBytes ip expire).length =
          w.length + DnsResourceZone.defaultSingleIpLen := by rw [List.length_append, length_generateBytes]
      have ih := addAnswers_eq expire ips (w ++ DnsResourceZone.generateBytes ip expire)
        { response with
          answerZones := response.answerZones ++ [writtenZone expire w.length ip], ips := response.ips ++ [ip] }
        (hnext.le.trans hin)
      simp only [if_neg hfull, generate_padded ip expire hin, Option.bind_eq_bind, Option.bind_some]
      rw [hnext] at ih
      exact ih.trans (by simp [recordBytes, writtenZones])

/-- The header of a reply is written at the start of the buffer. -/
theorem generateAnswer_eq (id hosts answers : Nat) :
    DnsHeader.generateAnswer (List.replicate 1024 0) 0 id hosts answers =
      some (padded 1024 (DnsHeader.initBytes id hosts 0 answers true), replyHeader id) := by
  have h12 : DnsHeader.defaultLen = 12 := rfl
  have hstore : store (List.replicate 1024 0) 0 (DnsHeader.initBytes id hosts 0 answers true) =
      some (padded 1024 (DnsHeader.initBytes id hosts 0 answers true)) := by
    rw [← padded_nil]
    exact store_padded (w := []) (by rw [List.length_nil, length_initBytes]; omega)
  rw [DnsHeader.generateAnswer, hstore]
  rfl

/-- A response is longer than its questions and has no more bytes than the buffer. -/
theorem length_responseBytes (id count : Nat) (questions : Bytes) (ips : List Nat) (expire : Nat)
    (h : DnsHeader.defaultLen + questions.length ≤ 1024) :
    DnsHeader.defaultLen + questions.length ≤ (responseBytes id count questions ips expire).length ∧
      (responseBytes id count questions ips expire).length ≤ 1024 := by
  have hlen : (writtenIps (DnsHeader.defaultLen + questions.length) ips).length ≤
      (511 - (DnsHeader.defaultLen + questions.length)) / 16 := List.length_take_le _ _
  rw [responseBytes, List.length_append, List.length_append, length_initBytes, length_recordBytes]
  omega

/-- The questions of a request, as bytes of its buffer. -/
def questionBytes (m : Bytes) (zone : DnsQueryZone) : Bytes := (m.drop zone.data).take zone.len

/-- **The constructor** on a request with a header and questions behind it: when the questions lie in the buffer it
writes the header of a reply, the bytes of the questions and the records, one behind the other. -/
theorem ofRequest_eq (record : DnsRecord) (expire : Nat) (hh : request.header = some header)
    (hz : request.queryZone = some zone) (hdata : zone.data = DnsHeader.defaultLen) (hm : m.length = 1024)
    (hin : DnsHeader.defaultLen + zone.len ≤ 1024) :
    (questionBytes m zone).length = zone.len ∧
      UdpResponse.ofRequest m request record expire =
        .ok (builtResponse header.id zone.querys.length (questionBytes m zone) record.firstIps expire) := by
  have h12 : DnsHeader.defaultLen = 12 := rfl
  have hlen : (questionBytes m zone).length = zone.len := by
    rw [questionBytes, List.length_take, List.length_drop]
    omega
  refine ⟨hlen, ?_⟩
  let top := DnsHeader.initBytes header.id zone.querys.length 0 record.firstIps.length true
  have htop : top.length = DnsHeader.defaultLen := length_initBytes ..
  have hheader := generateAnswer_eq header.id zone.querys.length record.firstIps.length
  have hcopy : zone.copy m (padded 1024 top) DnsHeader.defaultLen =
      some (padded 1024 (top ++ questionBytes m zone),
        { data := DnsHeader.defaultLen, len := zone.len, querys := [] }) := by
    have hslice : slice m zone.data zone.len = some (questionBytes m zone) := by
      rw [slice, if_pos (by omega), questionBytes]
    simp only [DnsQueryZone.copy, hslice, Option.bind_eq_bind, Option.bind_some]
    rw [← htop, store_padded (by omega)]
    rfl
  have hstart : (top ++ questionBytes m zone).length = DnsHeader.defaultLen + zone.len := by
    rw [List.length_append, htop, hlen]
  have hanswers := addAnswers_eq expire record.firstIps (top ++ questionBytes m zone)
    { data := 0
      len := 1024
      header := some (replyHeader header.id)
      queryZone := some { data := DnsHeader.defaultLen, len := zone.len, querys := [] } } (by omega)
  rw [hstart] at hanswers
  have hreply : (replyHeader header.id).len = DnsHeader.defaultLen := rfl
  simp only [UdpResponse.ofRequest, hh, hz, deref, hheader, inBounds, bind, Except.bind, pure, Except.pure, hreply,
    show zone.copy m (padded 1024 (DnsHeader.initBytes ..)) DnsHeader.defaultLen = _ from hcopy, hanswers]
  simp only [builtResponse, responseBytes, hlen, List.nil_append, top]

/-- What is sent for a built response: the bytes that were written. -/
theorem bytes_builtResponse (id count : Nat) (questions : Bytes) (ips : List Nat) (expire : Nat) :
    (builtResponse id count questions ips expire).bytes = responseBytes id count questions ips expire :=
  List.take_left

/-- What is built contains the header of a reply and the bytes of the questions, and no more than the buffer holds. -/
theorem ofRequest_ok (record : DnsRecord) (expire : Nat) (hh : request.header = some header)
    (hz : request.queryZone = some zone) (hdata : zone.data = DnsHeader.defaultLen) (hm : m.length = 1024)
    (hin : DnsHeader.defaultLen + zone.len ≤ 1024) :
    ∃ b, UdpResponse.ofRequest m request record expire = .ok b ∧ b.buffer.length = 1024 ∧
      DnsHeader.defaultLen + zone.len ≤ b.response.len ∧ b.response.len ≤ 1024 ∧
      (∃ answers, Holds b.buffer 0 (DnsHeader.initBytes header.id zone.querys.length 0 answers true)) ∧
      ∀ {bs}, bs.length ≤ zone.len → Holds m DnsHeader.defaultLen bs → Holds b.buffer DnsHeader.defaultLen bs := by
  obtain ⟨hlen, hb⟩ := ofRequest_eq record expire hh hz hdata hm hin
  have htotal := length_responseBytes header.id zone.querys.length (questionBytes m zone) record.firstIps expire
    (by omega)
  have hall := holds_padded 1024 (responseBytes header.id zone.querys.length (questionBytes m zone) record.firstIps
    expire)
  rw [responseBytes, holds_append, holds_append, length_initBytes] at hall
  refine ⟨_, hb, length_padded htotal.2, hlen ▸ htotal.1, htotal.2, ⟨_, hall.1.1⟩, fun {bs} hbs hm' => ?_⟩
  refine List.IsPrefix.trans ?_ (Nat.zero_add DnsHeader.defaultLen ▸ hall.1.2)
  rw [questionBytes, hdata, List.prefix_take_iff]
  exact ⟨hm', hbs⟩

/-- Questions that do not lie in the buffer are copied from outside it. -/
theorem ofRequest_fault (hh : request.header = some header) (hz : request.queryZone = some zone)
    (hdata : zone.data = DnsHeader.defaultLen) (hm : m.length = 1024) (hout : 1024 < DnsHeader.defaultLen + zone.len) :
    UdpResponse.ofRequest m request record expire = .error .outOfBounds := by
  have hheader := generateAnswer_eq header.id zone.querys.length record.firstIps.length
  have hcopy : ∀ m₁, zone.copy m m₁ (replyHeader header.id).len = none := by
    intro m₁
    simp only [DnsQueryZone.copy, slice, Option.bind_eq_bind]
    rw [if_neg (by omega)]
    rfl
  simp only [UdpResponse.ofRequest, hh, hz, deref, hheader, inBounds, bind, Except.bind, hcopy]

end Building

end StDns.Protocol
