import StDns.Protocol.Answer
import StDns.Protocol.QueryExact

/-!
# What a built response says

The header of a response announces as many records as the constructor has addresses; the loop behind it stops at byte
512. What is announced is what is written iff the records of all addresses end before (`ofRequest_consistent_iff`).
Behind one question they always do, and the response is parsed as what it was built from (`response_of_query`).
-/

namespace StDns.Protocol

open Lib Wire

/-! ## Counts -/

/-- The message of `b` is a header, the questions copied from the buffer `m` and records, and nothing else was written;
the header announces as many questions and records as there are. -/
def Consistent (m : Bytes) (zone : DnsQueryZone) (expire : Nat) (b : BuiltResponse) : Prop :=
  ∃ header ips, header.length = DnsHeader.defaultLen ∧
    b.bytes = header ++ questionBytes m zone ++ recordBytes expire ips ∧
    b.bytes.length = b.response.len ∧ b.buffer = padded 1024 b.bytes ∧ b.buffer.length = 1024 ∧
    b.response.answerZones.length = ips.length ∧
    read b.bytes 4 2 = some zone.querys.length ∧ read b.bytes 6 2 = some ips.length

section Counts

variable {m d tail : Bytes} {r : UdpRequest} {zone : DnsQueryZone} {record : DnsRecord}

theorem length_firstIps (record : DnsRecord) : record.firstIps.length = min 5 record.ips.length := by
  unfold DnsRecord.firstIps
  split
  · rw [List.length_take]
  · omega

/-- All addresses are taken iff their records end before byte 512. -/
theorem writtenIps_length_iff (finalLen : Nat) (ips : List Nat) :
    (writtenIps finalLen ips).length = ips.length ↔ ips = [] ∨ finalLen + 16 * ips.length < 512 := by
  rw [writtenIps, List.length_take, DnsResourceZone.maxLen, DnsResourceZone.defaultSingleIpLen,
    ← List.length_eq_zero_iff]
  omega

/-- The zone of an accepted request has fewer questions than the header can count. -/
theorem length_querys_lt {n : Nat} (h : UdpRequest.parse m n = some r) (hv : r.valid = true)
    (hz : r.queryZone = some zone) : zone.querys.length < 2 ^ 16 := by
  have chain : ∀ {qs : List DnsQuery} {size reset data len : Nat}, QuestionChain m len size reset data qs →
      qs.length ≤ size := by
    intro qs
    induction qs with
    | nil => exact fun _ => Nat.zero_le _
    | cons q qs ih =>
      intro size reset data len hc
      have hle := ih hc.2
      have hpos := hc.1.1.2
      rw [List.length_cons]
      omega
  obtain ⟨header, zone', -, hhead, hzone, hzv, -, -, hz', -⟩ := accepted h hv
  obtain rfl : zone' = zone := Option.some.inj (hz'.symm.trans hz)
  obtain ⟨qs, hc, rfl⟩ := zone_iff_chain.1 ⟨hzone, hzv⟩
  have hcount : header.questionCount < 256 ^ 2 := read_lt (by decide) (header_questionCount hhead)
  exact Nat.lt_of_le_of_lt (chain hc) hcount

/-- The counts in the header of a response. -/
theorem counts_responseBytes (id expire : Nat) (questions : Bytes) {count : Nat} {ips : List Nat}
    (hcount : count < 2 ^ 16) (hips : ips.length < 2 ^ 16) :
    read (responseBytes id count questions ips expire) 4 2 = some count ∧
      read (responseBytes id count questions ips expire) 6 2 = some ips.length := by
  have hall : Holds (responseBytes id count questions ips expire) 0 (responseBytes id count questions ips expire) :=
    List.prefix_rfl
  nth_rewrite 2 [responseBytes] at hall
  simp only [initBytes_eq, holds_append, List.length_append, length_beBytes, List.length_cons, List.length_nil] at hall
  obtain ⟨⟨⟨⟨-, hq⟩, ha, -⟩, -⟩, -⟩ := hall
  exact ⟨read_beBytes hcount hq, read_beBytes hips ha⟩

end Counts

/-- **Counts**: for every accepted request in its buffer and every record, a consistent message is built iff the
questions lie in the buffer and the records of the first five addresses end before byte 512. -/
theorem ofRequest_consistent_iff (d tail : Bytes) (r : UdpRequest) (zone : DnsQueryZone) (record : DnsRecord)
    (expire : Nat) (hd : (d ++ tail).length = 1024) (h : UdpRequest.parse (d ++ tail) d.length = some r)
    (hv : r.valid = true) (hz : r.queryZone = some zone) :
    (∃ b, UdpResponse.ofRequest (d ++ tail) r record expire = .ok b ∧ Consistent (d ++ tail) zone expire b) ↔
      DnsHeader.defaultLen + zone.len ≤ 1024 ∧
        (record.ips = [] ∨ DnsHeader.defaultLen + zone.len + 16 * min 5 record.ips.length < 512) := by
  obtain ⟨header, zone', -, -, hzone, hzv, -, hh, hz', -⟩ := accepted h hv
  obtain rfl : zone' = zone := Option.some.inj (hz'.symm.trans hz)
  have hdata : zone'.data = DnsHeader.defaultLen := by
    obtain ⟨qs, -, rfl⟩ := zone_iff_chain.1 ⟨hzone, hzv⟩
    rfl
  by_cases hin : DnsHeader.defaultLen + zone'.len ≤ 1024
  swap
  · rw [ofRequest_fault hh hz hdata hd (Nat.lt_of_not_le hin)]
    simp [hin]
  obtain ⟨hlen, hb⟩ := ofRequest_eq record expire hh hz hdata hd hin
  have hfirst : record.firstIps = [] ↔ record.ips = [] := by
    rw [← List.length_eq_zero_iff, length_firstIps, ← List.length_eq_zero_iff]
    omega
  have h5 : record.firstIps.length < 2 ^ 16 := by rw [length_firstIps]; omega
  have hcounts := counts_responseBytes header.id expire (questionBytes (d ++ tail) zone') (length_querys_lt h hv hz) h5
  have hle := length_responseBytes header.id zone'.querys.length (questionBytes (d ++ tail) zone') record.firstIps
    expire (hlen ▸ hin)
  have hiff := writtenIps_length_iff (DnsHeader.defaultLen + zone'.len) record.firstIps
  rw [hfirst, length_firstIps] at hiff
  rw [hb, ← hiff]
  constructor
  · rintro ⟨b, hb', hheader, ips, -, -, -, -, -, hzones, -, hcount⟩
    cases hb'
    rw [bytes_builtResponse, hcounts.2, Option.some.injEq] at hcount
    have hzones' : (writtenIps (DnsHeader.defaultLen + zone'.len) record.firstIps).length = ips.length := by
      rw [← hlen, ← hzones]
      exact (length_writtenZones ..).symm
    exact ⟨hin, hzones'.trans (hcount.symm.trans (length_firstIps record))⟩
  · rintro ⟨-, hall⟩
    rw [← length_firstIps] at hall
    refine ⟨_, rfl, DnsHeader.initBytes header.id zone'.querys.length 0 record.firstIps.length true,
      writtenIps (DnsHeader.defaultLen + zone'.len) record.firstIps, length_initBytes .., ?_, ?_, ?_, ?_, ?_, ?_, ?_⟩
    · rw [bytes_builtResponse, responseBytes, hlen]
    · rw [bytes_builtResponse]
      rfl
    · rw [bytes_builtResponse]
      rfl
    · exact length_padded hle.2
    · rw [← hlen]
      exact length_writtenZones ..
    · rw [bytes_builtResponse]
      exact hcounts.1
    · rw [bytes_builtResponse, hall]
      exact hcounts.2

theorem ofRequest_consistent_iff_at : ∃ r zone,
    UdpRequest.parse (oneQuestion ++ List.replicate 1005 0) 19 = some r ∧ r.queryZone = some zone ∧
      ((∃ b, UdpResponse.ofRequest (oneQuestion ++ List.replicate 1005 0) r { ips := [1, 2] } 60 = .ok b ∧
          Consistent (oneQuestion ++ List.replicate 1005 0) zone 60 b) ↔
        12 + zone.len ≤ 1024 ∧ ([1, 2] = [] ∨ 12 + zone.len + 16 * min 5 2 < 512)) := by
  let parsed := UdpRequest.parse (oneQuestion ++ List.replicate 1005 0) 19
  have hp : parsed.any (fun r => r.valid && r.queryZone.isSome) = true := by decide +kernel
  obtain ⟨r, hr, hp⟩ := (Option.any_eq_true _ _).1 hp
  rw [Bool.and_eq_true] at hp
  obtain ⟨zone, hz⟩ := Option.isSome_iff_exists.1 hp.2
  exact ⟨r, zone, hr, hz, ofRequest_consistent_iff oneQuestion (List.replicate 1005 0) r zone { ips := [1, 2] } 60
    (by decide +kernel) hr hp.1 hz⟩

/-- A datagram with one question, whose name has seven labels of 63 bytes. -/
def longQuestion : Bytes :=
  [0, 7, 1, 0, 0, 1, 0, 0, 0, 0, 0, 0] ++ (List.replicate 7 (63 :: List.replicate 63 97)).flatten ++ [0, 0, 1, 0, 1]

/-- Five records are announced behind a long question and two are written. -/
theorem ofRequest_not_consistent : ¬∀ (d tail : Bytes) (r : UdpRequest) (zone : DnsQueryZone) (record : DnsRecord)
    (expire : Nat), (d ++ tail).length = 1024 → UdpRequest.parse (d ++ tail) d.length = some r → r.valid = true →
    r.queryZone = some zone →
    ∃ b, UdpResponse.ofRequest (d ++ tail) r record expire = .ok b ∧ Consistent (d ++ tail) zone expire b := by
  intro h
  let tail : Bytes := List.replicate 559 0
  let parsed := UdpRequest.parse (longQuestion ++ tail) longQuestion.length
  let record : DnsRecord := { ips := [1, 2, 3, 4, 5] }
  have hp : parsed.any (fun r => (r.valid && r.queryZone.isSome) &&
      (UdpResponse.ofRequest (longQuestion ++ tail) r record 60).toOption.all fun b =>
        read b.bytes 6 2 = some 5 ∧ b.response.answerZones.length = 2) = true := by decide +kernel
  obtain ⟨r, hr, hp⟩ := (Option.any_eq_true _ _).1 hp
  rw [Bool.and_eq_true, Bool.and_eq_true] at hp
  obtain ⟨⟨hv, hz⟩, hb⟩ := hp
  obtain ⟨zone, hz⟩ := Option.isSome_iff_exists.1 hz
  obtain ⟨b, hbuilt, -, ips, -, -, -, -, -, hzones, -, hcount⟩ :=
    h longQuestion tail r zone record 60 (by decide +kernel) hr hv hz
  rw [hbuilt] at hb
  obtain ⟨hread, hlen⟩ := of_decide_eq_true (p := read b.bytes 6 2 = some 5 ∧ b.response.answerZones.length = 2) hb
  rw [hread, ← hzones, hlen] at hcount
  cases hcount

/-! ## The way back -/

/-- A record of a response as it is parsed: its owner is the name that the pointer goes to. -/
def parsedAnswer (text : Bytes) (a : DnsResourceZone) : DnsResourceZone :=
  { a with domain := some { data := a.data, len := 2, domain := text }, length := 4 }

section WayBack

variable {m : Bytes} {n i ip expire : Nat} {labels : List Bytes}

/-- A record that was generated is parsed as what it was generated from. -/
theorem record_of_generated (hn : n < 2 ^ 32) (h12 : 12 < i) (hi : i + DnsResourceZone.defaultSingleIpLen ≤ n)
    (hname : WireName.At (m.take n) 12 (.plain labels)) (hip : ip < 2 ^ 32) (hexpire : expire < 2 ^ 32)
    (h : Holds m i (DnsResourceZone.generateBytes ip expire)) :
    DnsResourceZone.ofRest m n i = some (parsedAnswer (decodedLabels labels) (writtenZone expire i ip)) := by
  have h16 : DnsResourceZone.defaultSingleIpLen = 16 := rfl
  rw [generateBytes_eq] at h
  simp only [holds_append, length_pointerBytes, length_beBytes] at h
  obtain ⟨hpointer, htype, hcls, httl, hlen, hdata⟩ := h
  have hat : WireName.At (m.take n) i (.pointed [] 12 (.plain labels)) :=
    ⟨by simp, (holds_take (by rw [WireName.length_ownBytes, WireName.ownLen, labelsLen]; omega)).2 hpointer,
      by decide, h12, hname⟩
  have hnone : ¬HasText [] := by
    rintro ⟨l, hl, -⟩
    cases hl
  have hdom : parseDomain m n i (n - i) [] = ⟨decodedLabels labels, some 2⟩ :=
    parseDomain_stopsClean (by omega) (by omega) hat (Nat.le_add_left 1 19) (by rw [WireName.ownLen, labelsLen]; omega)
      ⟨trivial, fun ht => absurd ht hnone⟩
  have hwin : sub64 n i = n - i := sub64_of_le (by omega) (by omega)
  have htype : read m (i + 2) 2 = some QueryType.a := read_beBytes (by decide) htype
  have hcls : read m (i + 2 + 2) 2 = some 1 := read_beBytes (by decide) hcls
  have httl : read m (i + 2 + 4) 4 = some expire := read_beBytes hexpire httl
  have hlen : read m (i + 2 + 8) 2 = some 4 := read_beBytes (by decide) hlen
  have hips : readIpv4s m (i + 2 + DnsResourceZone.fixedLen) (4 / 4) = some [ip] := by
    have hip : read m (i + 2 + DnsResourceZone.fixedLen + 0 * 4) 4 = some ip := read_beBytes hip hdata
    simp only [readIpv4s, Nat.div_self (show 0 < 4 by decide), List.range_one, List.mapM_cons, List.mapM_nil, hip]
    rfl
  have hne : ¬QueryType.a = QueryType.cname := by decide
  unfold DnsResourceZone.ofRest DnsDomain.ofRest
  simp only [DnsDomain.ofWindow, hwin, hdom, DnsDomain.ofParsed, Option.map_some, Option.bind_eq_bind, Option.bind_some,
    if_true, show ¬2 = 0 by decide, if_false, show u32 2 = 2 from rfl, htype, hcls, httl, hlen, hips, if_neg hne,
    Nat.mod_self]
  rfl

/-- The records of a response are parsed one by one. -/
theorem records_of_generated (hn : n < 2 ^ 32) (hname : WireName.At (m.take n) 12 (.plain labels))
    (hexpire : expire < 2 ^ 32) : ∀ {ips : List Nat} {i : Nat}, 12 < i → i + ips.length * 16 ≤ n →
    (∀ ip ∈ ips, ip < 2 ^ 32) → Holds m i (recordBytes expire ips) →
    RecordChain m n (n - i) ((writtenZones expire i ips).map (parsedAnswer (decodedLabels labels)))
  | [], _, _, _, _, _ => trivial
  | ip :: ips, i, h12, hi, hips, h => by
    have h16 : DnsResourceZone.defaultSingleIpLen = 16 := rfl
    rw [List.length_cons] at hi
    rw [recordBytes, List.flatMap_cons, ← recordBytes, holds_append, length_generateBytes] at h
    obtain ⟨hip, hips⟩ := List.forall_mem_cons.1 hips
    have hrecord := record_of_generated hn h12 (by omega) hname hip hexpire h.1
    have hbegin : sub64 n (n - i) = i := by rw [sub64_of_le (by omega) (by omega)]; omega
    have hnext : sub64 (n - i) DnsResourceZone.defaultSingleIpLen = n - (i + DnsResourceZone.defaultSingleIpLen) := by
      rw [sub64_of_le (by omega) (by omega)]
      omega
    refine ⟨⟨by rw [hbegin]; exact hrecord, rfl⟩, ?_⟩
    rw [show (parsedAnswer (decodedLabels labels) (writtenZone expire i ip)).len = DnsResourceZone.defaultSingleIpLen
      from rfl, hnext]
    exact records_of_generated hn hname hexpire (by omega) (by omega) hips h.2

theorem flatMap_writtenZones (expire : Nat) (f : DnsResourceZone → DnsResourceZone) (hf : ∀ a, (f a).ipv4s = a.ipv4s) :
    ∀ (ips : List Nat) (i : Nat), ((writtenZones expire i ips).map f).flatMap DnsResourceZone.ipv4s = ips
  | [], _ => rfl
  | ip :: ips, i => by
    rw [writtenZones, List.map_cons, List.flatMap_cons, flatMap_writtenZones expire f hf ips, hf]
    rfl

theorem firstIps_eq (record : DnsRecord) : record.firstIps = record.ips.take 5 := by
  unfold DnsRecord.firstIps
  split
  · rfl
  · rw [List.take_of_length_le (by omega)]

/-- Behind a name of at most 255 bytes the records of five addresses have room. -/
theorem responseBytes_question {q : Question} {ips : List Nat} (id count expire : Nat)
    (hname : labelsLen q.labels + 1 ≤ 255) (h5 : ips.length ≤ 5) :
    responseBytes id count q.bytes ips expire =
      DnsHeader.initBytes id count 0 ips.length true ++ q.bytes ++ recordBytes expire ips := by
  have hwritten : writtenIps (DnsHeader.defaultLen + q.bytes.length) ips = ips := by
    rw [writtenIps, Question.length_bytes, Question.len, DnsHeader.defaultLen, DnsResourceZone.maxLen,
      DnsResourceZone.defaultSingleIpLen, List.take_of_length_le (by omega)]
  rw [responseBytes, hwritten]

end WayBack

/-- A response in the memory `m` to one question: without an error code, with the identifier and the question of its
query, the addresses in their order, and on every record the expiry and the name of the question. -/
def Answers (q : QueryMessage) (question : Question) (ips : List Nat) (expire : Nat) (m : Bytes)
    (response : UdpResponse) : Prop :=
  response.valid = true ∧
    (∃ header, response.header = some header ∧ header.responseCode = 0 ∧ header.id = q.id ∧ header.questionCount = 1) ∧
    response.queryZone = some (zoneOf [parsedQuestion 12 question]) ∧ Holds m 12 question.bytes ∧
    response.ips = ips ∧ response.answerZones.length = ips.length ∧
    ∀ a ∈ response.answerZones, a.liveTime = expire ∧ Holds m a.data (pointerBytes 12) ∧
      (a.domain.map fun domain => domain.domain) = some (decodedLabels question.labels)

/-- The bytes of a response to one question are parsed as the answer they were built as. -/
theorem answers_of_bytes {q : QueryMessage} {question : Question} {ips : List Nat} {expire : Nat} (hid : q.id < 2 ^ 16)
    (hok : ∀ l ∈ question.labels, LabelOk l) (htype : question.type < 2 ^ 16) (hcls : question.cls < 2 ^ 16)
    (hname : labelsLen question.labels + 1 ≤ 255) (h5 : ips.length ≤ 5) (hips : ∀ ip ∈ ips, ip < 2 ^ 32)
    (hexpire : expire < 2 ^ 32) :
    ∃ response, UdpResponse.parse (padded 1024 (responseBytes q.id 1 question.bytes ips expire))
        (responseBytes q.id 1 question.bytes ips expire).length = some response ∧
      Answers q question ips expire (padded 1024 (responseBytes q.id 1 question.bytes ips expire)) response := by
  have h12 : DnsHeader.defaultLen = 12 := rfl
  have hqlen : question.len = labelsLen question.labels + 1 + 4 := rfl
  have hparts := responseBytes_question q.id 1 expire hname h5
  generalize hbytes : responseBytes q.id 1 question.bytes ips expire = bytes at *
  have hlen : bytes.length = 12 + question.len + ips.length * 16 := by
    rw [hparts, List.length_append, List.length_append, length_initBytes, Question.length_bytes, length_recordBytes,
      h12]
  -- where the parts lie
  have hall : Holds (padded 1024 bytes) 0 bytes := holds_padded 1024 bytes
  nth_rewrite 2 [hparts] at hall
  rw [holds_append, holds_append, List.length_append, length_initBytes, Question.length_bytes, initBytes_eq,
    ← List.append_assoc, holds_append, show [0x80, 0x80] = beBytes 2 0x8080 from rfl, Nat.zero_add] at hall
  obtain ⟨⟨⟨hcounts, -⟩, hat⟩, hrecords⟩ := hall
  rw [Nat.zero_add] at hat hrecords
  have hquestion : Holds bytes 12 question.bytes := by
    have htake : (padded 1024 bytes).take bytes.length = bytes := List.take_left
    rw [← htake, holds_take (by rw [Question.length_bytes]; omega)]
    exact hat
  -- what the parser makes of them
  obtain ⟨header, hhead, hid', hcode, hqc, hac⟩ := header_of_bytes (by decide) (by omega)
    (show DnsHeader.defaultLen ≤ u32 bytes.length by rw [u32_of_lt (by omega)]; omega) hcounts
  have hquestions : QuestionsAt bytes 12 [question] := ⟨⟨hok, htype, hcls, hquestion⟩, trivial⟩
  obtain ⟨hchain, -⟩ := questions_of_message (List.replicate (1024 - bytes.length) 0) (by omega) (Nat.le_refl 12)
    (by omega) hquestions
  have hplain : WireName.At ((padded 1024 bytes).take bytes.length) 12 (.plain question.labels) := by
    rw [show (padded 1024 bytes).take bytes.length = bytes from List.take_left, WireName.At, WireName.ownBytes]
    rw [Question.bytes, holds_append] at hquestion
    exact ⟨hok, hquestion.1⟩
  have hchain' := records_of_generated (n := bytes.length) (i := 12 + question.len) (by omega) hplain hexpire (by omega)
    (by omega) hips hrecords
  have hrest : sub64 (bytes.length - DnsHeader.defaultLen) (zoneOf [parsedQuestion 12 question]).len =
      bytes.length - (12 + question.len) := by
    rw [show (zoneOf [parsedQuestion 12 question]).len = question.len from rfl, sub64_of_le (by omega) (by omega)]
    omega
  obtain ⟨hparse, hv, -⟩ := (UdpResponse.parse_iff_chains (by omega)).2 ⟨by omega, header, [parsedQuestion 12 question],
    (writtenZones expire (12 + question.len) ips).map (parsedAnswer (decodedLabels question.labels)), hhead, hcode,
    by rw [hqc, u32_of_lt (by omega)]; exact hchain, by rw [List.length_map, length_writtenZones, hac],
    by rw [hrest]; exact hchain', rfl⟩
  refine ⟨_, hparse, hv, ⟨header, rfl, hcode, ?_, hqc⟩, rfl, hat, ?_, ?_,
    fun a ha => ?_⟩
  · rw [hid', Nat.mod_eq_of_lt hid]
  · exact flatMap_writtenZones expire (parsedAnswer (decodedLabels question.labels)) (fun _ => rfl) ips _
  · rw [responseOf, List.length_map, length_writtenZones]
  · obtain ⟨z, hz, rfl⟩ := List.mem_map.1 ha
    obtain ⟨httl, hpointer⟩ := mem_writtenZones hrecords hz
    exact ⟨httl, hpointer, rfl⟩

/-- **The way back**: the response to a query with one question, whatever the record, is parsed as the answer with the
first five addresses. -/
theorem response_of_query (d tail : Bytes) (q : QueryMessage) (question : Question) (record : DnsRecord) (expire : Nat)
    (h : q.At d) (hq : q.questions = [question]) (hname : labelsLen question.labels + 1 ≤ 255)
    (hd : (d ++ tail).length = 1024) (hips : ∀ ip ∈ record.ips, ip < 2 ^ 32) (hexpire : expire < 2 ^ 32) :
    ∃ r b response, UdpRequest.parse (d ++ tail) d.length = some r ∧ r.valid = true ∧
      UdpResponse.ofRequest (d ++ tail) r record expire = .ok b ∧
      UdpResponse.parse b.buffer b.response.len = some response ∧
      Answers q question (record.ips.take 5) expire b.buffer response := by
  obtain ⟨r, header, hp, hv, hh, hid, hz⟩ := request_of_query tail h
  obtain ⟨-, hle⟩ := questions_end h
  obtain ⟨-, -, -, hidlt, -, -, hqs⟩ := h
  rw [hq] at hz hqs
  rw [QueryMessage.questionsLen, hq, List.map_singleton, List.sum_singleton] at hle
  obtain ⟨hok, htype, hcls, hbytes⟩ := hqs.1
  have hzlen : (zoneOf (parsedQuestions 12 [question])).len = question.len := rfl
  have hqlen : question.len = labelsLen question.labels + 1 + 4 := rfl
  have h12 : DnsHeader.defaultLen = 12 := rfl
  obtain ⟨-, hb⟩ := ofRequest_eq record expire hh hz rfl hd (by omega)
  have hquestion : questionBytes (d ++ tail) (zoneOf (parsedQuestions 12 [question])) = question.bytes := by
    have hbegins := List.prefix_iff_eq_take.1 (hbytes.mono (List.prefix_append d tail))
    rw [Question.length_bytes] at hbegins
    exact hbegins.symm
  rw [hquestion, hid, show (zoneOf (parsedQuestions 12 [question])).querys.length = 1 from rfl, firstIps_eq] at hb
  obtain ⟨response, hparse, hanswers⟩ := answers_of_bytes (q := q) hidlt hok htype hcls hname
    (List.length_take_le 5 record.ips) (fun ip hip => hips ip (List.mem_of_mem_take hip)) hexpire
  exact ⟨r, _, response, hp, hv, hb, hparse, hanswers⟩

theorem response_of_query_at : ∃ r b response,
    UdpRequest.parse (oneQuestion ++ List.replicate 1005 0) 19 = some r ∧ r.valid = true ∧
      UdpResponse.ofRequest (oneQuestion ++ List.replicate 1005 0) r { ips := [1, 2, 3, 4, 5, 6] } 60 = .ok b ∧
      UdpResponse.parse b.buffer b.response.len = some response ∧
      Answers { id := 7, questions := [{ labels := [[97]], type := 1, cls := 1 }] }
        { labels := [[97]], type := 1, cls := 1 } [1, 2, 3, 4, 5] 60 b.buffer response :=
  response_of_query oneQuestion (List.replicate 1005 0)
    { id := 7, questions := [{ labels := [[97]], type := 1, cls := 1 }] } { labels := [[97]], type := 1, cls := 1 }
    { ips := [1, 2, 3, 4, 5, 6] } 60 (by decide) rfl (by decide) (by decide +kernel) (by decide) (by decide)

end StDns.Protocol
