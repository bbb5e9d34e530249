import StDns.Protocol.Stability
import StDns.Wire.Message

/-!
# What the parser makes of a well-formed response

Over the bytes of a well-formed message the header and the questions are parsed as they were written
(`header_of_message`, `questions_of_message`), and so is a record whose names stop the decoder clean
(`record_of_message`). But every record that is not of type `CNAME` gives addresses, four bytes each: the addresses of
a response are those of the message iff no other record has data (`response_addresses_iff`).
-/

namespace StDns.Protocol

open Lib Wire

/-! ## The header -/

section Header

variable {m d tail : Bytes} {i : Nat}

theorem beBytes_two (v : Nat) : beBytes 2 v = [UInt8.ofNat (v / 256 % 256), UInt8.ofNat (v % 256)] := rfl

/-- A two-byte number is at its place byte by byte. -/
theorem holds_beBytes_two {v : Nat} (h : Holds m i (beBytes 2 v)) :
    m[i]? = some (UInt8.ofNat (v / 256 % 256)) ∧ m[i + 1]? = some (UInt8.ofNat (v % 256)) := by
  simpa [beBytes_two, holds_cons] using h

theorem low_nibble (b : UInt8) : (b &&& 0b1111).toNat = b.toNat % 16 :=
  forall_byte (P := fun b => (b &&& 0b1111).toNat = b.toNat % 16) (by decide +kernel) b

/-- A header is parsed as it was written. -/
theorem header_of_bytes {id flags questions answers len : Nat} (hq : questions < 2 ^ 16) (ha : answers < 2 ^ 16)
    (hlen : DnsHeader.defaultLen ≤ len)
    (hh : Holds m 0 (beBytes 2 id ++ beBytes 2 flags ++ beBytes 2 questions ++ beBytes 2 answers)) :
    ∃ header, DnsHeader.parse m 0 len = some (some header) ∧ header.id = id % 2 ^ 16 ∧
      header.responseCode = flags % 16 ∧ header.questionCount = questions ∧ header.answerCount = answers := by
  simp only [holds_append, length_beBytes, List.length_append] at hh
  obtain ⟨⟨⟨h0, h2⟩, h4⟩, h6⟩ := hh
  obtain ⟨hid0, hid1⟩ := holds_beBytes_two h0
  obtain ⟨hfl0, hfl1⟩ := holds_beBytes_two h2
  have hqc : read m 4 2 = some questions := read_beBytes hq h4
  have hac : read m 6 2 = some answers := read_beBytes ha h6
  unfold DnsHeader.parse
  rw [if_pos hlen]
  simp only [Nat.zero_add] at hid0 hid1 hfl0 hfl1 ⊢
  rw [hid0, hid1, hfl0, hfl1, hqc, hac]
  refine ⟨_, rfl, ?_, ?_, rfl, rfl⟩
  · change (UInt8.ofNat (id / 256 % 256)).toNat <<< 8 ||| (UInt8.ofNat (id % 256)).toNat = id % 2 ^ 16
    rw [shiftLeft_or_byte, UInt8.toNat_ofNat', UInt8.toNat_ofNat']
    omega
  · change (UInt8.ofNat (flags % 256) &&& 0b1111).toNat = flags % 16
    rw [low_nibble, UInt8.toNat_ofNat']
    omega

/-- The header of a message. -/
theorem header_of_message (tail : Bytes) {r : ResponseMessage} {len : Nat} (h : r.At d)
    (hlen : DnsHeader.defaultLen ≤ len) :
    ∃ header, DnsHeader.parse (d ++ tail) 0 len = some (some header) ∧ header.responseCode = r.rcode ∧
      header.questionCount = r.questions.length ∧ header.answerCount = r.answers.length := by
  obtain ⟨hf, hq, ha, hh, -, -⟩ := h
  have hh := Holds.mono hh (List.prefix_append d tail)
  rw [ResponseMessage.headerBytes, holds_append, holds_append] at hh
  obtain ⟨header, hp, -, hcode, hqc, hac⟩ := header_of_bytes hq ha hlen hh.1.1
  exact ⟨header, hp, hcode, hqc, hac⟩

end Header

/-! ## The questions -/

/-- A question as it is parsed. -/
def parsedQuestion (i : Nat) (q : Question) : DnsQuery :=
  { data := i
    len := q.len
    domain := some { data := i, len := labelsLen q.labels + 1, domain := decodedLabels q.labels }
    queryType := q.type
    queryTypeValue := q.type }

/-- Questions as they are parsed from index `i` on. -/
def parsedQuestions : Nat → List Question → List DnsQuery
  | _, [] => []
  | i, q :: qs => parsedQuestion i q :: parsedQuestions (i + q.len) qs

section Questions

variable {d tail : Bytes} {i len : Nat}

/-- A question with an uncompressed name is parsed as it was written. -/
theorem question_of_message {q : Question} (h : q.At d i) (hlen : q.len ≤ len) (hlen' : len < 2 ^ 32) :
    DnsQuery.parse (d ++ tail) i len = some (parsedQuestion i q) := by
  obtain ⟨hok, ht, -, hh⟩ := h
  have hh := Holds.mono hh (List.prefix_append d tail)
  simp only [Question.bytes, holds_append, length_labelBytes, length_beBytes, List.length_append,
    List.length_singleton] at hh
  obtain ⟨⟨hls, hz⟩, htype, -⟩ := hh
  rw [Question.len] at hlen
  have hat : WireName.At (((d ++ tail).drop i).take len) 0 (.plain q.labels) := by
    refine ⟨hok, (holds_take (by simp [WireName.ownLen]; omega)).2 ?_⟩
    simp only [WireName.ownBytes, holds_append, holds_drop, length_labelBytes, Nat.zero_add, Nat.add_zero]
    exact ⟨hls, hz⟩
  have hp : parseDomain ((d ++ tail).drop i) len 0 len [] = ⟨decodedLabels q.labels, some (labelsLen q.labels + 1)⟩ :=
    parseRe_plain hat (by omega) (by omega)
  have htv : read (d ++ tail) (i + (labelsLen q.labels + 1)) 2 = some q.type := read_beBytes ht (by
    rw [← Nat.add_assoc]; exact htype)
  unfold DnsQuery.parse DnsDomain.parse
  rw [u32_of_lt hlen', hp]
  simp only [DnsDomain.ofParsed, Option.map_some, Nat.succ_ne_zero, if_false, Option.bind_eq_bind, Option.bind_some,
    if_true]
  rw [u32_of_lt (by omega), htv]
  rfl

/-- **The questions of a message** are parsed as they were written. -/
theorem questions_of_message (tail : Bytes) (hd : d.length < 2 ^ 32) : ∀ {qs : List Question} {i : Nat}, 12 ≤ i →
    i ≤ d.length → QuestionsAt d i qs →
    QuestionChain (d ++ tail) (d.length - DnsHeader.defaultLen) qs.length (d.length - i) i (parsedQuestions i qs) ∧
      i + (qs.map Question.len).sum ≤ d.length
  | [], _, _, hle, _ => ⟨fun h => absurd h.2 (Nat.lt_irrefl 0), by simpa using hle⟩
  | q :: qs, i, hi, hle, ⟨hq, hqs⟩ => by
    have h12 : DnsHeader.defaultLen = 12 := rfl
    have hlen : 0 < q.bytes.length := by rw [Question.length_bytes, Question.len]; omega
    have hin := hq.2.2.2.length_le (List.length_pos_iff.1 hlen)
    rw [Question.length_bytes] at hin
    have hpos : 0 < q.len := by rw [Question.len]; omega
    obtain ⟨hc, hsum⟩ := questions_of_message tail hd (by omega) hin hqs
    refine ⟨⟨⟨⟨by omega, Nat.succ_pos _⟩, question_of_message hq (by omega) (by omega), rfl⟩, ?_⟩, ?_⟩
    · have hreset : sub32 (d.length - i) (parsedQuestion i q).len = d.length - (i + q.len) := by
        rw [show (parsedQuestion i q).len = q.len from rfl, sub32_of_le (by omega) (by omega)]; omega
      rw [hreset]
      exact hc
    · rw [List.map_cons, List.sum_cons]; omega

theorem length_parsedQuestions : ∀ (qs : List Question) (i : Nat), (parsedQuestions i qs).length = qs.length
  | [], _ => rfl
  | q :: qs, i => by rw [parsedQuestions, List.length_cons, List.length_cons, length_parsedQuestions qs]

theorem sum_parsedQuestions : ∀ (qs : List Question) (i : Nat),
    ((parsedQuestions i qs).map fun q => q.len).sum = (qs.map Question.len).sum
  | [], _ => rfl
  | q :: qs, i => by
    rw [parsedQuestions, List.map_cons, List.sum_cons, List.map_cons, List.sum_cons, sum_parsedQuestions qs]
    rfl

end Questions

/-! ## The records -/

theorem SettlesAt.mono {m m' : Bytes} {b e i : Nat} (hm : m <+: m') (h : SettlesAt m b e i) : SettlesAt m' b e i := by
  rcases h with (h | ⟨x, hx, hlo, hhi⟩) | h | h
  · exact .inl (.inl h)
  · exact .inl (.inr ⟨x, getElem?_mono hm hx, hlo, hhi⟩)
  · exact .inr (.inl (getElem?_mono hm h))
  · exact .inr (.inr (h.mono hm))

theorem Settled.mono {m m' : Bytes} {n : Nat} (hm : m <+: m') : ∀ {b : Nat} {t : WireName}, Settled m n b t →
    Settled m' n b t
  | _, .plain _, _ => trivial
  | _, .pointed _ _ _, ⟨hst, hse⟩ => ⟨Settled.mono hm hst, fun h => (hse h).mono hm⟩

theorem StopsClean.mono {m m' : Bytes} {n b w : Nat} (hm : m <+: m') : ∀ {t : WireName}, StopsClean m n b w t →
    StopsClean m' n b w t
  | .plain _, _ => trivial
  | .pointed _ _ _, ⟨hst, hse⟩ => ⟨hst.mono hm, fun h => (hse h).elim .inl fun ⟨x, hx, hr⟩ =>
      .inr ⟨x, getElem?_mono hm hx, hr⟩⟩

/-- The decoder reads the names of the record at offset `i` as they were written: it follows no more than 20 pointers,
and what stands behind them stops it. -/
def CleanRecord (d : Bytes) (i : Nat) (r : Record) : Prop :=
  r.name.hops ≤ 20 ∧ StopsClean d d.length i (d.length - i) r.name ∧
    ∀ t ∈ r.cname, t.hops ≤ 20 ∧ StopsClean d d.length (i + r.name.ownLen + 10) r.rdata.length t

/-- The records from offset `i` on are clean. -/
def CleanRecords (d : Bytes) : Nat → List Record → Prop
  | _, [] => True
  | i, r :: rs => CleanRecord d i r ∧ CleanRecords d (i + r.len) rs

/-- The addresses that the parser takes from a record: one for every four bytes of its data. -/
def takenFrom (r : Record) : List Nat :=
  if r.type = typeCname then []
  else (List.range (r.rdata.length / 4)).map fun j => beNat ((r.rdata.drop (j * 4)).take 4)

section Records

variable {d tail : Bytes} {i : Nat}

/-- The words of a run of bytes are read one by one. -/
theorem readIpv4s_of_holds {m bs : Bytes} {i : Nat} (h : Holds m i bs) :
    readIpv4s m i (bs.length / 4) =
      some ((List.range (bs.length / 4)).map fun j => beNat ((bs.drop (j * 4)).take 4)) := by
  unfold readIpv4s
  rw [mapM_eq_some_iff, List.forall₂_map_right_iff, List.forall₂_same]
  intro j hj
  have hj := List.mem_range.1 hj
  have hlen : ((bs.drop (j * 4)).take 4).length = 4 := by rw [List.length_take, List.length_drop]; omega
  have hh : Holds m (i + j * 4) ((bs.drop (j * 4)).take 4) := by
    rw [holds_iff_getElem?] at h ⊢
    intro k hk
    rw [hlen] at hk
    rw [Nat.add_assoc, h _ (by omega), List.getElem?_take_of_lt hk, List.getElem?_drop]
  have hr := read_eq hh
  rwa [hlen] at hr

/-- **A record of a message** with clean names is valid unless it has data that are neither a name nor whole words. -/
theorem record_of_message (tail : Bytes) {r : Record} (hd : d.length < 2 ^ 32) (h : r.At d i) (hc : CleanRecord d i r) :
    ∃ a, DnsResourceZone.ofRest (d ++ tail) d.length i = some a ∧
      (a.valid = true ↔ r.type = typeCname ∨ r.rdata.length % 4 = 0) ∧
      (a.valid = true → a.len = r.len ∧ a.ipv4s = takenFrom r) := by
  have hin := h.length_le
  obtain ⟨hname, htype, hcls, httl, hrd, hh, hiff, htarget⟩ := h
  obtain ⟨hhops, hclean, hcname⟩ := hc
  have hm : d <+: d ++ tail := List.prefix_append d tail
  have htake : (d ++ tail).take d.length = d := List.take_left
  rw [Record.len] at hin
  have hwin : sub64 d.length i = d.length - i := sub64_of_le (by omega) (by omega)
  have hpos := r.name.ownLen_pos
  have hdom : parseDomain (d ++ tail) d.length i (sub64 d.length i) [] = ⟨decoded r.name, some r.name.ownLen⟩ := by
    rw [hwin]
    exact parseDomain_stopsClean (by omega) (by omega) (htake.symm ▸ hname) hhops (by omega) (hclean.mono hm)
  have hh := Holds.mono hh hm
  simp only [Record.fixedBytes, holds_append, length_beBytes, List.length_append] at hh
  obtain ⟨⟨⟨⟨ht, hcl⟩, htt⟩, hlen⟩, hdata⟩ := hh
  have ht := read_beBytes (v := r.type) (by omega) ht
  have hcl := read_beBytes (v := r.cls) (by omega) hcl
  have htt := read_beBytes (v := r.ttl) (by omega) htt
  have hlen := read_beBytes (v := r.rdata.length) (by omega) hlen
  unfold DnsResourceZone.ofRest DnsDomain.ofRest
  simp only [DnsDomain.ofWindow, hdom, DnsDomain.ofParsed, Option.map_some, Option.bind_eq_bind, Option.bind_some,
    if_neg (Nat.pos_iff_ne_zero.1 hpos), if_true, u32_of_lt (show r.name.ownLen < 2 ^ 32 by omega), ht, hcl, htt, hlen]
  by_cases hcn : r.type = typeCname
  · have hcn' : r.type = QueryType.cname := hcn
    obtain ⟨t, htc⟩ := Option.isSome_iff_exists.1 (hiff.1 hcn)
    obtain ⟨hat, hown⟩ := htarget t (by rw [htc]; rfl)
    obtain ⟨hth, hts⟩ := hcname t (by rw [htc]; rfl)
    have htp : parseDomain (d ++ tail) d.length (i + r.name.ownLen + DnsResourceZone.fixedLen) r.rdata.length [] =
        ⟨decoded t, some t.ownLen⟩ :=
      parseDomain_stopsClean (by omega) (by omega) (htake.symm ▸ hat) hth hown.le (hts.mono hm)
    have htpos := t.ownLen_pos
    simp only [if_pos hcn', htp, Option.map_some, Option.bind_some, if_neg (Nat.pos_iff_ne_zero.1 htpos), if_true]
    refine ⟨_, rfl, ⟨fun _ => .inl hcn, fun _ => rfl⟩, fun _ => ⟨rfl, ?_⟩⟩
    rw [takenFrom, if_pos hcn]
  · have hcn' : ¬r.type = QueryType.cname := hcn
    simp only [if_neg hcn']
    by_cases h4 : r.rdata.length % 4 = 0
    · have hips := readIpv4s_of_holds hdata
      rw [show i + r.name.ownLen + (2 + 2 + 4 + 2) = i + r.name.ownLen + DnsResourceZone.fixedLen from rfl] at hips
      simp only [if_pos h4, hips, Option.bind_some]
      refine ⟨_, rfl, ⟨fun _ => .inr h4, fun _ => rfl⟩, fun _ => ⟨rfl, ?_⟩⟩
      rw [takenFrom, if_neg hcn]
    · simp only [if_neg h4]
      refine ⟨_, rfl, ⟨fun h => by simp at h, fun h => ?_⟩, fun h => by simp at h⟩
      rcases h with h | h
      · exact absurd h hcn
      · exact absurd h h4

/-- **The records of a message** are parsed into a chain iff each is a name or whole words; the chain then gives the
addresses taken from each. -/
theorem records_of_message (tail : Bytes) (hd : d.length < 2 ^ 32) : ∀ {rs : List Record} {i : Nat}
    (ips : List Nat), i ≤ d.length → RecordsAt d i rs → CleanRecords d i rs →
    ((∃ as, as.length = rs.length ∧ RecordChain (d ++ tail) d.length (d.length - i) as ∧
        as.flatMap DnsResourceZone.ipv4s = ips) ↔
      (∀ r ∈ rs, r.type = typeCname ∨ r.rdata.length % 4 = 0) ∧ rs.flatMap takenFrom = ips)
  | [], i, ips, _, _, _ => by
    constructor
    · rintro ⟨as, hl, -, rfl⟩
      rw [List.length_eq_zero_iff.1 hl]
      simp
    · rintro ⟨-, rfl⟩
      exact ⟨[], rfl, trivial, rfl⟩
  | r :: rs, i, ips, hi, ⟨hr, hrs⟩, ⟨hc, hcs⟩ => by
    have hin := hr.length_le
    obtain ⟨a, ha, hvalid, hgives⟩ := record_of_message tail hd hr hc
    have hbegin : sub64 d.length (d.length - i) = i := by rw [sub64_of_le (by omega) (by omega)]; omega
    have hnext : sub64 (d.length - i) r.len = d.length - (i + r.len) := by
      rw [sub64_of_le (by omega) (by omega)]; omega
    constructor
    · rintro ⟨as, hl, hch, rfl⟩
      cases as with
      | nil => cases hl
      | cons a' as =>
        obtain ⟨⟨ha', hv⟩, hrest⟩ := hch
        rw [hbegin, ha, Option.some.injEq] at ha'
        subst ha'
        obtain ⟨hlen, hips⟩ := hgives hv
        rw [hlen, hnext] at hrest
        obtain ⟨hall, hflat⟩ := (records_of_message tail hd _ hin hrs hcs).1 ⟨as, by simpa using hl, hrest, rfl⟩
        refine ⟨fun x hx => ?_, by rw [List.flatMap_cons, List.flatMap_cons, hflat, hips]⟩
        rcases List.mem_cons.1 hx with rfl | hx
        · exact hvalid.1 hv
        · exact hall x hx
    · rintro ⟨hall, rfl⟩
      have hv := hvalid.2 (hall r (by simp))
      obtain ⟨hlen, hips⟩ := hgives hv
      obtain ⟨as, hl, hch, hflat⟩ :=
        (records_of_message tail hd _ hin hrs hcs).2 ⟨fun x hx => hall x (by simp [hx]), rfl⟩
      refine ⟨a :: as, by simp [hl], ⟨⟨by rw [hbegin]; exact ha, hv⟩, ?_⟩, ?_⟩
      · rw [hlen, hnext]; exact hch
      · rw [List.flatMap_cons, List.flatMap_cons, hips, hflat]

end Records

/-! ## The addresses of a response -/

/-- The addresses that a record should give. -/
def givenBy (r : Record) : List Nat := if r.IsAddress then [beNat r.rdata] else []

theorem addresses_eq (r : ResponseMessage) : r.addresses = r.answers.flatMap givenBy := by
  rw [ResponseMessage.addresses]
  induction r.answers with
  | nil => rfl
  | cons a as ih =>
    rw [List.flatMap_cons, givenBy, List.filter_cons, ← ih]
    by_cases ha : a.IsAddress <;> simp [ha]

/-- A record that is parsed gives no less than it should, and what it should iff it is a name, an address or empty. -/
theorem takenFrom_spec {r : Record} (h : r.type = typeCname ∨ r.rdata.length % 4 = 0) :
    (givenBy r).length ≤ (takenFrom r).length ∧
      ((r.type = typeCname ∨ r.IsAddress ∨ r.rdata = []) → takenFrom r = givenBy r) ∧
      ((takenFrom r).length = (givenBy r).length → r.type = typeCname ∨ r.IsAddress ∨ r.rdata = []) := by
  by_cases hc : r.type = typeCname
  · have hna : ¬r.IsAddress := fun ha => absurd (hc.symm.trans ha.1) (by decide)
    simp [takenFrom, givenBy, hc, hna]
  have h4 := h.resolve_left hc
  have hlen : (takenFrom r).length = r.rdata.length / 4 := by simp [takenFrom, hc]
  by_cases ha : r.IsAddress
  · have h1 : r.rdata.length / 4 = 1 := by rw [ha.2]
    have he : takenFrom r = givenBy r := by
      simp [takenFrom, givenBy, hc, ha, h1, List.take_of_length_le ha.2.le]
    exact ⟨by rw [he], fun _ => he, fun _ => .inr (.inl ha)⟩
  · have hg : givenBy r = [] := by simp [givenBy, ha]
    rw [hg, hlen]
    refine ⟨Nat.zero_le _, fun h => ?_, fun h => .inr (.inr (List.length_eq_zero_iff.1 ?_))⟩
    · rcases h with h | h | h
      · exact absurd h hc
      · exact absurd h ha
      · exact List.length_eq_zero_iff.1 (by rw [hlen, h]; rfl)
    · rw [List.length_nil] at h
      omega

/-- The addresses taken are those given iff every record gives what it should. -/
theorem flatMap_takenFrom_iff : ∀ {rs : List Record}, (∀ r ∈ rs, r.type = typeCname ∨ r.rdata.length % 4 = 0) →
    (rs.flatMap givenBy).length ≤ (rs.flatMap takenFrom).length ∧
      (rs.flatMap takenFrom = rs.flatMap givenBy ↔ ∀ r ∈ rs, r.type = typeCname ∨ r.IsAddress ∨ r.rdata = [])
  | [], _ => by simp
  | r :: rs, h => by
    obtain ⟨hle, heq, hof⟩ := takenFrom_spec (h r (by simp))
    obtain ⟨ihle, ih⟩ := flatMap_takenFrom_iff fun x hx => h x (List.mem_cons_of_mem r hx)
    simp only [List.flatMap_cons, List.length_append, List.forall_mem_cons]
    refine ⟨by omega, fun hall => ?_, fun ⟨hr, hrs⟩ => by rw [heq hr, ih.2 hrs]⟩
    have hl := congrArg List.length hall
    simp only [List.length_append] at hl
    have hr := hof (by omega)
    rw [heq hr] at hall
    exact ⟨hr, ih.1 (List.append_cancel_left hall)⟩

/-- **Addresses of a response**: over a well-formed message without an error code whose names are clean, the parser
leaves a valid response with the addresses of the message iff every record is a name, an address, or has no data. -/
theorem response_addresses_iff (d tail : Bytes) (r : ResponseMessage) (hn : 12 < d.length) (hd : d.length < 2 ^ 32)
    (hat : r.At d) (hrc : r.rcode = 0) (hc : CleanRecords d (12 + r.questionsLen) r.answers) :
    (∃ response, UdpResponse.parse (d ++ tail) d.length = some response ∧ response.valid = true ∧
        response.ips = r.addresses) ↔
      ∀ a ∈ r.answers, a.type = typeCname ∨ a.IsAddress ∨ a.rdata = [] := by
  have h12 : DnsHeader.defaultLen = 12 := rfl
  obtain ⟨header, hhead, hcode, hqc, hac⟩ := header_of_message tail hat (show DnsHeader.defaultLen ≤ u32 d.length by
    rw [u32_of_lt hd]; omega)
  obtain ⟨-, -, -, -, hqs, hrs⟩ := hat
  obtain ⟨hchain, hle⟩ := questions_of_message tail hd (Nat.le_refl _) hn.le hqs
  have hzlen : (zoneOf (parsedQuestions 12 r.questions)).len = r.questionsLen := sum_parsedQuestions r.questions 12
  have hle : 12 + r.questionsLen ≤ d.length := hle
  have hrest : sub64 (d.length - DnsHeader.defaultLen) (zoneOf (parsedQuestions 12 r.questions)).len =
      d.length - (12 + r.questionsLen) := by
    rw [hzlen, sub64_of_le (by omega) (by omega)]; omega
  have hreset : u32 (d.length - DnsHeader.defaultLen) = d.length - 12 := u32_of_lt (by omega)
  have hrecords := records_of_message tail hd r.addresses hle hrs hc
  have hquestions : QuestionChain (d ++ tail) (d.length - DnsHeader.defaultLen) header.questionCount
      (u32 (d.length - DnsHeader.defaultLen)) DnsHeader.defaultLen (parsedQuestions 12 r.questions) := by
    rw [hqc, hreset]; exact hchain
  rw [UdpResponse.addresses_iff_chain (by omega) (by omega) hhead (hcode.trans hrc) hquestions, hac, hrest, hrecords,
    addresses_eq]
  constructor
  · rintro ⟨hall, hflat⟩
    exact (flatMap_takenFrom_iff hall).2.1 hflat
  · intro h
    have hall : ∀ a ∈ r.answers, a.type = typeCname ∨ a.rdata.length % 4 = 0 := by
      intro a ha
      rcases h a ha with h | h | h
      · exact .inl h
      · exact .inr (by rw [h.2])
      · exact .inr (by rw [h]; rfl)
    exact ⟨hall, (flatMap_takenFrom_iff hall).2.2 h⟩

/-- A question for `a` and its address; the owner name of the record is a pointer to the question. -/
def addressMessage : ResponseMessage :=
  { id := 7
    flags := 0x8080
    authorities := 0
    additionals := 0
    questions := [{ labels := [[97]], type := 1, cls := 1 }]
    answers := [{ name := .pointed [] 12 (.plain [[97]]), type := 1, cls := 1, ttl := 60, rdata := [10, 0, 0, 1] }] }

def addressBytes : Bytes :=
  addressMessage.headerBytes ++ [1, 97, 0, 0, 1, 0, 1] ++ [192, 12, 0, 1, 0, 1, 0, 0, 0, 60, 0, 4, 10, 0, 0, 1]

theorem response_addresses_iff_at :
    (∃ response, UdpResponse.parse (addressBytes ++ []) addressBytes.length = some response ∧ response.valid = true ∧
        response.ips = addressMessage.addresses) ↔
      ∀ a ∈ addressMessage.answers, a.type = typeCname ∨ a.IsAddress ∨ a.rdata = [] := by
  refine response_addresses_iff addressBytes [] addressMessage (by decide) (by decide) (by decide) (by decide) ?_
  refine ⟨⟨by decide, ⟨trivial, fun ⟨l, hl, _⟩ => absurd hl (by simp)⟩, fun t ht => ?_⟩, trivial⟩
  cases ht

/-- One record of type `AAAA` for the root name. -/
def aaaaMessage : ResponseMessage :=
  { id := 7
    flags := 0x8080
    authorities := 0
    additionals := 0
    questions := []
    answers := [{ name := .plain [], type := 28, cls := 1, ttl := 60, rdata := List.replicate 16 0 }] }

def aaaaBytes : Bytes :=
  aaaaMessage.headerBytes ++ [0, 0, 28, 0, 1, 0, 0, 0, 60, 0, 16] ++ List.replicate 16 0

/-- The sixteen bytes of an `AAAA` record are taken for four addresses. -/
theorem response_addresses_wrong : ¬∀ (d : Bytes) (r : ResponseMessage), 12 < d.length → r.At d → r.rcode = 0 →
    ∃ response, UdpResponse.parse (d ++ List.replicate (1024 - d.length) 0) d.length = some response ∧
      response.valid = true ∧ response.ips = r.addresses := by
  intro h
  obtain ⟨response, hr, -, hips⟩ := h aaaaBytes aaaaMessage (by decide) (by decide) (by decide)
  have hp : (UdpResponse.parse (aaaaBytes ++ List.replicate (1024 - aaaaBytes.length) 0) aaaaBytes.length).all
      (fun r => r.ips = [0, 0, 0, 0]) = true := by decide +kernel
  rw [hr, Option.all_some, decide_eq_true_eq, hips] at hp
  exact absurd hp (by decide)

end StDns.Protocol
