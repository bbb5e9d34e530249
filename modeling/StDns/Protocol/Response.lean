import StDns.Protocol.Request

/-!
# Parsing responses

`udp_response::parse` of `response.cpp`: a loop that parses the header, then the questions, then every answer record,
each in a round of its own. `UdpResponse.parse_eq` unrolls it. The loop over the records is a chain of parsed records
(`RecordChain`, `answers_iff_chain`), the constructor of the questions one of parsed questions (`QuestionChain`,
`zone_chain`).
-/

namespace StDns.Protocol

open Lib

/-! ## `udp_response` -/

structure UdpResponse extends BasicData where
  header : Option DnsHeader := none
  queryZone : Option DnsQueryZone := none
  answerZones : List DnsResourceZone := []
  ips : List Nat := []
  deriving DecidableEq

def UdpResponse.markInvalid (r : UdpResponse) : UdpResponse := { r with valid := false, len := 0 }

/-- The variables of `udp_response::parse`, the object among them. -/
structure ParseCursor where
  dataZone : Nat
  restUnParseSize : Nat
  answerZonesSize : Nat
  response : UdpResponse

/-- One round of the loop over the records. Its counter is the number of records taken. -/
def answerRound (m : Bytes) (maxReadable answerCount : Nat) (c : ParseCursor) :
    Round ParseCursor (Option ParseCursor) :=
  if c.response.answerZones.length < answerCount ∧ c.response.valid = true then
    match DnsResourceZone.ofRest m maxReadable (sub64 maxReadable c.restUnParseSize) with
    | none => .done none
    | some answer =>
      if answer.valid then
        .next
          { dataZone := c.dataZone + answer.len
            restUnParseSize := sub64 c.restUnParseSize answer.len
            answerZonesSize := c.answerZonesSize + answer.len
            response :=
              { c.response with
                answerZones := c.response.answerZones ++ [answer]
                ips := c.response.ips ++ answer.ipv4s } }
      else .next { c with response := c.response.markInvalid }
  else .done (some c)

/-- The loop over the records. -/
def parseAnswers (m : Bytes) (maxReadable answerCount : Nat) (c : ParseCursor) : Option ParseCursor :=
  loop (answerRound m maxReadable answerCount) some
    (fun c => if c.response.valid then answerCount - c.response.answerZones.length + 1 else 0) c

/-- One round of the outer loop: the first part that is missing is parsed. -/
def parseRound (m : Bytes) (maxReadable : Nat) (c : ParseCursor) : Round ParseCursor (Option UdpResponse) :=
  if c.response.valid then
    match c.response.header with
    | none =>
      match DnsHeader.parse m c.dataZone (u32 c.restUnParseSize) with
      | none => .done none
      | some none => .next { c with response := c.response.markInvalid }
      | some (some parseHeader) =>
        .next
          { c with
            dataZone := c.dataZone + parseHeader.len
            restUnParseSize := sub64 c.restUnParseSize parseHeader.len
            response := { c.response with header := some parseHeader } }
    | some header =>
      if header.responseCode = 0 then
        match c.response.queryZone with
        | none =>
          match DnsQueryZone.ofBytes m c.dataZone c.restUnParseSize header.questionCount with
          | none => .done none
          | some zone =>
            if zone.valid then
              .next
                { c with
                  dataZone := c.dataZone + zone.len
                  restUnParseSize := sub64 c.restUnParseSize zone.len
                  response := { c.response with queryZone := some zone } }
            else .next { c with response := c.response.markInvalid }
        | some _ =>
          if c.response.answerZones.length < header.answerCount then
            match parseAnswers m maxReadable header.answerCount
              { c with
                dataZone := c.dataZone + c.answerZonesSize
                restUnParseSize := sub64 c.restUnParseSize c.answerZonesSize } with
            | none => .done none
            | some c' => .next c'
          else .done (some c.response)
      else .done (some c.response)
  else .done (some c.response)

/-- The rounds that the outer loop has left: the parts still missing. -/
def phasesLeft (c : ParseCursor) : Nat :=
  if c.response.valid then
    match c.response.header, c.response.queryZone with
    | none, _ => 3
    | some _, none => 2
    | some header, some _ => if c.response.answerZones.length < header.answerCount then 1 else 0
  else 0

/-- `udp_response::parse` on a fresh response whose buffer is `m`. -/
def UdpResponse.parse (m : Bytes) (maxReadable : Nat) : Option UdpResponse :=
  (if DnsHeader.defaultLen < maxReadable then
    loop (parseRound m maxReadable) (fun c => some c.response) phasesLeft
      ⟨0, maxReadable, 0, { data := 0, len := maxReadable }⟩
  else some { data := 0, len := 0, valid := false }).map fun r => { r with len := maxReadable }

/-! ## The loop over the records -/

/-- Records parsed one behind the other, from the offset that `rest` bytes are left at. -/
def RecordChain (m : Bytes) (n : Nat) : Nat → List DnsResourceZone → Prop
  | _, [] => True
  | rest, a :: as =>
    (DnsResourceZone.ofRest m n (sub64 n rest) = some a ∧ a.valid = true) ∧ RecordChain m n (sub64 rest a.len) as

/-- The variables after these records. -/
def ParseCursor.take (c : ParseCursor) : List DnsResourceZone → ParseCursor
  | [] => c
  | a :: as =>
    ParseCursor.take
      { dataZone := c.dataZone + a.len
        restUnParseSize := sub64 c.restUnParseSize a.len
        answerZonesSize := c.answerZonesSize + a.len
        response :=
          { c.response with answerZones := c.response.answerZones ++ [a], ips := c.response.ips ++ a.ipv4s } } as

theorem ParseCursor.take_response : ∀ (as : List DnsResourceZone) (c : ParseCursor), (c.take as).response =
    { c.response with
      answerZones := c.response.answerZones ++ as, ips := c.response.ips ++ as.flatMap DnsResourceZone.ipv4s }
  | [], c => by simp [take]
  | a :: as, c => by rw [take, take_response as]; simp

section Answers

variable {m : Bytes} {n count : Nat} {c c' : ParseCursor}

theorem answerRound_full (h : ¬(c.response.answerZones.length < count ∧ c.response.valid = true)) :
    answerRound m n count c = .done (some c) := by
  unfold answerRound; rw [if_neg h]

/-- What one round of the loop over the records does. -/
theorem answerRound_cases (m : Bytes) (n : Nat) (h : c.response.answerZones.length < count)
    (hv : c.response.valid = true) :
    answerRound m n count c = .done none ∨
    answerRound m n count c = .next { c with response := c.response.markInvalid } ∨
    ∃ a, DnsResourceZone.ofRest m n (sub64 n c.restUnParseSize) = some a ∧ a.valid = true ∧
      answerRound m n count c = .next (c.take [a]) := by
  unfold answerRound
  rw [if_pos ⟨h, hv⟩]
  cases ha : DnsResourceZone.ofRest m n (sub64 n c.restUnParseSize) with
  | none => exact .inl rfl
  | some a =>
    by_cases hav : a.valid = true
    · refine .inr (.inr ⟨a, rfl, hav, ?_⟩)
      simp only [hav, if_true]
      rfl
    · refine .inr (.inl ?_)
      simp only [hav, Bool.false_eq_true, if_false]

theorem answers_descend : Descends (answerRound m n count)
    fun c => if c.response.valid then count - c.response.answerZones.length + 1 else 0 := by
  intro c c' h
  by_cases hgo : c.response.answerZones.length < count ∧ c.response.valid = true
  · obtain hr | hr | ⟨a, -, -, hr⟩ := answerRound_cases m n hgo.1 hgo.2
    · rw [hr] at h; cases h
    · rw [hr] at h; cases h
      simp [hgo.2, UdpResponse.markInvalid]
    · rw [hr] at h; cases h
      have hlt := hgo.1
      simp only [ParseCursor.take, hgo.2, if_true, List.length_append, List.length_singleton]
      omega
  · rw [answerRound_full hgo] at h; cases h

/-- An invalid response stays as it is. -/
theorem parseAnswers_invalid (h : c.response.valid = false) : parseAnswers m n count c = some c :=
  loop_done (answerRound_full (by simp [h]))

/-- **The loop over the records** is a chain of parsed records, as many as announced, or leaves an invalid response. -/
theorem answers_iff_chain : ∀ {k : Nat} {c : ParseCursor}, c.response.valid = true →
    c.response.answerZones.length + k = count →
      ((parseAnswers m n count c = some c' ∧ c'.response.valid = true) ↔
        ∃ as, as.length = k ∧ RecordChain m n c.restUnParseSize as ∧ c' = c.take as)
  | 0, c, hv, hk => by
    rw [parseAnswers, loop_done (answerRound_full (by omega))]
    constructor
    · rintro ⟨h, -⟩
      exact ⟨[], rfl, trivial, (Option.some.inj h).symm⟩
    · rintro ⟨as, hl, -, rfl⟩
      rw [List.length_eq_zero_iff.1 hl]
      exact ⟨rfl, hv⟩
  | k + 1, c, hv, hk => by
    obtain hr | hr | ⟨a, ha, hav, hr⟩ := answerRound_cases m n (show c.response.answerZones.length < count by omega) hv
    · rw [parseAnswers, loop_done hr]
      constructor
      · rintro ⟨h, -⟩; cases h
      · rintro ⟨as, hl, hc, -⟩
        cases as with
        | nil => cases hl
        | cons a as =>
          unfold answerRound at hr
          rw [if_pos ⟨by omega, hv⟩, hc.1.1] at hr
          simp [hc.1.2] at hr
    · rw [parseAnswers, loop_next answers_descend hr]
      change (parseAnswers m n count _ = some c' ∧ _) ↔ _
      rw [parseAnswers_invalid (by rfl)]
      constructor
      · rintro ⟨h, hv'⟩
        rw [← Option.some.inj h] at hv'
        cases hv'
      · rintro ⟨as, hl, hc, -⟩
        cases as with
        | nil => cases hl
        | cons a as =>
          unfold answerRound at hr
          rw [if_pos ⟨by omega, hv⟩, hc.1.1] at hr
          simp only [hc.1.2, if_true, Round.next.injEq] at hr
          have hvv := congrArg (fun c => c.response.valid) hr
          simp [hv, UdpResponse.markInvalid] at hvv
    · rw [parseAnswers, loop_next answers_descend hr]
      change (parseAnswers m n count (c.take [a]) = some c' ∧ _) ↔ _
      rw [answers_iff_chain (k := k) (by rw [ParseCursor.take_response]; exact hv)
        (by rw [ParseCursor.take_response]; simp only [List.length_append, List.length_singleton]; omega)]
      constructor
      · rintro ⟨as, hl, hc, rfl⟩
        exact ⟨a :: as, by simp [hl], ⟨⟨ha, hav⟩, hc⟩, rfl⟩
      · rintro ⟨as, hl, hc, rfl⟩
        cases as with
        | nil => cases hl
        | cons a' as =>
          obtain rfl : a = a' := Option.some.inj (ha.symm.trans hc.1.1)
          exact ⟨as, by simpa using hl, hc.2, rfl⟩

/-- The loop over the records leaves the header and the questions alone, and a response still valid has its records. -/
theorem parseAnswers_keeps (h : parseAnswers m n count c = some c') :
    c'.response.header = c.response.header ∧ c'.response.queryZone = c.response.queryZone ∧
      (c'.response.valid = true → count ≤ c'.response.answerZones.length) := by
  revert c'
  refine loop_rule answers_descend
    (I := fun s => s.response.header = c.response.header ∧ s.response.queryZone = c.response.queryZone)
    (Q := fun r => ∀ {c'}, r = some c' → c'.response.header = c.response.header ∧
      c'.response.queryZone = c.response.queryZone ∧
      (c'.response.valid = true → count ≤ c'.response.answerZones.length)) ?_ ?_ c ⟨rfl, rfl⟩
  · intro s s' hI h
    by_cases hgo : s.response.answerZones.length < count ∧ s.response.valid = true
    · obtain hr | hr | ⟨a, -, -, hr⟩ := answerRound_cases m n hgo.1 hgo.2
      · rw [hr] at h; cases h
      · rw [hr] at h; cases h; exact hI
      · rw [hr] at h; cases h; exact hI
    · rw [answerRound_full hgo] at h; cases h
  · intro s r hI h c' hc
    by_cases hgo : s.response.answerZones.length < count ∧ s.response.valid = true
    · obtain hr | hr | ⟨a, -, -, hr⟩ := answerRound_cases m n hgo.1 hgo.2
      · rw [hr] at h; cases h; cases hc
      · rw [hr] at h; cases h
      · rw [hr] at h; cases h
    · rw [answerRound_full hgo] at h
      cases h; cases hc
      exact ⟨hI.1, hI.2, fun hv => by simpa [hv] using hgo⟩

end Answers

/-! ## The outer loop -/

section Outer

variable {m : Bytes} {n : Nat}

theorem sub64_zero {a : Nat} (ha : a < 2 ^ 64) : sub64 a 0 = a := sub64_of_le (Nat.zero_le a) ha

/-- Every round of the outer loop that goes on parses a part that was missing, or gives up. -/
theorem phases_descend : Descends (parseRound m n) phasesLeft := by
  intro c c' h
  unfold parseRound at h
  split at h
  swap
  · cases h
  rename_i hv
  split at h
  · rename_i hh
    have hp : phasesLeft c = 3 := by unfold phasesLeft; simp [hv, hh]
    split at h
    · cases h
    · cases h; rw [hp]; simp [phasesLeft, UdpResponse.markInvalid]
    · cases h
      rw [hp]
      unfold phasesLeft
      simp only [hv, if_true]
      cases c.response.queryZone with
      | none => exact Nat.lt_succ_self 2
      | some zone => simp only; split <;> omega
  · rename_i header hh
    split at h
    swap
    · cases h
    split at h
    · rename_i hz
      have hp : phasesLeft c = 2 := by unfold phasesLeft; simp [hv, hh, hz]
      split at h
      · cases h
      · split at h
        · cases h
          rw [hp]
          unfold phasesLeft
          simp only [hv, if_true, hh]
          split <;> omega
        · cases h; rw [hp]; simp [phasesLeft, UdpResponse.markInvalid]
    · rename_i zone hz
      split at h
      swap
      · cases h
      rename_i hlt
      have hp : phasesLeft c = 1 := by unfold phasesLeft; simp [hv, hh, hz, hlt]
      split at h
      · cases h
      · rename_i c'' hc
        cases h
        obtain ⟨hh', hz', hcount⟩ := parseAnswers_keeps hc
        simp only at hh' hz'
        rw [hp]
        unfold phasesLeft
        split
        · rename_i hv'
          rw [hh', hh, hz', hz]
          simp only
          rw [if_neg (Nat.not_lt.2 (hcount hv'))]
          omega
        · omega

/-- The header of a message is twelve bytes long. -/
theorem header_len {i len : Nat} {header : DnsHeader} (h : DnsHeader.parse m i len = some (some header)) :
    header.len = DnsHeader.defaultLen := by
  unfold DnsHeader.parse at h
  split at h
  · simp only [Option.bind_eq_bind, Option.bind_eq_some_iff, Option.pure_def, Option.some.injEq] at h
    obtain ⟨-, -, -, -, -, -, -, -, -, -, -, -, rfl⟩ := h
    rfl
  · simp at h

/-- The response once its header and its questions are parsed. -/
def afterQuestions (n : Nat) (header : DnsHeader) (zone : DnsQueryZone) : ParseCursor :=
  { dataZone := DnsHeader.defaultLen + zone.len
    restUnParseSize := sub64 (n - DnsHeader.defaultLen) zone.len
    answerZonesSize := 0
    response := { data := 0, len := n, header := some header, queryZone := some zone } }

/-- The records are the last part. -/
theorem loop_afterQuestions {header : DnsHeader} (hrc : header.responseCode = 0) (zone : DnsQueryZone) :
    loop (parseRound m n) (fun c => some c.response) phasesLeft (afterQuestions n header zone) =
      (parseAnswers m n header.answerCount (afterQuestions n header zone)).map ParseCursor.response := by
  by_cases hcount : 0 < header.answerCount
  swap
  · -- no record is announced: the loop over them is not entered
    rw [loop_done (r := some (afterQuestions n header zone).response)
      (by simp [parseRound, afterQuestions, hrc, Nat.eq_zero_of_not_pos hcount])]
    rw [parseAnswers, loop_done (answerRound_full fun h => hcount (Nat.lt_of_le_of_lt (Nat.zero_le _) h.1))]
    rfl
  have hrest : sub64 (sub64 (n - DnsHeader.defaultLen) zone.len) 0 = sub64 (n - DnsHeader.defaultLen) zone.len :=
    sub64_zero (sub64_lt _ _)
  cases ha : parseAnswers m n header.answerCount (afterQuestions n header zone) with
  | none =>
    rw [loop_done (r := none) (by
      simp only [afterQuestions] at ha
      simp [parseRound, afterQuestions, hrc, hcount, hrest, ha])]
    rfl
  | some c' =>
    have hr : parseRound m n (afterQuestions n header zone) = .next c' := by
      simp only [afterQuestions] at ha
      simp [parseRound, afterQuestions, hrc, hcount, hrest, ha]
    rw [loop_next phases_descend hr]
    obtain ⟨hh', hz', hdone⟩ := parseAnswers_keeps ha
    have hr' : parseRound m n c' = .done (some c'.response) := by
      unfold parseRound
      split
      · rename_i hv
        simp [hh', hz', afterQuestions, hrc, Nat.not_lt.2 (hdone hv)]
      · rfl
    rw [loop_done hr']
    rfl

/-- The questions and the records, when the response code is zero. -/
theorem loop_afterHeader {header : DnsHeader} (hrc : header.responseCode = 0) :
    loop (parseRound m n) (fun c => some c.response) phasesLeft
        ⟨DnsHeader.defaultLen, n - DnsHeader.defaultLen, 0, { data := 0, len := n, header := some header }⟩ =
      (DnsQueryZone.ofBytes m DnsHeader.defaultLen (n - DnsHeader.defaultLen) header.questionCount).bind fun zone =>
        if zone.valid then
          (parseAnswers m n header.answerCount (afterQuestions n header zone)).map ParseCursor.response
        else some { data := 0, len := 0, valid := false, header := some header } := by
  cases hz : DnsQueryZone.ofBytes m DnsHeader.defaultLen (n - DnsHeader.defaultLen) header.questionCount with
  | none =>
    rw [loop_done (r := none) (by simp [parseRound, hrc, hz])]
    rfl
  | some zone =>
    by_cases hzv : zone.valid = true
    · have hr : parseRound m n
          ⟨DnsHeader.defaultLen, n - DnsHeader.defaultLen, 0, { data := 0, len := n, header := some header }⟩ =
            .next (afterQuestions n header zone) := by
        simp [parseRound, hrc, hz, hzv, afterQuestions]
      rw [loop_next phases_descend hr, loop_afterQuestions hrc]
      simp only [Option.bind_some, if_pos hzv]
    · have hr : parseRound m n
          ⟨DnsHeader.defaultLen, n - DnsHeader.defaultLen, 0, { data := 0, len := n, header := some header }⟩ =
            .next ⟨DnsHeader.defaultLen, n - DnsHeader.defaultLen, 0,
              { data := 0, len := 0, valid := false, header := some header }⟩ := by
        simp [parseRound, hrc, hz, hzv, UdpResponse.markInvalid]
      rw [loop_next phases_descend hr,
        loop_done (r := some { data := 0, len := 0, valid := false, header := some header }) (by simp [parseRound])]
      simp only [Option.bind_some, if_neg hzv]

/-- **The parts of a response** in their order: header, questions, records. -/
theorem UdpResponse.parse_eq (hn : DnsHeader.defaultLen < n) (hn' : n < 2 ^ 64) :
    UdpResponse.parse m n = (DnsHeader.parse m 0 (u32 n)).bind fun
      | none => some { data := 0, len := n, valid := false }
      | some header =>
        if header.responseCode = 0 then
          (DnsQueryZone.ofBytes m DnsHeader.defaultLen (n - DnsHeader.defaultLen) header.questionCount).bind fun zone =>
            if zone.valid then
              (parseAnswers m n header.answerCount (afterQuestions n header zone)).map fun c =>
                { c.response with len := n }
            else some { data := 0, len := n, valid := false, header := some header }
        else some { data := 0, len := n, header := some header } := by
  unfold UdpResponse.parse
  rw [if_pos hn]
  cases hh : DnsHeader.parse m 0 (u32 n) with
  | none =>
    rw [loop_done (r := none) (by simp [parseRound, hh])]
    rfl
  | some h =>
    cases h with
    | none =>
      have hr : parseRound m n ⟨0, n, 0, { data := 0, len := n }⟩ =
          .next ⟨0, n, 0, { data := 0, len := 0, valid := false }⟩ := by
        simp [parseRound, hh, UdpResponse.markInvalid]
      rw [loop_next phases_descend hr,
        loop_done (r := some { data := 0, len := 0, valid := false }) (by simp [parseRound])]
      rfl
    | some header =>
      have hr : parseRound m n ⟨0, n, 0, { data := 0, len := n }⟩ =
          .next ⟨DnsHeader.defaultLen, n - DnsHeader.defaultLen, 0,
            { data := 0, len := n, header := some header }⟩ := by
        simp only [parseRound, hh, header_len hh, if_true, Nat.zero_add]
        rw [sub64_of_le hn.le hn']
      rw [loop_next phases_descend hr]
      by_cases hrc : header.responseCode = 0
      · rw [loop_afterHeader hrc]
        simp only [Option.bind_some, if_pos hrc]
        cases DnsQueryZone.ofBytes m DnsHeader.defaultLen (n - DnsHeader.defaultLen) header.questionCount with
        | none => rfl
        | some zone =>
          simp only [Option.bind_some]
          split
          · rw [Option.map_map]
            rfl
          · rfl
      · rw [loop_done (r := some { data := 0, len := n, header := some header }) (by simp [parseRound, hrc])]
        simp only [Option.bind_some, if_neg hrc]
        rfl

/-- The zone of a run of questions behind the header. -/
def zoneOf (qs : List DnsQuery) : DnsQueryZone :=
  { data := DnsHeader.defaultLen, len := (qs.map fun q => q.len).sum, querys := qs }

/-- The response made of a header, questions and records. -/
def responseOf (n : Nat) (header : DnsHeader) (qs : List DnsQuery) (as : List DnsResourceZone) : UdpResponse :=
  { data := 0
    len := n
    header := some header
    queryZone := some (zoneOf qs)
    answerZones := as
    ips := as.flatMap DnsResourceZone.ipv4s }

theorem take_afterQuestions (header : DnsHeader) (qs : List DnsQuery) (as : List DnsResourceZone) :
    { ((afterQuestions n header (zoneOf qs)).take as).response with len := n } = responseOf n header qs as := by
  rw [ParseCursor.take_response]
  simp [afterQuestions, responseOf]

/-- Behind a header without an error code and a chain of questions only the records are left to parse. -/
theorem UdpResponse.parse_records {header : DnsHeader} {qs : List DnsQuery} (h12 : DnsHeader.defaultLen < n)
    (hn : n < 2 ^ 64) (hhead : DnsHeader.parse m 0 (u32 n) = some (some header)) (hrc : header.responseCode = 0)
    (hqs : QuestionChain m (n - DnsHeader.defaultLen) header.questionCount (u32 (n - DnsHeader.defaultLen))
      DnsHeader.defaultLen qs) :
    UdpResponse.parse m n = (parseAnswers m n header.answerCount (afterQuestions n header (zoneOf qs))).map fun c =>
      { c.response with len := n } := by
  obtain ⟨hzone, hzv⟩ := zone_iff_chain.2 ⟨qs, hqs, rfl⟩
  rw [UdpResponse.parse_eq h12 hn, hhead]
  simp only [Option.bind_some, if_pos hrc]
  rw [hzone]
  rfl

/-- The addresses of a valid response are those of its chain of records. -/
theorem UdpResponse.addresses_iff_chain {header : DnsHeader} {qs : List DnsQuery} {ips : List Nat}
    (h12 : DnsHeader.defaultLen < n) (hn : n < 2 ^ 64) (hhead : DnsHeader.parse m 0 (u32 n) = some (some header))
    (hrc : header.responseCode = 0)
    (hqs : QuestionChain m (n - DnsHeader.defaultLen) header.questionCount (u32 (n - DnsHeader.defaultLen))
      DnsHeader.defaultLen qs) :
    (∃ r, UdpResponse.parse m n = some r ∧ r.valid = true ∧ r.ips = ips) ↔
      ∃ as, as.length = header.answerCount ∧ RecordChain m n (sub64 (n - DnsHeader.defaultLen) (zoneOf qs).len) as ∧
        as.flatMap DnsResourceZone.ipv4s = ips := by
  rw [UdpResponse.parse_records h12 hn hhead hrc hqs]
  have hans {c' : ParseCursor} :
      (parseAnswers m n header.answerCount (afterQuestions n header (zoneOf qs)) = some c' ∧ c'.response.valid = true) ↔
        ∃ as, as.length = header.answerCount ∧
          RecordChain m n (afterQuestions n header (zoneOf qs)).restUnParseSize as ∧
          c' = (afterQuestions n header (zoneOf qs)).take as :=
    answers_iff_chain rfl (Nat.zero_add header.answerCount)
  constructor
  · rintro ⟨r, h, hv, hips⟩
    obtain ⟨c', hc, rfl⟩ := Option.map_eq_some_iff.1 h
    obtain ⟨as, hlen, has, rfl⟩ := hans.1 ⟨hc, hv⟩
    rw [take_afterQuestions] at hips
    exact ⟨as, hlen, has, hips⟩
  · rintro ⟨as, hlen, has, hips⟩
    obtain ⟨hc, hv⟩ := hans.2 ⟨as, hlen, has, rfl⟩
    rw [hc, Option.map_some]
    exact ⟨_, rfl, hv, by rw [take_afterQuestions]; exact hips⟩

/-- **A valid response without an error code** is its header, a chain of questions and a chain of records. -/
theorem UdpResponse.parse_iff_chains {r : UdpResponse} (hn : n < 2 ^ 64) :
    (UdpResponse.parse m n = some r ∧ r.valid = true ∧ ∃ header, r.header = some header ∧ header.responseCode = 0) ↔
      DnsHeader.defaultLen < n ∧ ∃ header qs as, DnsHeader.parse m 0 (u32 n) = some (some header) ∧
        header.responseCode = 0 ∧
        QuestionChain m (n - DnsHeader.defaultLen) header.questionCount (u32 (n - DnsHeader.defaultLen))
          DnsHeader.defaultLen qs ∧
        as.length = header.answerCount ∧
        RecordChain m n (sub64 (n - DnsHeader.defaultLen) (zoneOf qs).len) as ∧ r = responseOf n header qs as := by
  constructor
  · rintro ⟨h, hv, header, hh, hrc⟩
    by_cases h12 : DnsHeader.defaultLen < n
    swap
    · unfold UdpResponse.parse at h
      rw [if_neg h12] at h
      cases h; cases hv
    rw [UdpResponse.parse_eq h12 hn] at h
    obtain ⟨hd, hhead, h⟩ := Option.bind_eq_some_iff.1 h
    cases hd with
    | none => cases h; cases hv
    | some header' =>
      simp only at h
      by_cases hrc' : header'.responseCode = 0
      swap
      · rw [if_neg hrc'] at h
        cases h; cases hh
        exact absurd hrc hrc'
      rw [if_pos hrc'] at h
      obtain ⟨zone, hzone, h⟩ := Option.bind_eq_some_iff.1 h
      by_cases hzv : zone.valid = true
      swap
      · rw [if_neg hzv] at h
        cases h; cases hv
      rw [if_pos hzv] at h
      obtain ⟨qs, hqs, rfl⟩ := zone_iff_chain.1 ⟨hzone, hzv⟩
      obtain ⟨c', hans, rfl⟩ := Option.map_eq_some_iff.1 h
      obtain ⟨as, hlen, has, rfl⟩ := (answers_iff_chain rfl (Nat.zero_add _)).1 ⟨hans, hv⟩
      exact ⟨h12, header', qs, as, hhead, hrc', hqs, hlen, has, take_afterQuestions header' qs as⟩
  · rintro ⟨h12, header, qs, as, hhead, hrc, hqs, hlen, has, rfl⟩
    have hans := (answers_iff_chain (m := m) (n := n) (c := afterQuestions n header (zoneOf qs)) rfl (Nat.zero_add _)).2
      ⟨as, hlen, has, rfl⟩
    refine ⟨?_, rfl, header, rfl, hrc⟩
    rw [UdpResponse.parse_records h12 hn hhead hrc hqs, hans.1, Option.map_some, take_afterQuestions]

end Outer

/-- A response with one address for the root name. -/
def oneAddress : Bytes := [0, 7, 128, 128, 0, 0, 0, 1, 0, 0, 0, 0, 0, 0, 1, 0, 1, 0, 0, 0, 60, 0, 4, 10, 0, 0, 1]

example : (UdpResponse.parse oneAddress 27).map (fun r => r.ips) = some [10 * 256 ^ 3 + 1] := by decide

/-! ## One record -/

section Record

variable {m : Bytes} {n i : Nat}

theorem readIpv4s_eq_some {begin k : Nat} {l : List Nat} (h : readIpv4s m begin k = some l) :
    l.length = k ∧ ∀ j (hj : j < l.length), read m (begin + j * 4) 4 = some l[j] := by
  have hf := mapM_eq_some_iff.1 h
  have hl := hf.length_eq
  rw [List.length_range] at hl
  refine ⟨hl.symm, fun j hj => ?_⟩
  have hget := (List.forall₂_iff_get.1 hf).2 j (by rw [List.length_range]; omega) hj
  simpa using hget

/-- A parsed record is its decoded owner name, the fixed fields behind it, and what its type says of its data. -/
theorem record_parsed {a : DnsResourceZone} (h : DnsResourceZone.ofRest m n i = some a) (hv : a.valid = true) :
    ∃ k, (parseDomain m n i (sub64 n i) []).ret = some k ∧ k ≠ 0 ∧ a.data = i ∧
      (a.domain.map fun d => d.len) = some (u32 k) ∧
      read m (i + u32 k) 2 = some a.type ∧ read m (i + u32 k + 8) 2 = some a.length ∧
      a.len = u32 k + DnsResourceZone.fixedLen + a.length ∧
      (a.type = QueryType.cname ∧ a.ipv4s = [] ∨
        a.type ≠ QueryType.cname ∧ a.length % 4 = 0 ∧
          readIpv4s m (i + u32 k + DnsResourceZone.fixedLen) (a.length / 4) = some a.ipv4s) := by
  simp only [DnsResourceZone.ofRest, DnsDomain.ofRest, DnsDomain.ofWindow, DnsDomain.ofParsed, Option.bind_eq_bind,
    Option.bind_eq_some_iff, Option.map_eq_some_iff] at h
  obtain ⟨dom, ⟨k, hk, rfl⟩, h⟩ := h
  by_cases h0 : k = 0
  · simp only [h0, if_true, Bool.false_eq_true, if_false, Option.pure_def, Option.some.injEq] at h
    rw [← h] at hv; cases hv
  simp only [if_neg h0, if_true, Option.bind_eq_some_iff] at h
  obtain ⟨type, ht, resource, hres, liveTime, hlt, length, hlen, h⟩ := h
  refine ⟨k, hk, h0, ?_⟩
  by_cases hc : type = QueryType.cname
  · simp only [if_pos hc, Option.bind_eq_some_iff, Option.map_eq_some_iff, Option.pure_def, Option.some.injEq] at h
    obtain ⟨cname, -, rfl⟩ := h
    simp only at hv
    exact ⟨rfl, rfl, ht, hlen, by simp only [hv, if_true], .inl ⟨hc, rfl⟩⟩
  · rw [if_neg hc] at h
    by_cases h4 : length % 4 = 0
    · simp only [if_pos h4, Option.bind_eq_some_iff, Option.pure_def, Option.some.injEq] at h
      obtain ⟨ips, hips, rfl⟩ := h
      exact ⟨rfl, rfl, ht, hlen, rfl, .inr ⟨hc, h4, hips⟩⟩
    · simp only [if_neg h4, Option.pure_def, Option.some.injEq] at h
      rw [← h] at hv; cases hv

end Record

end StDns.Protocol
