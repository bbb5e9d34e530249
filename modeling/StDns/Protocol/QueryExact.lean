import StDns.Protocol.ResponseExact

/-!
# What the parser makes of a well-formed query

A query is accepted whatever its flags are and whatever stands behind its questions, and the request has its identifier
and its questions (`request_of_query`).
-/

namespace StDns.Protocol

open Lib Wire

section Accepting

variable {d tail : Bytes} {q : QueryMessage}

/-- The questions end inside their message. -/
theorem questions_end (h : q.At d) : 12 < 12 + q.questionsLen ∧ 12 + q.questionsLen ≤ d.length := by
  obtain ⟨hd, hne, -, -, -, -, hqs⟩ := h
  obtain ⟨x, xs, hxs⟩ := List.exists_cons_of_ne_nil hne
  have hpos : 0 < x.bytes.length := by rw [Question.length_bytes, Question.len]; omega
  have hx := (hxs ▸ hqs : QuestionsAt d 12 (x :: xs)).1.2.2.2.length_le (List.length_pos_iff.1 hpos)
  have hsum := (questions_of_message [] (by omega) (Nat.le_refl 12) (by omega) hqs).2
  refine ⟨?_, hsum⟩
  rw [QueryMessage.questionsLen, hxs, List.map_cons, List.sum_cons, ← Question.length_bytes]
  omega

/-- The header of a query, whatever its flags and its other counts are. -/
theorem header_of_query (tail : Bytes) (h : q.At d) : ∃ header,
    DnsHeader.parse (d ++ tail) 0 DnsHeader.defaultLen = some (some header) ∧ header.id = q.id ∧
      header.questionCount = q.questions.length := by
  obtain ⟨hlt, hle⟩ := questions_end h
  obtain ⟨hd, -, hlen, hid, hhid, hhcount, -⟩ := h
  have hm : d <+: d ++ tail := List.prefix_append d tail
  obtain ⟨h0, h1⟩ := holds_beBytes_two (hhid.mono hm)
  have hqc : read (d ++ tail) 4 2 = some q.questions.length := read_beBytes hlen (hhcount.mono hm)
  have hget : ∀ i < 12, ∃ b, (d ++ tail)[i]? = some b := fun i hi =>
    ⟨_, getElem?_mono hm (List.getElem?_eq_getElem (show i < d.length by omega))⟩
  obtain ⟨b2, h2⟩ := hget 2 (by decide)
  obtain ⟨b3, h3⟩ := hget 3 (by decide)
  obtain ⟨b6, h6⟩ := hget 6 (by decide)
  obtain ⟨b7, h7⟩ := hget 7 (by decide)
  have hac := read_two h6 h7
  unfold DnsHeader.parse
  rw [if_pos (Nat.le_refl _)]
  simp only [Nat.zero_add] at h0 h1 ⊢
  rw [h0, h1, h2, h3, hqc, hac]
  refine ⟨_, rfl, ?_, rfl⟩
  change (UInt8.ofNat (q.id / 256 % 256)).toNat <<< 8 ||| (UInt8.ofNat (q.id % 256)).toNat = q.id
  rw [shiftLeft_or_byte, UInt8.toNat_ofNat', UInt8.toNat_ofNat']
  omega

/-- **A query** is accepted as it was written. -/
theorem request_of_query (tail : Bytes) (h : q.At d) : ∃ r header,
    UdpRequest.parse (d ++ tail) d.length = some r ∧ r.valid = true ∧ r.header = some header ∧ header.id = q.id ∧
      r.queryZone = some (zoneOf (parsedQuestions 12 q.questions)) := by
  obtain ⟨hlt, hle⟩ := questions_end h
  obtain ⟨header, hhead, hid, hcount⟩ := header_of_query tail h
  obtain ⟨hd, hne, -, -, -, -, hqs⟩ := h
  have h12 : DnsHeader.defaultLen = 12 := rfl
  let zone : DnsQueryZone := zoneOf (parsedQuestions 12 q.questions)
  have hzone : DnsQueryZone.ofBytes (d ++ tail) DnsHeader.defaultLen (d.length - DnsHeader.defaultLen)
      header.questionCount = some zone := by
    obtain ⟨hchain, -⟩ := questions_of_message tail (by omega) (Nat.le_refl 12) (by omega) hqs
    refine (zone_iff_chain.2 ⟨_, ?_, rfl⟩).1
    rw [hcount, u32_of_lt (by omega)]
    exact hchain
  have hquerys : ¬zone.querys.length = 0 := by
    obtain ⟨x, xs, hxs⟩ := List.exists_cons_of_ne_nil hne
    simp only [zone, zoneOf, hxs, parsedQuestions]
    exact Nat.succ_ne_zero _
  refine ⟨{ data := 0, len := d.length, header := some header, queryZone := some zone, hosts := hostsOf zone.querys },
    header, ?_, rfl, rfl, hid, rfl⟩
  · unfold UdpRequest.parse
    rw [if_pos (by omega), hhead]
    simp only [Option.bind_eq_bind, Option.bind_some, hzone]
    rw [if_pos (show zone.valid = true from rfl), if_neg hquerys]
    rfl

end Accepting

end StDns.Protocol
