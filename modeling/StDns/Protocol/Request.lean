import StDns.Protocol.NameLength

/-!
# Requests

`udp_request` of `request.cpp`: a buffer that a datagram was received into, parsed into a header and its questions.
`question_parsed` is what a parsed question is, `zone_iff_chain` what the constructor of `dns_query_zone` makes of a run
of questions. An accepted datagram contains the questions it announces iff it is `Asked`
(`parse_contains_iff`).
-/

namespace StDns.Protocol

open Lib Wire

/-! ## `udp_request` -/

structure UdpRequest extends BasicData where
  header : Option DnsHeader := none
  queryZone : Option DnsQueryZone := none
  hosts : List Bytes := []
  deriving DecidableEq

/-- The host names of parsed questions; an empty one is left out. -/
def hostsOf (querys : List DnsQuery) : List Bytes :=
  querys.filterMap fun it => it.domain.bind fun domain => if domain.domain = [] then none else some domain.domain

/-- `udp_request::parse` on a fresh request whose buffer is `m`. -/
def UdpRequest.parse (m : Bytes) (n : Nat) : Option UdpRequest :=
  if DnsHeader.defaultLen < n then do
    match ← DnsHeader.parse m 0 DnsHeader.defaultLen with
    | some header =>
      let queryZone ← DnsQueryZone.ofBytes m DnsHeader.defaultLen (n - DnsHeader.defaultLen) header.questionCount
      if queryZone.valid then
        if queryZone.querys.length = 0 then return { data := 0, len := n, valid := false, header := some header }
        else
          return { data := 0
                   len := n
                   header := some header
                   queryZone := some queryZone
                   hosts := hostsOf queryZone.querys }
      else return { data := 0, len := n, valid := false, header := some header }
    | none => return { data := 0, len := n, valid := false }
  else return { data := 0, len := n, valid := false }

/-- `udp_request::get_host`. -/
def UdpRequest.getHost (r : UdpRequest) : Bytes := r.hosts.head?.getD []

/-! ## One question -/

section Question

variable {m d : Bytes} {i len : Nat}

theorem read_two {hi lo : UInt8} (h0 : m[i]? = some hi) (h1 : m[i + 1]? = some lo) :
    read m i 2 = some (hi.toNat * 256 + lo.toNat) := by
  simp only [read, List.range, List.range.loop, List.foldlM_cons, List.foldlM_nil, Nat.add_zero, h0, h1]
  have h := shiftLeft_or_byte hi.toNat lo
  simpa using h

/-- A parsed question is its decoded name and the two bytes behind it. -/
theorem question_parsed {q : DnsQuery} (h : DnsQuery.parse m i len = some q) (hv : q.valid = true) :
    ∃ k, (parseDomain (m.drop i) (u32 len) 0 (u32 len) []).ret = some k ∧ k ≠ 0 ∧ q.data = i ∧
      q.len = u32 k + DnsQuery.defaultFlagsSize ∧ read m (i + u32 k) 2 = some q.queryTypeValue := by
  simp only [DnsQuery.parse, DnsDomain.parse, DnsDomain.ofParsed, Option.bind_eq_bind, Option.bind_eq_some_iff,
    Option.map_eq_some_iff] at h
  obtain ⟨dom, ⟨k, hk, rfl⟩, h⟩ := h
  by_cases h0 : k = 0
  · simp only [h0, if_true, Bool.false_eq_true, if_false, Option.pure_def, Option.some.injEq] at h
    rw [← h] at hv; cases hv
  · simp only [if_neg h0, if_true, Option.bind_eq_some_iff, Option.pure_def, Option.some.injEq] at h
    obtain ⟨v, hr, rfl⟩ := h
    exact ⟨k, hk, h0, rfl, rfl, hr⟩

/-- The bytes of a datagram are read alike in the buffer that holds it. -/
theorem read_append {tail : Bytes} {v : Nat} (hi : i + 2 ≤ d.length) :
    read (d ++ tail) i 2 = some v ↔ read d i 2 = some v := by
  have h0 : d[i]? = some d[i] := List.getElem?_eq_getElem (by omega)
  have h1 : d[i + 1]? = some d[i + 1] := List.getElem?_eq_getElem (by omega)
  rw [read_two h0 h1, read_two (getElem?_mono (List.prefix_append d tail) h0)
    (getElem?_mono (List.prefix_append d tail) h1)]

/-- Behind the pointer of a question's name, when labels with text come before it, stands a byte that no name goes on
with. A pointer to offset 0 is one to the question itself. -/
def Ends (d : Bytes) (i : Nat) (o : OwnName) : Prop :=
  ∀ pos ∈ o.pointer, pos ≠ 0 → HasText o.labels → ∃ x : UInt8, d[i + o.len]? = some x ∧ 64 ≤ x.toNat ∧ x.toNat < 192

/-- A question that lies in the datagram is parsed with its own length iff its name ends there. -/
theorem question_len_iff {tail : Bytes} {q : DnsQuery} {o : OwnName} (hlen : len + 1 < 2 ^ 32)
    (h : DnsQuery.parse (d ++ tail) i len = some q) (hv : q.valid = true) (hat : o.At d i)
    (hin : i + o.len + 4 ≤ d.length) (hcov : o.len + 4 ≤ len) :
    q.len = o.len + 4 ↔ Ends d i o := by
  obtain ⟨k, hk, h0, -, hq, -⟩ := question_parsed h hv
  rw [u32_of_lt (by omega)] at hk
  have hkle : k ≤ len + 1 := ret_le (by omega) (by simp) hk
  have hq' : q.len = k + 4 := by
    rw [hq, DnsQuery.defaultFlagsSize, u32, Nat.mod_eq_of_lt (by omega)]
  have hiff := ret_eq_len_iff (by omega) (hat.mono (List.prefix_append d tail)).drop (by omega) hk h0
  rw [hq', Nat.add_right_cancel_iff, hiff]
  refine forall_congr' fun pos => forall_congr' fun _ => forall_congr' fun _ => forall_congr' fun _ => ?_
  have hget : ((d ++ tail).drop i)[0 + o.len]? = d[i + o.len]? := by
    rw [List.getElem?_drop, Nat.zero_add, List.getElem?_append_left (by omega)]
  unfold StopsAt
  rw [hget]
  exact or_iff_right (by omega)

end Question

/-! ## The questions of a datagram -/

/-- `d` has at index `i` the questions `qs`, one behind the other, each a complete name with its type and class. -/
def Questions (d : Bytes) : Nat → List DnsQuery → Prop
  | _, [] => True
  | i, q :: qs =>
    (q.data = i ∧ ∃ o : OwnName, o.At d i ∧ q.len = o.len + 4 ∧ i + o.len + 4 ≤ d.length ∧
      read d (i + o.len) 2 = some q.queryTypeValue) ∧ Questions d (i + q.len) qs

/-- `d` has at index `i` so many complete questions, one behind the other, and their names end. -/
def Asked (d : Bytes) : Nat → Nat → Prop
  | 0, _ => True
  | k + 1, i => ∃ o : OwnName, o.At d i ∧ i + o.len + 4 ≤ d.length ∧ Ends d i o ∧ Asked d k (i + o.len + 4)

/-- What the acceptance of a datagram should mean: its questions lie in it, as many as it announces. -/
def Contains (d : Bytes) (r : UdpRequest) : Prop :=
  ∃ header zone, r.header = some header ∧ r.queryZone = some zone ∧ zone.querys.length = header.questionCount ∧
    Questions d DnsHeader.defaultLen zone.querys ∧ DnsHeader.defaultLen + zone.len ≤ d.length

section Zone

variable {m d tail : Bytes} {start len size : Nat}

theorem zoneRound_full {c : ZoneCursor} (h : ¬(0 < c.resetSize ∧ c.querys.length < size)) :
    zoneRound m start len size c = .done (some { data := start, len := c.realSize, querys := c.querys }) := by
  unfold zoneRound; rw [if_neg h]

theorem zoneRound_fault {c : ZoneCursor} (h : 0 < c.resetSize ∧ c.querys.length < size)
    (hq : DnsQuery.parse m c.data len = none) : zoneRound m start len size c = .done none := by
  unfold zoneRound; rw [if_pos h, hq]

theorem zoneRound_valid {c : ZoneCursor} {q : DnsQuery} (h : 0 < c.resetSize ∧ c.querys.length < size)
    (hq : DnsQuery.parse m c.data len = some q) (hv : q.valid = true) :
    zoneRound m start len size c =
      .next ⟨sub32 c.resetSize q.len, c.data + q.len, c.realSize + q.len, c.querys ++ [q]⟩ := by
  unfold zoneRound; rw [if_pos h, hq]; simp only [hv, if_true]

theorem zoneRound_invalid {c : ZoneCursor} {q : DnsQuery} (h : 0 < c.resetSize ∧ c.querys.length < size)
    (hq : DnsQuery.parse m c.data len = some q) (hv : ¬q.valid = true) :
    zoneRound m start len size c =
      .done (some { data := start, len := c.realSize, valid := false, querys := c.querys }) := by
  unfold zoneRound; rw [if_pos h, hq]; simp only [hv, Bool.false_eq_true, if_false]

/-- What one round of the constructor does. -/
theorem zoneRound_cases (m : Bytes) (start len size : Nat) (c : ZoneCursor) :
    (∃ q, DnsQuery.parse m c.data len = some q ∧ q.valid = true ∧ (0 < c.resetSize ∧ c.querys.length < size) ∧
      zoneRound m start len size c =
        .next ⟨sub32 c.resetSize q.len, c.data + q.len, c.realSize + q.len, c.querys ++ [q]⟩) ∨
    zoneRound m start len size c = .done none ∨
    ((0 < c.resetSize ∧ c.querys.length < size) ∧ zoneRound m start len size c =
      .done (some { data := start, len := c.realSize, valid := false, querys := c.querys })) ∨
    (¬(0 < c.resetSize ∧ c.querys.length < size) ∧ zoneRound m start len size c =
      .done (some { data := start, len := c.realSize, querys := c.querys })) := by
  by_cases h : 0 < c.resetSize ∧ c.querys.length < size
  · cases hq : DnsQuery.parse m c.data len with
    | none => exact .inr (.inl (zoneRound_fault h hq))
    | some q =>
      by_cases hv : q.valid = true
      · exact .inl ⟨q, rfl, hv, h, zoneRound_valid h hq hv⟩
      · exact .inr (.inr (.inl ⟨h, zoneRound_invalid h hq hv⟩))
  · exact .inr (.inr (.inr ⟨h, zoneRound_full h⟩))

theorem zone_descends : Descends (zoneRound m start len size) fun c => size - c.querys.length := by
  intro c c' h
  obtain ⟨q, -, -, hgo, hr⟩ | hr | ⟨-, hr⟩ | ⟨-, hr⟩ := zoneRound_cases m start len size c
  · rw [hr] at h
    cases h
    simp only [List.length_append, List.length_singleton]
    omega
  all_goals rw [hr] at h; cases h

/-- Questions parsed one behind the other from index `data`, until `size` are taken or no byte is left. -/
def QuestionChain (m : Bytes) (len : Nat) : Nat → Nat → Nat → List DnsQuery → Prop
  | size, reset, _, [] => ¬(0 < reset ∧ 0 < size)
  | size, reset, data, q :: qs =>
    ((0 < reset ∧ 0 < size) ∧ DnsQuery.parse m data len = some q ∧ q.valid = true) ∧
      QuestionChain m len (size - 1) (sub32 reset q.len) (data + q.len) qs

theorem loop_iff_chain {z : DnsQueryZone} : ∀ {k : Nat} {c : ZoneCursor}, c.querys.length + k = size →
    ((loop (zoneRound m start len size) (fun c => some { data := start, len := c.realSize, querys := c.querys })
        (fun c => size - c.querys.length) c = some z ∧ z.valid = true) ↔
      ∃ qs, QuestionChain m len k c.resetSize c.data qs ∧
        z = { data := start, len := c.realSize + (qs.map fun q => q.len).sum, querys := c.querys ++ qs }) := by
  intro k
  induction k with
  | zero =>
    intro c hk
    rw [loop_done (zoneRound_full (by omega))]
    constructor
    · rintro ⟨h, -⟩
      exact ⟨[], fun h => absurd h.2 (Nat.lt_irrefl 0), by simpa using (Option.some.inj h).symm⟩
    · rintro ⟨qs, hc, rfl⟩
      cases qs with
      | nil => simp
      | cons q qs => exact absurd hc.1.1.2 (Nat.lt_irrefl 0)
  | succ k ih =>
    intro c hk
    obtain ⟨q, hq, hqv, hgo, hr⟩ | hr | ⟨hgo, hr⟩ | ⟨hgo, hr⟩ := zoneRound_cases m start len size c
    · rw [loop_next zone_descends hr, ih (by simp only [List.length_append, List.length_singleton]; omega)]
      constructor
      · rintro ⟨qs, hc, rfl⟩
        exact ⟨q :: qs, ⟨⟨⟨hgo.1, Nat.succ_pos k⟩, hq, hqv⟩, hc⟩, by simp [Nat.add_assoc]⟩
      · rintro ⟨qs, hc, rfl⟩
        cases qs with
        | nil => exact absurd ⟨hgo.1, Nat.succ_pos k⟩ hc
        | cons q' qs =>
          obtain rfl : q = q' := Option.some.inj (hq.symm.trans hc.1.2.1)
          exact ⟨qs, hc.2, by simp [Nat.add_assoc]⟩
    · rw [loop_done hr]
      constructor
      · rintro ⟨h, -⟩; cases h
      · rintro ⟨qs, hc, -⟩
        cases qs with
        | nil =>
          have hgo : ¬(0 < c.resetSize ∧ c.querys.length < size) := fun h => hc ⟨h.1, Nat.succ_pos k⟩
          rw [zoneRound_full hgo] at hr; cases hr
        | cons q qs =>
          rw [zoneRound_valid ⟨hc.1.1.1, by omega⟩ hc.1.2.1 hc.1.2.2] at hr; cases hr
    · rw [loop_done hr]
      constructor
      · rintro ⟨h, hv⟩
        rw [← Option.some.inj h] at hv; cases hv
      · rintro ⟨qs, hc, -⟩
        cases qs with
        | nil => exact absurd ⟨hgo.1, Nat.succ_pos k⟩ hc
        | cons q qs => rw [zoneRound_valid hgo hc.1.2.1 hc.1.2.2] at hr; cases hr
    · rw [loop_done hr]
      constructor
      · rintro ⟨h, -⟩
        exact ⟨[], fun h => hgo ⟨h.1, by omega⟩, by simpa using (Option.some.inj h).symm⟩
      · rintro ⟨qs, hc, rfl⟩
        cases qs with
        | nil => simp
        | cons q qs => exact absurd ⟨hc.1.1.1, by omega⟩ hgo

/-- **The constructor of the questions**: the zone it leaves valid is a chain of parsed questions. -/
theorem zone_iff_chain {z : DnsQueryZone} :
    (DnsQueryZone.ofBytes m start len size = some z ∧ z.valid = true) ↔
      ∃ qs, QuestionChain m len size (u32 len) start qs ∧
        z = { data := start, len := (qs.map fun q => q.len).sum, querys := qs } := by
  rw [show DnsQueryZone.ofBytes m start len size =
      loop (zoneRound m start len size) _ _ ⟨u32 len, start, 0, []⟩ from rfl, loop_iff_chain (Nat.zero_add size)]
  simp only [Nat.zero_add, List.nil_append]

/-- Questions that were parsed with their own lengths are asked. -/
theorem asked_of_questions (hd : d.length < 2 ^ 32) : ∀ {qs : List DnsQuery} {k reset i : Nat},
    DnsHeader.defaultLen ≤ i → QuestionChain (d ++ tail) (d.length - DnsHeader.defaultLen) k reset i qs →
    Questions d i qs → Asked d qs.length i
  | [], _, _, _, _, _, _ => trivial
  | q :: qs, _, _, i, hi, hc, ⟨⟨_, o, hat, hlen, hin, _⟩, hqs⟩ => by
    have h12 : DnsHeader.defaultLen = 12 := rfl
    have hends := (question_len_iff (by omega) hc.1.2.1 hc.1.2.2 hat hin (by omega)).1 hlen
    have hrest := asked_of_questions hd (by omega) hc.2 hqs
    rw [hlen] at hrest
    exact ⟨o, hat, hin, hends, hrest⟩

/-- **Questions that are asked** are all taken, each as it lies in the datagram. -/
theorem questions_of_asked (hd : d.length < 2 ^ 32) : ∀ {qs : List DnsQuery} {k i : Nat}, DnsHeader.defaultLen ≤ i →
    i ≤ d.length → QuestionChain (d ++ tail) (d.length - DnsHeader.defaultLen) k (d.length - i) i qs → Asked d k i →
    qs.length = k ∧ Questions d i qs ∧ i + (qs.map fun q => q.len).sum ≤ d.length
  | [], 0, i, _, hle, _, _ => ⟨rfl, trivial, by simpa using hle⟩
  | [], k + 1, i, _, _, hc, ⟨o, _, hin, _, _⟩ => absurd ⟨by omega, Nat.succ_pos k⟩ hc
  | q :: qs, 0, _, _, _, hc, _ => absurd hc.1.1.2 (Nat.lt_irrefl 0)
  | q :: qs, k + 1, i, hi, hle, hc, ⟨o, hat, hin, hends, hrest⟩ => by
    have h12 : DnsHeader.defaultLen = 12 := rfl
    have hqlen := (question_len_iff (by omega) hc.1.2.1 hc.1.2.2 hat hin (by omega)).2 hends
    obtain ⟨j, -, -, hdata, hjlen, hread⟩ := question_parsed hc.1.2.1 hc.1.2.2
    have hj : u32 j = o.len := by rw [DnsQuery.defaultFlagsSize] at hjlen; omega
    rw [hj, read_append (by omega)] at hread
    have hnext : i + q.len = i + o.len + 4 := by omega
    have hreset : sub32 (d.length - i) q.len = d.length - (i + q.len) := by
      rw [sub32_of_le (by omega) (by omega)]; omega
    obtain ⟨hl, hqs, hsum⟩ := questions_of_asked hd (by omega) (by omega) (hreset ▸ hc.2) (hnext ▸ hrest)
    refine ⟨by simpa using hl, ⟨⟨hdata, o, hat, hqlen, hin, hread⟩, hqs⟩, ?_⟩
    rw [List.map_cons, List.sum_cons]
    omega

end Zone

/-! ## Acceptance -/

section Accept

variable {m d : Bytes} {n : Nat} {r : UdpRequest}

/-- What an accepted request is. -/
theorem accepted (h : UdpRequest.parse m n = some r) (hv : r.valid = true) :
    ∃ header zone, DnsHeader.defaultLen < n ∧ DnsHeader.parse m 0 DnsHeader.defaultLen = some (some header) ∧
      DnsQueryZone.ofBytes m DnsHeader.defaultLen (n - DnsHeader.defaultLen) header.questionCount = some zone ∧
      zone.valid = true ∧ zone.querys ≠ [] ∧ r.header = some header ∧ r.queryZone = some zone ∧
      r.hosts = hostsOf zone.querys := by
  unfold UdpRequest.parse at h
  split at h
  swap
  · cases h; cases hv
  rename_i hn
  simp only [Option.bind_eq_bind, Option.bind_eq_some_iff] at h
  obtain ⟨head, hhead, h⟩ := h
  cases head with
  | none => cases h; cases hv
  | some header =>
    obtain ⟨zone, hzone, h⟩ := Option.bind_eq_some_iff.1 h
    split at h
    · rename_i hzv
      split at h
      · cases h; cases hv
      · rename_i hne
        cases h
        exact ⟨header, zone, hn, hhead, hzone, hzv, fun e => hne (by rw [e]; rfl), rfl, rfl, rfl⟩
    · cases h; cases hv

/-- A request that is not accepted has no questions and no hosts, whichever way its parse failed. -/
theorem empty_of_rejected (h : UdpRequest.parse m n = some r) (hv : ¬r.valid = true) :
    r.queryZone = none ∧ r.hosts = [] := by
  unfold UdpRequest.parse at h
  split at h
  swap
  · cases h; exact ⟨rfl, rfl⟩
  simp only [Option.bind_eq_bind, Option.bind_eq_some_iff] at h
  obtain ⟨head, -, h⟩ := h
  cases head with
  | none => cases h; exact ⟨rfl, rfl⟩
  | some header =>
    obtain ⟨zone, -, h⟩ := Option.bind_eq_some_iff.1 h
    split at h
    · split at h
      · cases h; exact ⟨rfl, rfl⟩
      · cases h; exact absurd rfl hv
    · cases h; exact ⟨rfl, rfl⟩

/-- A parsed request is as long as its datagram. -/
theorem len_of_parse (h : UdpRequest.parse m n = some r) : r.len = n := by
  unfold UdpRequest.parse at h
  split at h
  swap
  · cases h; rfl
  simp only [Option.bind_eq_bind, Option.bind_eq_some_iff] at h
  obtain ⟨head, -, h⟩ := h
  cases head with
  | none => cases h; rfl
  | some header =>
    obtain ⟨zone, -, h⟩ := Option.bind_eq_some_iff.1 h
    split at h
    · split at h <;> cases h <;> rfl
    · cases h; rfl

/-- The header announces the number that the datagram has at offset 4. -/
theorem header_questionCount {header : DnsHeader} {i len : Nat} (h : DnsHeader.parse m i len = some (some header)) :
    read m (i + 4) 2 = some header.questionCount := by
  unfold DnsHeader.parse at h
  split at h
  · simp only [Option.bind_eq_bind, Option.bind_eq_some_iff, Option.pure_def, Option.some.injEq] at h
    obtain ⟨-, -, -, -, -, -, -, -, count, hc, -, -, rfl⟩ := h
    exact hc
  · simp at h

end Accept

/-- **Acceptance**: a datagram that is accepted, in whatever buffer it lies, contains the questions it announces iff
it asks them: so many complete questions lie in it and no name goes on behind its pointer. -/
theorem parse_contains_iff (d tail : Bytes) (r : UdpRequest) (hd : d.length < 2 ^ 32)
    (h : UdpRequest.parse (d ++ tail) d.length = some r) (hv : r.valid = true) :
    Contains d r ↔ ∃ count, read d 4 2 = some count ∧ Asked d count DnsHeader.defaultLen := by
  obtain ⟨header, zone, hn, hhead, hzone, hzv, -, hrh, hrz, -⟩ := accepted h hv
  have hcount := header_questionCount hhead
  have h12 : DnsHeader.defaultLen = 12 := rfl
  rw [Nat.zero_add, read_append (by omega)] at hcount
  obtain ⟨qs, hc, rfl⟩ := zone_iff_chain.1 ⟨hzone, hzv⟩
  rw [u32_of_lt (by omega)] at hc
  constructor
  · rintro ⟨header', zone', hh, hz, hlen, hqs, -⟩
    rw [hrh, Option.some.injEq] at hh
    rw [hrz, Option.some.injEq] at hz
    subst hh hz
    exact ⟨_, hcount, hlen ▸ asked_of_questions hd (Nat.le_refl _) hc hqs⟩
  · rintro ⟨count, hc', hask⟩
    rw [hcount, Option.some.injEq] at hc'
    subst hc'
    obtain ⟨hl, hqs, hsum⟩ := questions_of_asked hd (Nat.le_refl _) hn.le hc hask
    exact ⟨header, _, hrh, hrz, hl, hqs, hsum⟩

/-- A datagram with one question: the name `a`, closed by a zero byte, with its type and class. -/
def oneQuestion : Bytes := [0, 7, 1, 0, 0, 1, 0, 0, 0, 0, 0, 0, 1, 97, 0, 0, 1, 0, 1]

/-- A datagram with a question for the name `a` and one for `bc`, of another type. -/
def twoQuestions : Bytes := [0, 7, 1, 0, 0, 2, 0, 0, 0, 0, 0, 0, 1, 97, 0, 0, 1, 0, 1, 2, 98, 99, 0, 0, 28, 0, 1]

theorem parse_contains_iff_at : ∃ r, UdpRequest.parse (twoQuestions ++ [0]) 27 = some r ∧
    (Contains twoQuestions r ↔ ∃ count, read twoQuestions 4 2 = some count ∧ Asked twoQuestions count 12) := by
  have hv : (UdpRequest.parse (twoQuestions ++ [0]) 27).any (fun r => r.valid) = true := by decide
  obtain ⟨r, hr, hv⟩ := (Option.any_eq_true _ _).1 hv
  exact ⟨r, hr, parse_contains_iff twoQuestions [0] r (by decide) hr hv⟩

/-- A zero byte behind the header, and nothing more, is accepted as a question. -/
theorem parse_not_contains : ¬∀ (d : Bytes) (r : UdpRequest), d.length ≤ 1024 →
    UdpRequest.parse (d ++ List.replicate (1024 - d.length) 0) d.length = some r → r.valid = true → Contains d r := by
  intro h
  let d : Bytes := [0, 7, 1, 0, 0, 1, 0, 0, 0, 0, 0, 0, 0]
  let p := UdpRequest.parse (d ++ List.replicate (1024 - d.length) 0) d.length
  have hp : p.any (fun r => r.valid && r.queryZone.all fun zone => 13 < 12 + zone.len) = true := by decide +kernel
  obtain ⟨r, hr, hp⟩ := (Option.any_eq_true _ _).1 hp
  rw [Bool.and_eq_true] at hp
  obtain ⟨header, zone, -, hz, -, -, hle⟩ := h d r (by decide) hr hp.1
  have hlt := hp.2
  rw [hz, Option.all_some, decide_eq_true_eq] at hlt
  exact absurd hle (Nat.not_le_of_lt hlt)

end StDns.Protocol
