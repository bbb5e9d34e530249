import StDns.Protocol.AnswerExact
import StDns.Protocol.HostText
import StDns.Server.Session

/-!
# The first question of a request

The type that a request is dispatched on and the pointers of its answers are those of the first question. The host is
that of the first question with text, since `udp_request::parse` leaves out empty names. They belong to one question
iff the first question has text or none has (`belongs_iff`).
-/

namespace StDns.Server

open Lib Wire Protocol

/-- The host, the type and the name that answers point to belong to the first question of the request in `m`. -/
def Belongs (m : Bytes) (r : UdpRequest) : Prop :=
  ∃ zone query, r.queryZone = some zone ∧ zone.querys.head? = some query ∧ query.data = DnsHeader.defaultLen ∧
    r.getHost = query.text ∧ getQueryType r = .ok query.queryType ∧
    ∀ record expire b, UdpResponse.ofRequest m r record expire = .ok b →
      (∀ a ∈ b.response.answerZones, Holds b.buffer a.data (pointerBytes DnsHeader.defaultLen)) ∧
        Holds b.buffer DnsHeader.defaultLen ((m.drop query.data).take query.len)

/-- The first question that the constructor of the questions finds in a datagram of `n` bytes has text, or none has. -/
def FirstNamed (m : Bytes) (n : Nat) : Prop :=
  ∀ count zone query, read m 4 2 = some count →
    DnsQueryZone.ofBytes m DnsHeader.defaultLen (n - DnsHeader.defaultLen) count = some zone →
    zone.querys.head? = some query → query.text = [] → ∀ q ∈ zone.querys, q.text = []

section First

variable {m : Bytes} {r : UdpRequest} {header : DnsHeader} {zone : DnsQueryZone} {query : DnsQuery}

/-- The records of a response point to the name of the first question. -/
theorem answers_point (record : DnsRecord) (expire : Nat) {b : BuiltResponse} (hh : r.header = some header)
    (hz : r.queryZone = some zone) (hdata : zone.data = DnsHeader.defaultLen) (hm : m.length = 1024)
    (hlen : query.len ≤ zone.len) (hqdata : query.data = zone.data)
    (hb : UdpResponse.ofRequest m r record expire = .ok b) :
    (∀ a ∈ b.response.answerZones, Holds b.buffer a.data (pointerBytes DnsHeader.defaultLen)) ∧
      Holds b.buffer DnsHeader.defaultLen ((m.drop query.data).take query.len) := by
  by_cases hin : DnsHeader.defaultLen + zone.len ≤ 1024
  swap
  · rw [ofRequest_fault hh hz hdata hm (Nat.lt_of_not_le hin)] at hb
    cases hb
  obtain ⟨hqlen, hb'⟩ := ofRequest_eq record expire hh hz hdata hm hin
  rw [hb'] at hb
  cases hb
  have hall := holds_padded 1024 (responseBytes header.id zone.querys.length (questionBytes m zone) record.firstIps
    expire)
  rw [responseBytes, holds_append, holds_append, List.length_append, length_initBytes, Nat.zero_add,
    Nat.zero_add] at hall
  obtain ⟨⟨-, hquestions⟩, hrecords⟩ := hall
  refine ⟨fun a ha => (mem_writtenZones hrecords ha).2, ?_⟩
  refine List.IsPrefix.trans ?_ hquestions
  rw [questionBytes, ← hqdata]
  exact List.take_prefix_take_left hlen

end First

/-- **One question**: the host, the type and the answers of an accepted request belong to its first question iff that
question has text, or no question has. -/
theorem belongs_iff (d tail : Bytes) (r : UdpRequest) (hd : (d ++ tail).length = 1024)
    (h : UdpRequest.parse (d ++ tail) d.length = some r) (hv : r.valid = true) :
    Belongs (d ++ tail) r ↔ FirstNamed (d ++ tail) d.length := by
  obtain ⟨header, zone, -, hhead, hzone, hzv, hne, hh, hz, hhosts⟩ := accepted h hv
  obtain ⟨qs, hchain, rfl⟩ := zone_iff_chain.1 ⟨hzone, hzv⟩
  obtain ⟨q, qs, rfl⟩ := List.exists_cons_of_ne_nil hne
  obtain ⟨-, -, -, hqdata, -⟩ := question_parsed hchain.1.2.1 hchain.1.2.2
  have hhost : r.getHost = (hostsOf (q :: qs)).head?.getD [] := by rw [UdpRequest.getHost, hhosts]
  have hiff := head_hosts_iff q qs
  rw [← hhost] at hiff
  constructor
  · rintro ⟨zone', query, hz', hq, -, hget, -⟩ count zone'' query' hcount hzone'' hq' htext
    obtain rfl := Option.some.inj (hz.symm.trans hz')
    obtain rfl : q = query := Option.some.inj hq
    obtain rfl : header.questionCount = count := Option.some.inj ((header_questionCount hhead).symm.trans hcount)
    obtain rfl := Option.some.inj (hzone.symm.trans hzone'')
    obtain rfl : q = query' := Option.some.inj hq'
    exact List.forall_mem_cons.2 ⟨htext, hiff.1 hget htext⟩
  · intro hfirst
    have hnamed : q.text = [] → ∀ q' ∈ qs, q'.text = [] := fun htext =>
      (List.forall_mem_cons.1 (hfirst _ _ q (header_questionCount hhead) hzone rfl htext)).2
    refine ⟨_, q, hz, rfl, hqdata, hiff.2 hnamed, getQueryType_eq hz rfl, fun record expire b hb => ?_⟩
    refine answers_point record expire hh hz rfl hd ?_ hqdata hb
    rw [List.map_cons, List.sum_cons]
    exact Nat.le_add_right _ _

theorem belongs_iff_at : ∃ r, UdpRequest.parse (twoQuestions ++ List.replicate 997 0) 27 = some r ∧
    (Belongs (twoQuestions ++ List.replicate 997 0) r ↔ FirstNamed (twoQuestions ++ List.replicate 997 0) 27) := by
  let parsed := UdpRequest.parse (twoQuestions ++ List.replicate 997 0) 27
  have hp : parsed.any (fun r => r.valid) = true := by decide +kernel
  obtain ⟨r, hr, hp⟩ := (Option.any_eq_true _ _).1 hp
  exact ⟨r, hr, belongs_iff twoQuestions (List.replicate 997 0) r (by decide +kernel) hr hp⟩

/-- A datagram with a question for the root name and one for the name `a`. -/
def rootFirst : Bytes := [0, 7, 1, 0, 0, 2, 0, 0, 0, 0, 0, 0, 0, 0, 2, 0, 1, 1, 97, 0, 0, 1, 0, 1]

/-- The host of a request whose first question is for the root name is the name of the second. -/
theorem not_belongs : ¬∀ (d tail : Bytes) (r : UdpRequest), (d ++ tail).length = 1024 →
    UdpRequest.parse (d ++ tail) d.length = some r → r.valid = true → Belongs (d ++ tail) r := by
  intro h
  let tail : Bytes := List.replicate 1000 0
  let parsed := UdpRequest.parse (rootFirst ++ tail) rootFirst.length
  have hp : parsed.any (fun r => (r.valid && decide (r.getHost = [97])) &&
      r.queryZone.all fun zone => zone.querys.head?.all fun q => q.text = []) = true := by decide +kernel
  obtain ⟨r, hr, hp⟩ := (Option.any_eq_true _ _).1 hp
  rw [Bool.and_eq_true, Bool.and_eq_true, decide_eq_true_eq] at hp
  obtain ⟨⟨hv, hhost⟩, htext⟩ := hp
  obtain ⟨zone, query, hz, hq, -, hget, -⟩ := h rootFirst tail r (by decide +kernel) hr hv
  rw [hz, Option.all_some, hq, Option.all_some, decide_eq_true_eq] at htext
  rw [hhost, htext] at hget
  cases hget

end StDns.Server
