import StDns.Protocol.QueryExact
import StDns.Server.Flags

/-!
# Messages between two servers

A response is a header with the `QR` bit set, the questions of its request and records. Received by a server it is a
query with the same identifier and the same questions (`bytes_of_query`), so it is answered again. Between two
servers the messages never end (`exchange_never_ends`).
-/

namespace StDns.Server

open Lib Wire Protocol

/-! ## Responses are queries -/

/-- The route of the request that the first `n` bytes of the buffer are parsed to. -/
def routeOf (config : Config) (world : World) (m : Bytes) (n : Nat) : Route :=
  match UdpRequest.parse m n with
  | some r =>
    match getQueryType r with
    | .ok queryType => route config world m r queryType
    | .error _ => .never
  | none => .never

section Responding

variable {d tail : Bytes} {q : QueryMessage} {r : UdpRequest} {header : DnsHeader}

/-- The bytes of a response to a query have the `QR` bit set and ask the questions of the query. -/
theorem bytes_of_query (h : q.At d) (hm : (d ++ tail).length = 1024) (hh : r.header = some header)
    (hid : header.id = q.id) (hz : r.queryZone = some (zoneOf (parsedQuestions 12 q.questions)))
    (record : DnsRecord) (expire : Nat) :
    ∃ b, UdpResponse.ofRequest (d ++ tail) r record expire = .ok b ∧ b.bytes[2]? = some 0x80 ∧ q.At b.bytes := by
  obtain ⟨hlt, hle⟩ := questions_end h
  obtain ⟨hd, hne, hlen, hidlt, -, -, hqs⟩ := h
  obtain ⟨hok, hbytes⟩ := questionsAt_iff.1 hqs
  have h12 : DnsHeader.defaultLen = 12 := rfl
  have hzlen : (zoneOf (parsedQuestions 12 q.questions)).len = q.questionsLen := sum_parsedQuestions q.questions 12
  have hflat : (q.questions.flatMap Question.bytes).length = q.questionsLen := by
    simp [QueryMessage.questionsLen, List.length_flatMap]
  have hcount : (zoneOf (parsedQuestions 12 q.questions)).querys.length = q.questions.length :=
    length_parsedQuestions q.questions 12
  obtain ⟨b, hb, hbl, hge, hle', ⟨answers, hhb⟩, hcopy⟩ :=
    ofRequest_ok record expire hh hz rfl hm (by omega)
  rw [hid, hcount, initBytes_eq] at hhb
  simp only [holds_append, List.length_append, length_beBytes, List.length_cons, List.length_nil, Nat.zero_add] at hhb
  obtain ⟨⟨⟨hbid, hbflags⟩, hbcount⟩, -⟩ := hhb
  have hbq := hcopy (by omega) (hbytes.mono (List.prefix_append d tail))
  have hin : ∀ {i bs}, i + bs.length ≤ b.response.len → Holds b.buffer i bs → Holds b.bytes i bs := fun hi hh =>
    (holds_take hi).2 hh
  have hflags : Holds b.bytes 2 [0x80, 0x80] := hin (by simp only [List.length_cons, List.length_nil]; omega) hbflags
  refine ⟨b, hb, (holds_cons.1 hflags).1, ?_, hne, hlen, hidlt, hin (by rw [length_beBytes]; omega) hbid,
    hin (by rw [length_beBytes]; omega) hbcount, questionsAt_iff.2 ⟨hok, hin (by omega) hbq⟩⟩
  rw [BuiltResponse.bytes, List.length_take]
  omega

/-- The handling of a query: it is answered unless it was relayed to an upstream that sends nothing, or something
throws; and an answer that the server builds is a query itself. -/
theorem handle_query (config : Config) (world : World) (h : q.At d) (hm : (d ++ tail).length = 1024)
    (hn : world.netError = false) :
    match routeOf config world (d ++ tail) d.length with
    | .built => ∃ sent ending, handle config world (d ++ tail) d.length =
        .ok (some { sent := some sent, ending := ending }) ∧ sent[2]? = some 0x80 ∧ q.At sent
    | .relayed sent => ∃ ending, handle config world (d ++ tail) d.length =
        .ok (some { sent := some sent, ending := ending })
    | .never => handle config world (d ++ tail) d.length = .ok none
    | .thrown => handle config world (d ++ tail) d.length = .error .exception := by
  obtain ⟨r, header, hp, hv, hh, hid, hz⟩ := request_of_query tail h
  obtain ⟨x, xs, hxs⟩ := List.exists_cons_of_ne_nil h.2.1
  let s : Session := { Session.fresh (d ++ tail) with request := r }
  have hfirst : (zoneOf (parsedQuestions 12 q.questions)).querys.head? = some (parsedQuestion 12 x) := by
    rw [hxs]
    rfl
  have hroute := processSession_route config world (s := s) rfl hz hfirst
  have hof : routeOf config world (d ++ tail) d.length =
      route config world (d ++ tail) r (parsedQuestion 12 x).queryType := by
    simp only [routeOf, hp, getQueryType_eq hz hfirst]
  rw [hof]
  rw [show s.buffer = d ++ tail from rfl, show s.request = r from rfl] at hroute
  cases hrt : route config world (d ++ tail) r (parsedQuestion 12 x).queryType with
  | built =>
    rw [hrt] at hroute
    obtain ⟨record, hb⟩ := hroute
    obtain ⟨b, hbuilt, hqr, hat⟩ := bytes_of_query h hm hh hid hz record (calExpire config record)
    rw [hbuilt] at hb
    obtain ⟨s', hs', -⟩ := hb
    obtain ⟨ending, he⟩ := handle_processed hn hp hv hs'
    exact ⟨b.bytes, ending, he, hqr, hat⟩
  | relayed sent =>
    rw [hrt] at hroute
    obtain ⟨s', hs', -⟩ := hroute
    exact handle_processed hn hp hv hs'
  | never =>
    rw [hrt] at hroute
    rw [handle_accepted hn hp hv, show processSession config world s = .ok none from hroute]
    rfl
  | thrown =>
    rw [hrt] at hroute
    rw [handle_accepted hn hp hv, show processSession config world s = .error .exception from hroute]
    rfl

end Responding

/-! ## The exchange -/

/-- What a server is and finds when it receives a message: its configuration, the outside, and the buffer of the
session, whose first bytes the message overwrites. -/
structure Step where
  config : Config
  world : World
  memory : Bytes

/-- The buffer with a message. -/
def Step.buffer (s : Step) (d : Bytes) : Bytes := d ++ s.memory.drop d.length

/-- The message that a server sends for a message. -/
def Step.reply (s : Step) (d : Bytes) : Option Bytes :=
  match handle s.config s.world (s.buffer d) d.length with
  | .ok (some handled) => handled.sent
  | _ => none

/-- The messages between two servers after `d` was sent to one of them: the `k`-th message, when there is one. -/
def exchange (steps : Nat → Step) (d : Bytes) : Nat → Option Bytes
  | 0 => some d
  | k + 1 => (exchange steps d k).bind (steps k).reply

/-- Nothing goes wrong outside: a message for the query arrives, nothing throws, and an upstream that answers in place
of the server answers the questions it was asked. -/
def Step.Calm (s : Step) (q : QueryMessage) : Prop :=
  s.memory.length = 1024 ∧ s.world.netError = false ∧ ∀ d, q.At d →
    match routeOf s.config s.world (s.buffer d) d.length with
    | .built => True
    | .relayed sent => q.At sent
    | .never | .thrown => False

section Replies

variable {d : Bytes} {q : QueryMessage}

/-- One step: a query that a calm server receives is answered with a query. -/
theorem Step.reply_calm {s : Step} (hs : s.Calm q) (h : q.At d) : ∃ d', s.reply d = some d' ∧ q.At d' := by
  obtain ⟨hmem, hn, hroute⟩ := hs
  replace hroute := hroute d h
  have hm : (s.buffer d).length = 1024 := by
    rw [Step.buffer, List.length_append, List.length_drop, hmem, Nat.add_sub_cancel' h.1]
  have hh := handle_query s.config s.world h hm hn
  rw [← Step.buffer] at hh
  unfold Step.reply
  cases hof : routeOf s.config s.world (s.buffer d) d.length with
  | built =>
    rw [hof] at hh
    obtain ⟨sent, ending, he, -, hat⟩ := hh
    exact ⟨sent, by rw [he], hat⟩
  | relayed sent =>
    rw [hof] at hh hroute
    obtain ⟨ending, he⟩ := hh
    exact ⟨sent, by rw [he], hroute⟩
  | never =>
    rw [hof] at hroute
    exact hroute.elim
  | thrown =>
    rw [hof] at hroute
    exact hroute.elim

/-- All steps: there is a message after every number of them. -/
theorem exchange_calm {steps : Nat → Step} (hs : ∀ k, (steps k).Calm q) (h : q.At d) :
    ∀ k, ∃ d', exchange steps d k = some d' ∧ q.At d'
  | 0 => ⟨d, rfl, h⟩
  | k + 1 => by
    obtain ⟨d₁, hd₁, h₁⟩ := exchange_calm hs h k
    obtain ⟨d₂, hd₂, h₂⟩ := (steps k).reply_calm (hs k) h₁
    exact ⟨d₂, by rw [exchange, hd₁, Option.bind_some, hd₂], h₂⟩

end Replies

/-- **Messages between two servers**: no datagram is handled by its flags, as far as an upstream that it is forwarded to
does not. A query is accepted, and every response to it, whatever the record, has the `QR` bit set and is a query with
the same identifier and questions; between two servers that nothing goes wrong for, there is always a next message. -/
theorem exchange_never_ends :
    (∀ config world m f g size,
      (∀ r, UdpRequest.parse m size = some r → Forwards r → AnswersAlike config world m size f g) →
      handle config world (withFlags m f g) size = handle config world m size) ∧
      ∀ (d : Bytes) (q : QueryMessage), q.At d →
        (∀ tail, (d ++ tail).length = 1024 → ∃ r, UdpRequest.parse (d ++ tail) d.length = some r ∧ r.valid = true ∧
          ∀ record expire, ∃ b, UdpResponse.ofRequest (d ++ tail) r record expire = .ok b ∧
            b.bytes[2]? = some 0x80 ∧ q.At b.bytes) ∧
        ∀ steps : Nat → Step, (∀ k, (steps k).Calm q) → ∀ k, ∃ d', exchange steps d k = some d' ∧ q.At d' := by
  refine ⟨fun config world m f g size => handle_withFlags config world m size,
    fun d q h => ⟨fun tail hm => ?_, ?_⟩⟩
  · obtain ⟨r, header, hp, hv, hh, hid, hz⟩ := request_of_query tail h
    exact ⟨r, hp, hv, fun record expire => bytes_of_query h hm hh hid hz record expire⟩
  · exact fun steps hs => exchange_calm hs h

/-- The query of `oneQuestion`. -/
def oneQuery : QueryMessage := { id := 7, questions := [{ labels := [[97]], type := 1, cls := 1 }] }

/-- A server of one upstream, with a zeroed buffer. -/
def calmStep : Step := { config := oneServer, world := calm, memory := List.replicate 1024 0 }

theorem calmStep_calm : calmStep.Calm oneQuery := by
  refine ⟨List.length_replicate, rfl, fun d h => ?_⟩
  obtain ⟨r, header, hp, hv, -, -, hz⟩ := request_of_query (calmStep.memory.drop d.length) h
  have hroute : routeOf calmStep.config calmStep.world (calmStep.buffer d) d.length = .built := by
    have hlooks : looks calm r.getHost = true := by simp [looks, calm]
    rw [routeOf, Step.buffer, hp]
    simp only [getQueryType_eq hz rfl]
    exact if_pos hlooks
  rw [hroute]
  trivial

/-- With the `QR` bit the question is handled as without it, and the messages go on. -/
theorem exchange_never_ends_at :
    handle oneServer calm (withFlags (calmStep.buffer oneQuestion) 0x80 0) 19 =
      handle oneServer calm (calmStep.buffer oneQuestion) 19 ∧
    ∀ k, ∃ d', exchange (fun _ => calmStep) oneQuestion k = some d' ∧ oneQuery.At d' := by
  refine ⟨exchange_never_ends.1 oneServer calm _ 0x80 0 19 fun _ _ _ _ _ _ _ => rfl, ?_⟩
  exact (exchange_never_ends.2 oneQuestion oneQuery (by decide)).2 (fun _ => calmStep) fun _ => calmStep_calm

/-- The response to one question is answered. -/
theorem response_answered : ¬∀ (d tail : Bytes) (r : UdpRequest) (record : DnsRecord) (expire : Nat)
    (b : BuiltResponse) (s : Step), (d ++ tail).length = 1024 → UdpRequest.parse (d ++ tail) d.length = some r →
    r.valid = true → UdpResponse.ofRequest (d ++ tail) r record expire = .ok b → s.memory.length = 1024 →
    s.reply b.bytes = none := by
  intro h
  have hm : (oneQuestion ++ List.replicate 1005 0).length = 1024 := by
    rw [List.length_append, List.length_replicate]
    rfl
  have hq : oneQuery.At oneQuestion := by decide
  obtain ⟨r, header, hp, hv, hh, hid, hz⟩ := request_of_query (List.replicate 1005 0) hq
  obtain ⟨b, hb, -, hat⟩ := bytes_of_query hq hm hh hid hz { ips := [1] } 60
  obtain ⟨d', hd', -⟩ := calmStep.reply_calm calmStep_calm hat
  rw [h _ _ r _ _ b calmStep hm hp hv hb List.length_replicate] at hd'
  cases hd'

end StDns.Server
