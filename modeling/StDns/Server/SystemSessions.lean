import StDns.Server.System

/-!
# Replies to requests

The sessions of the whole server. Every accepted request has a session that is open or has been replied to, never both
and never twice, and its reply is sent in the session of that request. A session takes at most a few turns: without
other requests all come to rest, and when they have, every accepted request has been replied to but those that were
forwarded to an upstream that answered with an empty datagram (`replied_once`).
-/

namespace StDns.Server

open Lib Protocol Proto Store Client TaskQueue Linear

/-! ## What a session can do -/

/-- The last label of the host is `LAN`. -/
def LocalHost (host : Bytes) : Prop := getFIDomain host = lan ∨ getFIDomain host = lanLower

/-- A handler that runs for a session: what it comes to. -/
inductive Moves (config : Config) (x : OpenSession) : Turn → Prop
  | looked {turn : Turn} {works : List Work} {late : Bool} (record : DnsRecord) :
    x.phase = .looking late ∨ x.phase = .lookingLan late → lookedUp config late x.session record = .ok (turn, works) →
    Moves config x turn
  | lookedFirst {late : Bool} : x.phase = .looking late → LocalHost x.session.request.getHost →
    Moves config x (.goes x.session (.lookingLan late))
  | timer : x.phase = .waiting → Moves config x (.goes x.session (.looking true))
  | forwarded {turn : Turn} (forwarded : Forwarded) : x.phase = .forwarding →
    forwardedTurn config x.session forwarded = .ok turn → Moves config x turn

/-- The requests that were accepted, by their ids. -/
def receivedIds (events : List ServerEvent) : List Nat :=
  events.filterMap fun
    | .received id _ _ => some id
    | _ => none

/-- The requests that were replied to. -/
def repliedIds (events : List ServerEvent) : List Nat :=
  events.filterMap fun
    | .replied id _ _ => some id
    | _ => none

theorem receivedIds_append (events shown : List ServerEvent) :
    receivedIds (events ++ shown) = receivedIds events ++ receivedIds shown := List.filterMap_append

theorem repliedIds_append (events shown : List ServerEvent) :
    repliedIds (events ++ shown) = repliedIds events ++ repliedIds shown := List.filterMap_append

/-- The ids of the sessions that are open. -/
def ServerState.openIds (s : ServerState) : List Nat := s.sessions.map OpenSession.id

section Sessions

variable {P : Protobuf} {o : Outside} {order : List Nat → List Nat} {config : Config} {events shown : List ServerEvent}
  {s s' : ServerState}

/-- **What a step does to the sessions**: nothing, or a request is accepted, or the handler of one session runs. -/
theorem sessions_of_step (h : ServerStep P o order config s shown s') :
    (s'.sessions = s.sessions ∧ s'.accepted = s.accepted ∧ receivedIds shown = [] ∧
      ∀ id session sent, .replied id session sent ∉ shown) ∨
    (∃ m size r turn, m.length = 1024 ∧ 0 < size ∧ size ≤ 1024 ∧ UdpRequest.parse m size = some r ∧ r.valid = true ∧
      start config { Session.fresh m with request := r } = .ok turn ∧
      s'.sessions = s.sessions ++ turn.left s.accepted ∧ s'.accepted = s.accepted + 1 ∧
      shown = .received s.accepted m r :: turn.shows s.accepted) ∨
    ∃ before x after turn, s.sessions = before ++ x :: after ∧ Moves config x turn ∧
      s'.sessions = before ++ turn.left x.id ++ after ∧ s'.accepted = s.accepted ∧
      ((shown = turn.shows x.id ∧ x.phase ≠ .forwarding) ∨ ∃ forwarded,
        forwardedTurn config x.session forwarded = .ok turn ∧
          shown = .forwarded x.id forwarded :: turn.shows x.id) := by
  cases h with
  | received hm hpos hsize hparse hvalid hstart =>
    exact .inr (.inl ⟨_, _, _, _, hm, hpos, hsize, hparse, hvalid, hstart, rfl, rfl, rfl⟩)
  | looked now hs hphase _ _ hlooked =>
    exact .inr (.inr ⟨_, _, _, _, hs, .looked _ (.inl hphase) hlooked, rfl, rfl, .inl ⟨rfl, by simp [hphase]⟩⟩)
  | lookedFirst now hs hphase _ hlan =>
    exact .inr (.inr ⟨_, _, _, _, hs, .lookedFirst hphase hlan.2, by simp [Turn.left], rfl,
      .inl ⟨rfl, by simp [hphase]⟩⟩)
  | lookedLan now hs hphase _ hlooked =>
    exact .inr (.inr ⟨_, _, _, _, hs, .looked _ (.inr hphase) hlooked, rfl, rfl, .inl ⟨rfl, by simp [hphase]⟩⟩)
  | timer hs hphase =>
    exact .inr (.inr ⟨_, _, _, _, hs, .timer hphase, by simp [Turn.left], rfl, .inl ⟨rfl, by simp [hphase]⟩⟩)
  | forwarded f hs hphase _ hturn =>
    exact .inr (.inr ⟨_, _, _, _, hs, .forwarded f hphase hturn, rfl, rfl, .inr ⟨f, hturn, rfl⟩⟩)
  | _ => exact .inl ⟨rfl, rfl, rfl, by simp⟩

/-! ## Turns -/

theorem ofReply_eq_ok {e : Except Fault (Session × Bytes)} {turn : Turn} :
    Turn.ofReply e = .ok turn ↔ ∃ session sent, e = .ok (session, sent) ∧ turn = .replies session sent := by
  cases e with
  | ok p =>
    constructor
    · intro h
      cases h
      exact ⟨_, _, rfl, rfl⟩
    · rintro ⟨session, sent, h, rfl⟩
      cases h
      rfl
  | error f =>
    constructor
    · intro h
      cases h
    · rintro ⟨session, sent, h, -⟩
      cases h

/-- Only the response of a session is set when it is completed. -/
theorem complete_keeps {session session' : Session} {sent : Bytes}
    (h : complete config session = .ok (session', sent)) :
    session'.request = session.request ∧ session'.buffer = session.buffer ∧ session'.record = session.record := by
  unfold complete at h
  cases hr : session.response with
  | some response =>
    rw [hr] at h
    cases h
    exact ⟨rfl, rfl, rfl⟩
  | none =>
    rw [hr] at h
    simp only at h
    cases hb : UdpResponse.ofRequest session.buffer session.request session.record
      (calExpire config session.record) with
    | error f =>
      rw [hb] at h
      cases h
    | ok b =>
      rw [hb] at h
      cases h
      exact ⟨rfl, rfl, rfl⟩

/-- An answer is built for the request and the record. -/
theorem answer_eq_ok {session session' : Session} {record : DnsRecord} {sent : Bytes} :
    answer config session record = .ok (session', sent) ↔ ∃ b,
      UdpResponse.ofRequest session.buffer session.request record (calExpire config record) = .ok b ∧
        session' = { session with record := record, response := some b } ∧ sent = b.bytes := by
  unfold answer
  cases hb : UdpResponse.ofRequest session.buffer session.request record (calExpire config record) with
  | error f => simp [hb, bind, Except.bind]
  | ok b =>
    simp only [hb, bind, Except.bind, complete, Except.ok.injEq, Prod.mk.injEq, exists_eq_left']
    constructor
    · rintro ⟨rfl, rfl⟩
      exact ⟨rfl, rfl⟩
    · rintro ⟨rfl, rfl⟩
      exact ⟨rfl, rfl⟩

/-- What `query_dns_record` comes to: it waits for the upstreams, or it answers. -/
theorem lookedUp_eq_ok {late : Bool} {session : Session} {record : DnsRecord} {turn : Turn} {works : List Work}
    (h : lookedUp config late session record = .ok (turn, works)) :
    (late = false ∧ record.ips = [] ∧ turn = .goes session .waiting ∧ works = [.sync session.request.getHost]) ∨
    ((late = true ∨ record.ips ≠ []) ∧ ∃ session' sent, answer config session record = .ok (session', sent) ∧
      turn = .replies session' sent ∧ ∀ work ∈ works, work = .sync session.request.getHost ∨
        work = .syncLoss session.request.getHost record) := by
  cases late with
  | true =>
    right
    simp only [lookedUp, if_true, bind, Except.bind] at h
    cases hturn : Turn.ofReply (answer config session record) with
    | error f =>
      rw [hturn] at h
      cases h
    | ok turn' =>
      rw [hturn] at h
      cases h
      obtain ⟨session', sent, hanswer, rfl⟩ := ofReply_eq_ok.1 hturn
      exact ⟨.inl rfl, session', sent, hanswer, rfl, fun work hwork => by cases hwork⟩
  | false =>
    simp only [lookedUp, Bool.false_eq_true, if_false] at h
    by_cases hips : record.ips = []
    · rw [if_pos hips] at h
      cases h
      exact .inl ⟨rfl, hips, rfl, rfl⟩
    · rw [if_neg hips] at h
      right
      cases hturn : Turn.ofReply (answer config session record) with
      | error f =>
        rw [hturn] at h
        cases h
      | ok turn' =>
        rw [hturn] at h
        obtain ⟨session', sent, hanswer, rfl⟩ := ofReply_eq_ok.1 hturn
        refine ⟨.inr hips, session', sent, hanswer, ?_⟩
        simp only [bind, Except.bind] at h
        split at h
        · cases h
          exact ⟨rfl, fun work hwork => .inl (List.mem_singleton.1 hwork)⟩
        · cases h
          exact ⟨rfl, fun work hwork => .inr (List.mem_singleton.1 hwork)⟩

/-! ## Open sessions -/

/-- The phases of a query. -/
def Phase.IsQuery : Phase → Prop
  | looking _ | lookingLan _ | waiting => True
  | forwarding | lost => False

/-- The request asks for the addresses of a host that the cache is looked up for. -/
def AsksAddresses (r : UdpRequest) : Prop := getQueryType r = .ok QueryType.a ∧ r.getHost ≠ localhost

/-- A session in the buffer of an accepted request, without a reply. -/
structure Pending (session : Session) : Prop where
  length : session.buffer.length = 1024
  parsed : ∃ size, size ≤ 1024 ∧ UdpRequest.parse session.buffer size = some session.request
  valid : session.request.valid = true
  response : session.response = none
  ips : session.record.ips = []

/-- What a handler comes to for a pending session: it stays pending, in a phase of a query iff it asks, or it is replied
to. -/
def Turn.Of (session : Session) : Turn → Prop
  | goes session' phase => Pending session' ∧ session'.request = session.request ∧ session'.buffer = session.buffer ∧
    (phase.IsQuery ↔ AsksAddresses session.request)
  | replies session' _ => session'.request = session.request ∧ session'.buffer = session.buffer

/-- The turns that a session begins with; a query is looked up. -/
theorem start_eq_ok {session : Session} {turn : Turn} (hp : Pending session)
    (h : start config session = .ok turn) : turn.Of session ∧
      (∀ session' phase, turn = .goes session' phase → phase = .looking false ∨ phase = .forwarding) ∧
      ∀ session' sent, turn = .replies session' sent → ¬AsksAddresses session.request := by
  obtain ⟨length, ⟨size, hsize, hparse⟩, hvalid, hresponse, hips⟩ := hp
  obtain ⟨header, zone, query, hh, hz, -, hq, -⟩ := accepted_parts hparse hvalid
  have hreply : ∀ {e : Except Fault (Session × Bytes)}, Turn.ofReply e = .ok turn →
      ¬AsksAddresses session.request →
      (∀ session' sent, e = .ok (session', sent) → session'.request = session.request ∧
        session'.buffer = session.buffer) → turn.Of session ∧
          (∀ session' phase, turn = .goes session' phase → phase = .looking false ∨ phase = .forwarding) ∧
          ∀ session' sent, turn = .replies session' sent → ¬AsksAddresses session.request := by
    intro e he hasks hsame
    obtain ⟨session', sent, hok, rfl⟩ := ofReply_eq_ok.1 he
    exact ⟨hsame _ _ hok, fun _ _ hgoes => (by cases hgoes), fun _ _ _ => hasks⟩
  have hother : query.queryType ≠ QueryType.a → ¬AsksAddresses session.request := by
    rintro hne ⟨htype, -⟩
    rw [getQueryType_eq hz hq, Except.ok.injEq] at htype
    exact hne htype
  simp only [start, getQueryType_eq hz hq, getQueryTypeValue_eq hz hq, bind, Except.bind] at h
  by_cases ha : query.queryType = QueryType.a
  · rw [if_pos ha] at h
    by_cases hlocal : session.request.getHost = localhost
    · rw [if_pos hlocal] at h
      refine hreply h (fun hasks => hasks.2 hlocal) fun session' sent he => ?_
      obtain ⟨b, -, rfl, -⟩ := answer_eq_ok.1 he
      exact ⟨rfl, rfl⟩
    · rw [if_neg hlocal] at h
      cases h
      have hasks : AsksAddresses session.request := ⟨by rw [getQueryType_eq hz hq, ha], hlocal⟩
      exact ⟨⟨⟨length, ⟨size, hsize, hparse⟩, hvalid, hresponse, hips⟩, rfl, rfl, fun _ => hasks, fun _ => trivial⟩,
        fun _ _ hgoes => by cases hgoes; exact .inl rfl, fun _ _ hreplies => by cases hreplies⟩
  rw [if_neg ha] at h
  by_cases haaaa : query.queryType = QueryType.aaaa
  · rw [if_pos haaaa] at h
    exact hreply h (hother ha) fun session' sent he => ⟨(complete_keeps he).1, (complete_keeps he).2.1⟩
  rw [if_neg haaaa] at h
  split at h
  · cases h
    exact ⟨⟨⟨length, ⟨size, hsize, hparse⟩, hvalid, hresponse, hips⟩, rfl, rfl, False.elim, hother ha⟩,
      fun _ _ hgoes => by cases hgoes; exact .inr rfl, fun _ _ hreplies => by cases hreplies⟩
  · exact hreply h (hother ha) fun session' sent he => ⟨(complete_keeps he).1, (complete_keeps he).2.1⟩

/-- How many more turns a session can take. -/
def Phase.rank : Phase → Nat
  | looking false => 5
  | lookingLan false => 4
  | waiting => 3
  | looking true => 2
  | lookingLan true => 1
  | forwarding => 1
  | lost => 0

/-- **Turns** of a session that is pending lead on. -/
theorem moves_of {x : OpenSession} {turn : Turn} (hp : Pending x.session)
    (hasks : x.phase.IsQuery ↔ AsksAddresses x.session.request) (h : Moves config x turn) :
    turn.Of x.session ∧ ∀ session' phase, turn = .goes session' phase →
      phase.rank < x.phase.rank ∧ (phase = .lost → x.phase = .forwarding) := by
  have hlooking : ∀ {late : Bool}, x.phase = .looking late ∨ x.phase = .lookingLan late →
      AsksAddresses x.session.request := by
    rintro late (hphase | hphase) <;> exact hasks.1 (by rw [hphase]; exact trivial)
  cases h with
  | @looked late works turn record hphase hlooked =>
    rcases lookedUp_eq_ok hlooked with ⟨hlate, -, rfl, -⟩ | ⟨-, session', sent, hanswer, rfl, -⟩
    · refine ⟨⟨hp, rfl, rfl, fun _ => hlooking hphase, fun _ => trivial⟩, fun _ _ hgoes => ?_⟩
      cases hgoes
      subst hlate
      rcases hphase with hphase | hphase <;> rw [hphase] <;> simp [Phase.rank]
    · obtain ⟨b, -, rfl, -⟩ := answer_eq_ok.1 hanswer
      exact ⟨⟨rfl, rfl⟩, fun _ _ hgoes => by cases hgoes⟩
  | @lookedFirst late hphase hlan =>
    refine ⟨⟨hp, rfl, rfl, fun _ => hlooking (.inl hphase), fun _ => trivial⟩, fun _ _ hgoes => ?_⟩
    cases hgoes
    rw [hphase]
    cases late <;> simp [Phase.rank]
  | timer hphase =>
    refine ⟨⟨hp, rfl, rfl, fun _ => hasks.1 (by rw [hphase]; exact trivial), fun _ => trivial⟩, fun _ _ hgoes => ?_⟩
    cases hgoes
    rw [hphase]
    simp [Phase.rank]
  | forwarded f hphase hturn =>
    have hreply : ∀ session : Session, Turn.ofReply (complete config session) = .ok turn →
        session.request = x.session.request → session.buffer = x.session.buffer → turn.Of x.session ∧
          ∀ session' phase, turn = .goes session' phase →
            phase.rank < x.phase.rank ∧ (phase = .lost → x.phase = .forwarding) := by
      intro session he hr hb
      obtain ⟨session', sent, hok, rfl⟩ := ofReply_eq_ok.1 he
      have hkeeps := complete_keeps hok
      exact ⟨⟨hkeeps.1.trans hr, hkeeps.2.1.trans hb⟩, fun _ _ hgoes => by cases hgoes⟩
    unfold forwardedTurn at hturn
    split at hturn
    · exact hreply _ hturn rfl rfl
    · split at hturn
      · exact hreply _ hturn rfl rfl
      · cases hturn
        refine ⟨⟨hp, rfl, rfl, False.elim, fun hquery => ?_⟩, fun _ _ hgoes => ?_⟩
        · have hnot := hasks.2 hquery
          rw [hphase] at hnot
          exact hnot
        cases hgoes
        rw [hphase]
        simp [Phase.rank]

/-! ## All runs -/

/-- What a run keeps of its sessions. -/
structure Kept.Sessions (events : List ServerEvent) (s : ServerState) : Prop where
  ids : receivedIds events = List.range s.accepted
  accounted : (repliedIds events ++ s.openIds).Perm (List.range s.accepted)
  pending : ∀ x ∈ s.sessions, Pending x.session
  asks : ∀ x ∈ s.sessions, x.phase.IsQuery ↔ AsksAddresses x.session.request
  received : ∀ x ∈ s.sessions, .received x.id x.session.buffer x.session.request ∈ events
  lan : ∀ x ∈ s.sessions, ∀ late, x.phase = .lookingLan late → LocalHost x.session.request.getHost
  lost : ∀ x ∈ s.sessions, x.phase = .lost → ∃ buffer, .forwarded x.id (.received buffer 0) ∈ events
  replied : ∀ id session sent, .replied id session sent ∈ events → .received id session.buffer session.request ∈ events

/-- The reply that a turn shows, and the session that it leaves, account for the session that took it. -/
theorem accounted_turn (turn : Turn) (id : Nat) :
    (repliedIds (turn.shows id) ++ (turn.left id).map OpenSession.id).Perm [id] := by
  cases turn <;> exact .refl _

theorem receivedIds_shows (turn : Turn) (id : Nat) : receivedIds (turn.shows id) = [] := by
  cases turn <;> rfl

/-- What a turn shows is a reply in its session. -/
theorem mem_shows {turn : Turn} {id : Nat} {event : ServerEvent} (h : event ∈ turn.shows id) :
    ∃ session sent, event = .replied id session sent ∧ turn = .replies session sent := by
  cases turn with
  | goes => cases h
  | replies session sent => exact ⟨session, sent, List.mem_singleton.1 h, rfl⟩

theorem mem_left {turn : Turn} {id : Nat} {x : OpenSession} (h : x ∈ turn.left id) :
    x.id = id ∧ turn = .goes x.session x.phase := by
  cases turn with
  | goes session phase =>
    obtain rfl := List.mem_singleton.1 h
    exact ⟨rfl, rfl⟩
  | replies => cases h

/-- Only an empty datagram loses a session. -/
theorem lost_of_forwarded {session session' : Session} {forwarded : Forwarded}
    (h : forwardedTurn config session forwarded = .ok (.goes session' .lost)) :
    ∃ buffer, forwarded = .received buffer 0 := by
  cases forwarded with
  | failed =>
    obtain ⟨_, _, -, hturn⟩ := ofReply_eq_ok.1 h
    cases hturn
  | received buffer size =>
    rw [forwardedTurn] at h
    split at h
    · obtain ⟨_, _, -, hturn⟩ := ofReply_eq_ok.1 h
      cases hturn
    · rename_i hsize
      exact ⟨buffer, by rw [Nat.eq_zero_of_not_pos hsize]⟩

/-- Only a local host is looked for without its last label. -/
theorem localHost_of_moves {x : OpenSession} {session : Session} {late : Bool}
    (h : Moves config x (.goes session (.lookingLan late))) : LocalHost x.session.request.getHost := by
  cases h with
  | looked record hphase hlooked =>
    rcases lookedUp_eq_ok hlooked with ⟨-, -, hturn, -⟩ | ⟨-, _, _, -, hturn, -⟩ <;> cases hturn
  | lookedFirst hphase hlan => exact hlan
  | forwarded f hphase hturn =>
    cases f with
    | failed =>
      obtain ⟨_, _, -, hturn⟩ := ofReply_eq_ok.1 hturn
      cases hturn
    | received buffer size =>
      rw [forwardedTurn] at hturn
      split at hturn
      · obtain ⟨_, _, -, hturn⟩ := ofReply_eq_ok.1 hturn
        cases hturn
      · cases hturn

/-- A step that leaves the sessions. -/
theorem Kept.Sessions.stay (h : Kept.Sessions events s) (hs : s'.sessions = s.sessions)
    (haccepted : s'.accepted = s.accepted) (hreceived : receivedIds shown = [])
    (hreplied : ∀ id session sent, .replied id session sent ∉ shown) : Kept.Sessions (events ++ shown) s' := by
  have hnone : repliedIds shown = [] := by
    rw [repliedIds, List.filterMap_eq_nil_iff]
    intro event hevent
    cases event with
    | replied id session sent => exact absurd hevent (hreplied id session sent)
    | _ => rfl
  refine ⟨?_, ?_, ?_, ?_, ?_, ?_, ?_, fun id session sent hmem => ?_⟩
  · rw [receivedIds_append, hreceived, List.append_nil, haccepted, h.ids]
  · rw [repliedIds_append, hnone, List.append_nil, ServerState.openIds, hs, haccepted]
    exact h.accounted
  · rw [hs]
    exact h.pending
  · rw [hs]
    exact h.asks
  · rw [hs]
    exact fun x hx => List.mem_append_left _ (h.received x hx)
  · rw [hs]
    exact h.lan
  · rw [hs]
    exact fun x hx hlost => (h.lost x hx hlost).imp fun _ => List.mem_append_left _
  · rcases List.mem_append.1 hmem with hmem | hmem
    · exact List.mem_append_left _ (h.replied id session sent hmem)
    · exact absurd hmem (hreplied id session sent)

/-- A request is accepted. -/
theorem Kept.Sessions.next_received (h : Kept.Sessions events s) {m : Bytes} {r : UdpRequest} {turn : Turn}
    (hp : Pending { Session.fresh m with request := r })
    (hstart : start config { Session.fresh m with request := r } = .ok turn)
    (hs : s'.sessions = s.sessions ++ turn.left s.accepted) (haccepted : s'.accepted = s.accepted + 1) :
    Kept.Sessions (events ++ .received s.accepted m r :: turn.shows s.accepted) s' := by
  obtain ⟨hof, hfirst, -⟩ := start_eq_ok hp hstart
  have hnew : ServerEvent.received s.accepted m r ∈ events ++ .received s.accepted m r :: turn.shows s.accepted :=
    List.mem_append_right _ List.mem_cons_self
  refine ⟨?ids, ?accounted, ?pending, ?asks, ?received, ?lan, ?lost, ?replied⟩
  case ids =>
    have hone : receivedIds (.received s.accepted m r :: turn.shows s.accepted) = [s.accepted] := by
      show s.accepted :: receivedIds (turn.shows s.accepted) = _
      rw [receivedIds_shows]
    rw [receivedIds_append, hone, haccepted, List.range_succ, h.ids]
  case accounted =>
    have hskip : repliedIds (.received s.accepted m r :: turn.shows s.accepted) = repliedIds (turn.shows s.accepted) :=
      List.filterMap_cons_none rfl
    rw [repliedIds_append, hskip, ServerState.openIds, hs, haccepted, List.range_succ, List.map_append,
      List.append_assoc]
    refine .trans ?_ (h.accounted.append (accounted_turn turn s.accepted))
    rw [List.append_assoc]
    refine List.Perm.append_left _ ?_
    rw [← List.append_assoc, ← List.append_assoc]
    exact List.perm_append_comm.append_right _
  case replied =>
    intro id session sent hmem
    rcases List.mem_append.1 hmem with hmem | hmem
    · exact List.mem_append_left _ (h.replied id session sent hmem)
    · obtain ⟨_, _, heq, rfl⟩ := mem_shows ((List.mem_cons.1 hmem).resolve_left (by simp))
      cases heq
      rw [hof.1, hof.2]
      exact hnew
  all_goals
    rw [hs]
    intro x hx
    rcases List.mem_append.1 hx with hx | hx
  · exact h.pending x hx
  · obtain ⟨-, rfl⟩ := mem_left hx
    exact hof.1
  · exact h.asks x hx
  · obtain ⟨-, rfl⟩ := mem_left hx
    rw [hof.2.1]
    exact hof.2.2.2
  · exact List.mem_append_left _ (h.received x hx)
  · obtain ⟨hid, rfl⟩ := mem_left hx
    rw [hid, hof.2.1, hof.2.2.1]
    exact hnew
  · exact h.lan x hx
  · obtain ⟨-, rfl⟩ := mem_left hx
    intro late hlate
    rcases hfirst _ _ rfl with hphase | hphase <;> rw [hphase] at hlate <;> cases hlate
  · exact fun hlost => (h.lost x hx hlost).imp fun _ => List.mem_append_left _
  · obtain ⟨hid, rfl⟩ := mem_left hx
    intro hlost
    rcases hfirst _ _ rfl with hphase | hphase <;> rw [hphase] at hlost <;> cases hlost

/-- The handler of a session runs. -/
theorem Kept.Sessions.next_moves (h : Kept.Sessions events s) {before after : List OpenSession} {x : OpenSession}
    {turn : Turn} (hx : s.sessions = before ++ x :: after) (hmoves : Moves config x turn)
    (hs : s'.sessions = before ++ turn.left x.id ++ after) (haccepted : s'.accepted = s.accepted)
    (hshown : (shown = turn.shows x.id ∧ x.phase ≠ .forwarding) ∨ ∃ forwarded,
      forwardedTurn config x.session forwarded = .ok turn ∧ shown = .forwarded x.id forwarded :: turn.shows x.id) :
    Kept.Sessions (events ++ shown) s' := by
  have hmem : x ∈ s.sessions := by
    rw [hx]
    exact List.mem_append_right _ List.mem_cons_self
  have hrest : ∀ y ∈ before ++ after, y ∈ s.sessions := by
    intro y hy
    rw [hx]
    exact List.perm_middle.mem_iff.2 (List.mem_cons_of_mem _ hy)
  have hcases : ∀ y ∈ s'.sessions, y ∈ s.sessions ∨ (y.id = x.id ∧ turn = .goes y.session y.phase) := by
    intro y hy
    rw [hs, List.append_assoc, List.mem_append, List.mem_append] at hy
    rcases hy with hy | hy | hy
    · exact .inl (hrest y (List.mem_append_left _ hy))
    · exact .inr (mem_left hy)
    · exact .inl (hrest y (List.mem_append_right _ hy))
  obtain ⟨hof, hnext⟩ := moves_of (h.pending x hmem) (h.asks x hmem) hmoves
  have hids : receivedIds shown = [] ∧ repliedIds shown = repliedIds (turn.shows x.id) ∧
      ∀ id session sent, .replied id session sent ∈ shown → .replied id session sent ∈ turn.shows x.id := by
    rcases hshown with ⟨rfl, -⟩ | ⟨f, -, rfl⟩
    · exact ⟨receivedIds_shows turn x.id, rfl, fun _ _ _ hin => hin⟩
    · exact ⟨receivedIds_shows turn x.id, rfl, fun _ _ _ hin => (List.mem_cons.1 hin).resolve_left (by simp)⟩
  refine ⟨?ids, ?accounted, ?pending, ?asks, ?received, ?lan, ?lost, ?replied⟩
  case ids => rw [receivedIds_append, hids.1, List.append_nil, haccepted, h.ids]
  case accounted =>
    have hall := h.accounted
    rw [ServerState.openIds, hx, List.map_append, List.map_cons] at hall
    rw [repliedIds_append, hids.2.1, ServerState.openIds, hs, haccepted, List.map_append, List.map_append]
    refine .trans ?_ hall
    rw [List.append_assoc]
    refine List.Perm.append_left _ ?_
    -- the reply or the session that is left stands for the session
    refine .trans ?_ (List.perm_middle).symm
    refine .trans ?_ ((accounted_turn turn x.id).append_right (before.map OpenSession.id ++ after.map OpenSession.id))
    rw [List.append_assoc, List.append_assoc]
    refine List.Perm.append_left _ ?_
    rw [← List.append_assoc, ← List.append_assoc]
    exact List.perm_append_comm.append_right _
  case pending =>
    intro y hy
    rcases hcases y hy with hy | ⟨-, rfl⟩
    · exact h.pending y hy
    · exact hof.1
  case asks =>
    intro y hy
    rcases hcases y hy with hy | ⟨-, rfl⟩
    · exact h.asks y hy
    · rw [hof.2.1]
      exact hof.2.2.2
  case received =>
    intro y hy
    rcases hcases y hy with hy | ⟨hid, rfl⟩
    · exact List.mem_append_left _ (h.received y hy)
    · rw [hid, hof.2.1, hof.2.2.1]
      exact List.mem_append_left _ (h.received x hmem)
  case lan =>
    intro y hy late hphase
    rcases hcases y hy with hy | ⟨-, hturn⟩
    · exact h.lan y hy late hphase
    · rw [hphase] at hturn
      subst hturn
      rw [hof.2.1]
      exact localHost_of_moves hmoves
  case lost =>
    intro y hy hphase
    rcases hcases y hy with hy | ⟨hid, hturn⟩
    · exact (h.lost y hy hphase).imp fun _ => List.mem_append_left _
    · rw [hphase] at hturn
      rcases hshown with ⟨-, hne⟩ | ⟨f, hforwarded, rfl⟩
      · exact absurd ((hnext _ _ hturn).2 rfl) hne
      · rw [hturn] at hforwarded
        obtain ⟨buffer, rfl⟩ := lost_of_forwarded hforwarded
        rw [hid]
        exact ⟨buffer, List.mem_append_right _ List.mem_cons_self⟩
  case replied =>
    intro id session sent hin
    rcases List.mem_append.1 hin with hin | hin
    · exact List.mem_append_left _ (h.replied id session sent hin)
    · obtain ⟨_, _, heq, rfl⟩ := mem_shows (hids.2.2 _ _ _ hin)
      cases heq
      rw [hof.1, hof.2]
      exact List.mem_append_left _ (h.received x hmem)

/-- One step. -/
theorem Kept.Sessions.next (h : Kept.Sessions events s) (hstep : ServerStep P o order config s shown s') :
    Kept.Sessions (events ++ shown) s' := by
  rcases sessions_of_step hstep with ⟨hs, haccepted, hreceived, hreplied⟩ |
    ⟨m, size, r, turn, hm, hpos, hsize, hparse, hvalid, hstart, hs, haccepted, rfl⟩ |
    ⟨before, x, after, turn, hx, hmoves, hs, haccepted, hshown⟩
  · exact h.stay hs haccepted hreceived hreplied
  · exact h.next_received ⟨hm, ⟨size, hsize, hparse⟩, hvalid, rfl, rfl⟩ hstart hs haccepted
  · exact h.next_moves hx hmoves hs haccepted hshown

/-- **All runs** account for their sessions. -/
theorem sessions_of_run (h : ServerRun P o order config events s) : Kept.Sessions events s := by
  refine h.keeps Kept.Sessions ⟨rfl, .refl _, ?_, ?_, ?_, ?_, ?_, ?_⟩ fun _ _ _ _ _ hinv hstep => hinv.next hstep
  all_goals simp

/-! ## Rest -/

/-- How many turns the sessions that are open can take in all. -/
def ServerState.turns (s : ServerState) : Nat := (s.sessions.map fun x => x.phase.rank + 1).sum

/-- A turn of a session brings all sessions closer to their end. -/
theorem turns_lt_of_moves (h : Kept.Sessions events s) {before after : List OpenSession} {x : OpenSession} {turn : Turn}
    (hx : s.sessions = before ++ x :: after) (hmoves : Moves config x turn)
    (hs : s'.sessions = before ++ turn.left x.id ++ after) : s'.turns < s.turns := by
  have hmem : x ∈ s.sessions := by
    rw [hx]
    exact List.mem_append_right _ List.mem_cons_self
  obtain ⟨-, hnext⟩ := moves_of (h.pending x hmem) (h.asks x hmem) hmoves
  have hleft : ((turn.left x.id).map fun x => x.phase.rank + 1).sum < x.phase.rank + 1 := by
    cases turn with
    | goes session phase =>
      have hrank := (hnext _ _ rfl).1
      simpa [Turn.left] using hrank
    | replies => simp [Turn.left]
  rw [ServerState.turns, ServerState.turns, hs, hx]
  simp only [List.map_append, List.sum_append, List.map_cons, List.sum_cons]
  omega

theorem turns_of_step (h : Kept.Sessions events s) (hstep : ServerStep P o order config s shown s')
    (hnone : receivedIds shown = []) : s'.sessions = s.sessions ∨ s'.turns < s.turns := by
  rcases sessions_of_step hstep with ⟨hs, -⟩ | ⟨m, size, r, turn, -, -, -, -, -, -, -, -, rfl⟩ |
    ⟨before, x, after, turn, hx, hmoves, hs, -⟩
  · exact .inl hs
  · exact absurd hnone (List.cons_ne_nil _ _)
  · exact .inr (turns_lt_of_moves h hx hmoves hs)

/-- No handler of a session can run, as long as no other request comes. -/
def Rested (P : Protobuf) (o : Outside) (order : List Nat → List Nat) (config : Config) (s : ServerState) : Prop :=
  ∀ shown s', ServerStep P o order config s shown s' → receivedIds shown = [] → s'.sessions = s.sessions

/-- The questions of the request lie in its buffer. -/
def QuestionsInside (r : UdpRequest) : Prop :=
  ∀ zone, r.queryZone = some zone → DnsHeader.defaultLen + zone.len ≤ 1024

/-- The questions of the request leave room for an address in the 512 bytes of a response. -/
def HasRoom (r : UdpRequest) : Prop :=
  ∀ zone, r.queryZone = some zone →
    DnsHeader.defaultLen + zone.len + DnsResourceZone.defaultSingleIpLen < DnsResourceZone.maxLen

theorem HasRoom.inside {r : UdpRequest} (h : HasRoom r) : QuestionsInside r :=
  fun zone hz => Nat.le_of_add_right_le (Nat.le_trans (Nat.le_of_lt (h zone hz)) (by decide))

/-- A response can be built for a pending session, whatever the record. -/
theorem ofRequest_of_pending {session : Session} (hp : Pending session) (hinside : QuestionsInside session.request)
    (record : DnsRecord) (expire : Nat) :
    ∃ b, UdpResponse.ofRequest session.buffer session.request record expire = .ok b := by
  obtain ⟨size, -, hparse⟩ := hp.parsed
  obtain ⟨header, zone, query, hh, hz, hdata, -, -⟩ := accepted_parts hparse hp.valid
  obtain ⟨b, hb, -⟩ := ofRequest_ok record expire hh hz hdata hp.length (hinside zone hz)
  exact ⟨b, hb⟩

theorem lookedUp_of_pending (config : Config) {session : Session} (hp : Pending session)
    (hinside : QuestionsInside session.request)
    (late : Bool) (record : DnsRecord) : ∃ turn works, lookedUp config late session record = .ok (turn, works) := by
  obtain ⟨b, hb⟩ := ofRequest_of_pending hp hinside record (calExpire config record)
  have hanswer : Turn.ofReply (answer config session record) = .ok (.replies _ _) :=
    ofReply_eq_ok.2 ⟨_, _, answer_eq_ok.2 ⟨b, hb, rfl, rfl⟩, rfl⟩
  unfold lookedUp
  cases late with
  | true =>
    simp only [if_true, hanswer, bind, Except.bind]
    exact ⟨_, _, rfl⟩
  | false =>
    by_cases hips : record.ips = []
    · simp only [if_pos hips]
      exact ⟨_, _, rfl⟩
    · by_cases hflags : record.expire = true ∨ ¬record.matchArea = true
      · simp only [if_neg hips, hanswer, bind, Except.bind, if_pos hflags]
        exact ⟨_, _, rfl⟩
      · simp only [if_neg hips, hanswer, bind, Except.bind, if_neg hflags]
        exact ⟨_, _, rfl⟩

/-- Where no selection throws every name can be resolved. -/
theorem resolve_of_select (hselect : ∀ domain, (selectServers o.regexMatch domain config.servers).isSome = true)
    (now : Nat) (m : Manager) (host : Bytes) : ∃ record records,
      resolve P o config now m host = some (record, records) := by
  obtain ⟨selected, hselected⟩ := Option.isSome_iff_exists.1 (hselect (m.getDnsRecordsPb P now host).1.domain)
  exact ⟨_, _, resolve_eq_some.2 ⟨Option.bind_eq_some_iff.2 ⟨selected, hselected, rfl⟩, rfl⟩⟩

/-- **A session that is open** and not lost can take a turn. -/
theorem lost_of_rested (h : Kept.Sessions events s) (hrested : Rested P o order config s)
    (hselect : ∀ domain, (selectServers o.regexMatch domain config.servers).isSome = true)
    (hforward : ∀ server ∈ forwardServer config, o.Usable server)
    (hinside : ∀ id m r, .received id m r ∈ events → QuestionsInside r) {x : OpenSession} (hx : x ∈ s.sessions) :
    x.phase = .lost := by
  obtain ⟨before, after, hs⟩ := List.append_of_mem hx
  have hp := h.pending x hx
  have hin := hinside _ _ _ (h.received x hx)
  have hmoved : ∀ {turn : Turn} {shown : List ServerEvent} {s' : ServerState}, Moves config x turn →
      ServerStep P o order config s shown s' → receivedIds shown = [] →
      s'.sessions = before ++ turn.left x.id ++ after → False := by
    intro turn shown s' hmoves hstep hnone hs'
    have hlt := turns_lt_of_moves h hs hmoves hs'
    rw [ServerState.turns, hrested shown s' hstep hnone] at hlt
    exact Nat.lt_irrefl _ hlt
  cases hphase : x.phase with
  | lost => rfl
  | waiting => exact (hmoved (.timer hphase) (.timer hs hphase) rfl (by simp [Turn.left])).elim
  | forwarding =>
    obtain ⟨b, hb⟩ := ofRequest_of_pending hp hin x.session.record (calExpire config x.session.record)
    have hturn : forwardedTurn config x.session .failed = .ok (.replies _ _) :=
      ofReply_eq_ok.2 ⟨_, _, complete_built hp.response hb, rfl⟩
    exact (hmoved (.forwarded _ hphase hturn) (.forwarded _ hs hphase hforward hturn) rfl rfl).elim
  | looking late =>
    obtain ⟨record, records, hresolve⟩ := resolve_of_select (P := P) hselect 0 s.sync.records
      x.session.request.getHost
    by_cases hlan : looksLan x.session.request.getHost record
    · exact (hmoved (.lookedFirst hphase hlan.2) (.lookedFirst 0 hs hphase hresolve hlan) rfl
        (by simp [Turn.left])).elim
    · obtain ⟨turn, works, hlooked⟩ := lookedUp_of_pending config hp hin late record
      exact (hmoved (.looked record (.inl hphase) hlooked) (.looked 0 hs hphase hresolve hlan hlooked)
        (receivedIds_shows _ _) rfl).elim
  | lookingLan late =>
    obtain ⟨record, records, hresolve⟩ := resolve_of_select (P := P) hselect 0 s.sync.records
      (removeFIDomain x.session.request.getHost)
    obtain ⟨turn, works, hlooked⟩ := lookedUp_of_pending config hp hin late
      { record with domain := x.session.request.getHost }
    exact (hmoved (.looked _ (.inr hphase) hlooked) (.lookedLan 0 hs hphase hresolve hlooked)
      (receivedIds_shows _ _) rfl).elim

end Sessions

/-! ## A query that is answered -/

/-- The datagram of `oneQuestion` in the buffer of a session. -/
def oneBuffer : Bytes := oneQuestion ++ List.replicate 1005 0

theorem length_oneBuffer : oneBuffer.length = 1024 := by
  rw [oneBuffer, List.length_append, List.length_replicate]
  rfl

theorem oneRequest : ∃ r, UdpRequest.parse oneBuffer 19 = some r ∧ r.valid = true ∧ getQueryType r = .ok QueryType.a ∧
    r.getHost = [97] ∧ HasRoom r := by
  have h : (UdpRequest.parse oneBuffer 19).any (fun r => r.valid ∧ getQueryType r = .ok QueryType.a ∧ r.getHost = [97] ∧
      r.queryZone.all fun zone =>
        DnsHeader.defaultLen + zone.len + DnsResourceZone.defaultSingleIpLen < DnsResourceZone.maxLen) = true := by
    decide +kernel
  obtain ⟨r, hr, h⟩ := (Option.any_eq_true _ _).1 h
  obtain ⟨hv, htype, hhost, hzone⟩ := of_decide_eq_true h
  refine ⟨r, hr, hv, htype, hhost, fun zone hz => ?_⟩
  rw [hz] at hzone
  exact of_decide_eq_true hzone

/-- Surroundings in which every address is in every area. -/
def plain : Outside := plainOutside fun _ _ => true

def oneSession (r : UdpRequest) : Session :=
  { Session.fresh oneBuffer with request := r, record := { domain := r.getHost } }

def oneTask : SyncTask := syncTask [97] { ip := oneIp, port := 53, type := .udp } maxPriority

def oneWaiting : TaskQueue.State (Bytes × RemoteDnsServer) :=
  { queue := (({ maxQps := 100, maxRunning := 100 } : Queue _).submit (madeOf [oneTask] 0)).2.generateKey }

def oneDispatched : TaskQueue.State (Bytes × RemoteDnsServer) :=
  (oneWaiting.queue.dispatch (0, 100)).elim oneWaiting fun dispatched =>
    { queue := dispatched.2, outstanding := [dispatched.1] }

def oneRunning : PriorityTask (Bytes × RemoteDnsServer) := { madeOf [oneTask] 0 with status := .running }

/-- The message that comes back. -/
def oneArrival : CallArrival :=
  .udp 7 (.received { buffer := addressBytes, size := addressBytes.length, fits := by decide })

def oneFinishing (added : Bool) : Finishing :=
  { job := .ofTask oneRunning (.same []), ips := [167772161], handed := [167772161], loadAll := true, added := added }

/-- The records with the address. -/
def oneAdded : Manager :=
  let read := ({} : Manager).getDnsRecordsPb wire 0 [97]
  let resolved := read.2.reverseResolve wire 0 167772161
  let indexed := resolved.2.putReverse wire 0 167772161 [97] resolved.1
  { indexed with
    db := DiskKv.put wire 0 indexed.db [97] (wire.serializeRecords (((oneFinishing false).call 0).message read.1)) 0 }

/-- The server with one session and one task. -/
def oneState (r : UdpRequest) (phase : Phase) (records : Manager) (added : Bool) : ServerState :=
  { accepted := 1
    sessions := [{ id := 0, session := oneSession r, phase := phase }]
    works := [.submitting []]
    created := [oneTask]
    sync := { sync := oneDispatched, jobs := [.ofTask oneRunning (.same [])], records := records }
    finishing := some (oneFinishing added) }

/-- The addition of the address. -/
def oneCall : AddCall := (oneFinishing false).call 0

/-- What has happened when the addition is written. -/
def oneEvents (r : UdpRequest) : List ServerEvent :=
  [.received 0 oneBuffer r, .created oneTask, .executed oneRunning (.same []), .returned oneRunning oneArrival,
    .store (.get oneCall), .store .resolve, .store .putReverse, .store (.put oneCall)]

section OneRun

variable {r : UdpRequest}

/-- The query waits, and its upstream has answered. -/
theorem run_returned (hparse : UdpRequest.parse oneBuffer 19 = some r) (hv : r.valid = true)
    (htype : getQueryType r = .ok QueryType.a) (hhost : r.getHost = [97]) :
    ServerRun wire plain id oneServer ((oneEvents r).take 4) (oneState r .waiting {} false) := by
  have hhost' : (oneSession r).request.getHost = [97] := hhost
  have hstart : start oneServer { Session.fresh oneBuffer with request := r } =
      .ok (.goes (oneSession r) (.looking false)) := by
    obtain ⟨header, zone, query, hh, hz, -, hq, -⟩ := accepted_parts hparse hv
    rw [getQueryType_eq hz hq, Except.ok.injEq] at htype
    simp only [start, getQueryType_eq hz hq, getQueryTypeValue_eq hz hq, bind, Except.bind, htype, if_true, hhost]
    rw [if_neg (by decide), oneSession, hhost]
    rfl
  have begun : ServerRun wire plain id oneServer [] {} := .refl
  have received := begun.next (.received length_oneBuffer (by decide) (by decide) hparse hv hstart)
  have looked := received.next (.looked 0 (show _ = [] ++ _ :: [] from rfl) rfl (by rw [hhost']; rfl)
    (by rw [hhost']; decide) rfl)
  have selected := looked.next (.selected (show _ = [] ++ _ :: [] from rfl) (by rw [hhost']; rfl))
  have submitted := selected.next (.submitted (show _ = [] ++ _ :: [] from rfl) (.inl rfl) (.accepted _ rfl))
  have generated := submitted.next (.generated (.generated _))
  have hdispatch : Does (madeOf [oneTask]) oneWaiting (.dispatched oneRunning) oneDispatched :=
    .dispatched oneWaiting ⟨by decide +kernel, by decide, by decide⟩
      (show oneWaiting.queue.IsTop (0, 100) from ⟨by decide, by decide⟩) rfl
  have dispatched := generated.next (.dispatched hdispatch)
  have executed := dispatched.next (.executed (.same []) (show _ = [] ++ _ :: [] from rfl))
  have hips : oneArrival.ips .udp = some [167772161] := by decide +kernel
  have returned := executed.next (.returnedLast oneArrival rfl (show _ = [] ++ _ :: [] from rfl) (by decide) hips rfl)
  exact returned

/-- The address is added, and the timer expires. -/
theorem run_added (h : ServerRun wire plain id oneServer ((oneEvents r).take 4) (oneState r .waiting {} false)) :
    ServerRun wire plain id oneServer (oneEvents r) (oneState r (.looking true) oneAdded true) := by
  have read := h.next (.get 0 rfl rfl (.get _ rfl))
  have resolved := read.next (.stores (by simp) (.resolve rfl))
  have indexed := resolved.next (.stores (by simp) (.putReverse rfl))
  have written := indexed.next (.put rfl (.put rfl))
  have hs : (oneState r .waiting oneAdded true).sessions =
      [] ++ { id := 0, session := oneSession r, phase := .waiting } :: [] := rfl
  exact written.next (.timer hs rfl)

theorem resolve_oneAdded : ∃ p, resolve wire plain oneServer 0 oneAdded [97] = some p ∧ p.1.ips = [167772161] := by
  have h : (resolve wire plain oneServer 0 oneAdded [97]).any (fun p => p.1.ips = [167772161]) = true := by
    decide +kernel
  obtain ⟨p, hp, h⟩ := (Option.any_eq_true _ _).1 h
  exact ⟨p, hp, of_decide_eq_true h⟩

/-- The query is answered with the address. -/
theorem run_replied : ∃ r s session sent,
    ServerRun wire plain id oneServer (oneEvents r ++ [.replied 0 session sent]) s ∧
    session.record.ips = [167772161] ∧ session.request.getHost = [97] ∧ AsksAddresses session.request ∧
    HasRoom session.request := by
  obtain ⟨r, hparse, hv, htype, hhost, hroom⟩ := oneRequest
  have hhost' : (oneSession r).request.getHost = [97] := hhost
  have hadded := run_added (run_returned hparse hv htype hhost)
  obtain ⟨p, hresolve, hips⟩ := resolve_oneAdded
  have hp : Pending (oneSession r) := ⟨length_oneBuffer, ⟨19, by decide, hparse⟩, hv, rfl, rfl⟩
  obtain ⟨b, hb⟩ := ofRequest_of_pending hp hroom.inside p.1 (calExpire oneServer p.1)
  have hanswer : Turn.ofReply (answer oneServer (oneSession r) p.1) =
      .ok (.replies { oneSession r with record := p.1, response := some b } b.bytes) :=
    ofReply_eq_ok.2 ⟨_, _, answer_eq_ok.2 ⟨b, hb, rfl, rfl⟩, rfl⟩
  have hlooked : lookedUp oneServer true (oneSession r) p.1 =
      .ok (.replies { oneSession r with record := p.1, response := some b } b.bytes, []) := by
    simp only [lookedUp, if_true, hanswer, bind, Except.bind]
    rfl
  have hlan : ¬looksLan [97] p.1 := by
    rw [looksLan, hips]
    simp
  rw [← hhost'] at hresolve hlan
  have hs : (oneState r (.looking true) oneAdded true).sessions =
      [] ++ { id := 0, session := oneSession r, phase := .looking true } :: [] := rfl
  have replied := hadded.next (.looked 0 hs rfl hresolve hlan hlooked)
  exact ⟨r, _, _, _, replied, hips, hhost, ⟨htype, by rw [hhost']; decide⟩, hroom⟩

end OneRun

end StDns.Server
