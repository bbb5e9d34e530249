import StDns.Server.SystemQueue
import StDns.Store.Views

/-!
# Where the addresses of replies come from

The addresses that go through the whole server: from a message that comes back for a call, through the handlers of the
areas, an addition that is interleaved with what the console does, the store, the lookup of a session and the response
that is built. Whatever the threads do, a reply has only addresses that an upstream gave for the host, or for the host
without a last label `LAN`, in an answer to a call that was made for that name because the upstream was selected for it
(`replies_from_upstreams`).
-/

namespace StDns.Server

open Lib Protocol Proto Store Client TaskQueue Linear

/-! ## Addresses on their way -/

/-- A server under this id gave the address when it was asked for the host. -/
def GivenBy (events : List ServerEvent) (host id : Bytes) (ip : Nat) : Prop :=
  ∃ task arrival, .returned task arrival ∈ events ∧ task.input.1 = host ∧ task.input.2.id = id ∧ arrival.Gives ip

/-- All entries of the map were given for the host. -/
def EntriesGiven (events : List ServerEvent) (host : Bytes) (map : ServerMap) : Prop :=
  ∀ id record, map.lookup id = some record → ∀ ip ∈ record.ips, GivenBy events host id ip.toNat

/-- What an addition under way has read, and what it adds. -/
def CallGiven (events : List ServerEvent) (call : AddCall) (dnsRecords : Records) : Prop :=
  EntriesGiven events call.domain dnsRecords.map ∧
    ∀ ip ∈ call.ips, GivenBy events call.domain call.dnsServer ip.toNat

def ClientGiven (events : List ServerEvent) : ClientPhase → Prop
  | .idle => True
  | .adding call dnsRecords _ | .resolved call dnsRecords _ _ _ => CallGiven events call dnsRecords

/-- What a run keeps of the addresses. -/
structure Kept.Origin (P : Protobuf) (events : List ServerEvent) (s : ServerState) : Prop where
  records : Lasting P s.sync.records.db fun domain data => EntriesGiven events domain (P.parseRecords data).map
  client : ClientGiven events s.client
  finishing : ∀ f, s.finishing = some f →
    ∀ ip ∈ f.handed, GivenBy events f.job.task.input.1 f.job.task.input.2.id ip
  jobs : ∀ job ∈ s.sync.jobs, ∀ ip ∈ job.collected.result, GivenBy events job.task.input.1 job.task.input.2.id ip

section Given

variable {P : Protobuf} {o : Outside} {order : List Nat → List Nat} {config : Config} {events shown : List ServerEvent}
  {s s' : ServerState} {host id : Bytes} {ip : Nat}

theorem GivenBy.mono (h : GivenBy events host id ip) (shown : List ServerEvent) :
    GivenBy (events ++ shown) host id ip := by
  obtain ⟨task, arrival, hmem, hgiven⟩ := h
  exact ⟨task, arrival, List.mem_append_left _ hmem, hgiven⟩

theorem EntriesGiven.mono {map : ServerMap} (h : EntriesGiven events host map) (shown : List ServerEvent) :
    EntriesGiven (events ++ shown) host map := fun id record hrecord ip hip => (h id record hrecord ip hip).mono shown

theorem ClientGiven.mono {phase : ClientPhase} (h : ClientGiven events phase) (shown : List ServerEvent) :
    ClientGiven (events ++ shown) phase := by
  have hcall : ∀ {call dnsRecords}, CallGiven events call dnsRecords → CallGiven (events ++ shown) call dnsRecords :=
    fun hcall => ⟨hcall.1.mono shown, fun ip hip => (hcall.2 ip hip).mono shown⟩
  cases phase with
  | idle => trivial
  | adding => exact hcall h
  | resolved => exact hcall h

theorem Kept.Origin.mono (h : Kept.Origin P events s) (shown : List ServerEvent) :
    Kept.Origin P (events ++ shown) s :=
  ⟨h.records.mono fun _ _ hsuch => hsuch.mono shown, h.client.mono shown,
    fun f hf ip hip => (h.finishing f hf ip hip).mono shown, fun job hjob ip hip => (h.jobs job hjob ip hip).mono shown⟩

/-- What a call gives is an address. -/
theorem CallArrival.Gives.lt {arrival : CallArrival} (h : arrival.Gives ip) : ip < 2 ^ 32 := by
  cases arrival with
  | udp qid arrival =>
    obtain ⟨datagram, -, hanswered⟩ := h
    exact hanswered.lt (by have := datagram.fits; omega)
  | stream qid arrival =>
    obtain ⟨_, _, _, _, -, -, hn, hanswered⟩ := h
    exact hanswered.lt (by omega)

theorem GivenBy.toNat (h : GivenBy events host id ip) : GivenBy events host id (UInt32.ofNat ip).toNat := by
  obtain ⟨task, arrival, hmem, hhost, hid, hgives⟩ := h
  rw [UInt32.toNat_ofNat', Nat.mod_eq_of_lt hgives.lt]
  exact ⟨task, arrival, hmem, hhost, hid, hgives⟩

/-- What the handler of a call gets is from the message that came back. -/
theorem gives_of_ips {type : ServerType} {arrival : CallArrival} {ips : List Nat} (h : arrival.ips type = some ips)
    (hip : ip ∈ ips) : arrival.Gives ip := by
  cases arrival with
  | udp qid arrival =>
    cases type <;> simp only [CallArrival.ips] at h
    · cases arrival with
      | failed =>
        cases h
        cases hip
      | received datagram =>
        exact ⟨datagram, rfl, udp_answered (by have := datagram.fits; omega) h hip⟩
    all_goals cases h
  | stream qid arrival =>
    cases type <;> simp only [CallArrival.ips] at h
    · cases h
    · exact arrival_answered (List.mem_singleton_self _) h hip
    · exact arrival_answered (List.mem_singleton_self _) h hip
    · cases h

/-- The addresses that a job has collected, or hands on, were collected before or are those of the call. -/
theorem mem_of_handle (horder : ∀ l, (order l).Perm l) {job next : Job} {ips : List Nat}
    {handed : Option (List Nat × Bool)} (h : job.handle order ips = (next, handed)) :
    next.task = job.task ∧ (∀ ip ∈ next.collected.result, ip ∈ job.collected.result ∨ ip ∈ ips) ∧
      ∀ p, handed = some p → ∀ ip ∈ p.1, ip ∈ job.collected.result ∨ ip ∈ ips := by
  have hfst := handle_fst order job ips
  rw [h] at hfst
  subst hfst
  have hcollected : ∀ ip ∈ (job.collected.each ips).result, ip ∈ job.collected.result ∨ ip ∈ ips :=
    fun ip hip => (mem_emplaced ips _).1 hip
  refine ⟨rfl, hcollected, fun p hp ip hip => ?_⟩
  subst hp
  have hsnd : (job.handle order ips).2 = some p := by rw [h]
  unfold Job.handle at hsnd
  by_cases hcollects : job.reads.Collects
  · simp only [if_pos hcollects] at hsnd
    split at hsnd
    · simp only at hsnd
      split at hsnd
      · cases hsnd
        exact hcollected ip ((horder _).mem_iff.1 hip)
      · cases hsnd
    · simp only at hsnd
      split at hsnd
      · cases hsnd
        exact hcollected ip ((List.mergeSort_perm _ _).mem_iff.1 hip)
      · cases hsnd
    · cases hsnd
      exact .inr hip
  · simp only [if_neg hcollects] at hsnd
    cases hsnd
    exact .inr hip

/-! ## Reading and writing -/

/-- What is read was given, and the records stay. -/
theorem Kept.Origin.read (h : Kept.Origin P events s) (now : Nat) (domain : Bytes) :
    (s.sync.records.getDnsRecordsPb P now domain).2 = s.sync.records ∧
      EntriesGiven events domain (s.sync.records.getDnsRecordsPb P now domain).1.map := by
  obtain ⟨data, hget, hdata⟩ := h.records.get now domain
  refine ⟨by rw [h.records.getDnsRecordsPb], ?_⟩
  rw [Manager.getDnsRecordsPb, hget]
  by_cases hempty : data = []
  · simp only [hempty, ne_eq, not_true_eq_false, if_false]
    intro id record hrecord
    rw [AList.lookup_empty] at hrecord
    cases hrecord
  · simp only [ne_eq, hempty, not_false_eq_true, if_true]
    exact hdata.resolve_left hempty

/-- **A record** that is resolved has addresses that were given by servers that are selected. -/
theorem Kept.Origin.resolved (h : Kept.Origin P events s) {now : Nat} {domain : Bytes} {record : DnsRecord}
    {records : Manager} (hresolve : resolve P o config now s.sync.records domain = some (record, records)) :
    records = s.sync.records ∧ ∀ ip ∈ record.ips, ∃ server, Selected o.regexMatch config domain server ∧
      GivenBy events domain server.id ip := by
  obtain ⟨hrecord, rfl⟩ := resolve_eq_some.1 hresolve
  obtain ⟨hstay, hgiven⟩ := h.read now domain
  refine ⟨hstay, fun ip hip => ?_⟩
  obtain ⟨servers, hselect, hmade⟩ := Option.bind_eq_some_iff.1 hrecord
  cases hmade
  obtain ⟨server, hserver, entry, hentry, hmem⟩ := given_of_mem_recordOf hip
  obtain ⟨ip', hip', rfl⟩ := List.mem_map.1 hmem
  exact ⟨server, ⟨servers, hselect, hserver⟩, hgiven _ _ hentry _ hip'⟩

/-- What an addition writes, also when it is cut off at a zero, was given. -/
theorem given_of_message (hcuts : P.Cuts) {call : AddCall} {dnsRecords : Records}
    (h : CallGiven events call dnsRecords) :
    EntriesGiven events call.domain (P.parseRecords (cString (P.serializeRecords (call.message dnsRecords)))).map := by
  intro id record hrecord ip hip
  have hentry := hcuts.records_cut (call.message dnsRecords) _ (List.takeWhile_prefix _) id record hrecord
  rw [AddCall.message] at hentry
  by_cases hid : id = call.dnsServer
  · subst hid
    rw [AList.lookup_insert, Option.some.injEq] at hentry
    subst hentry
    exact h.2 ip hip
  · rw [AList.lookup_insert_ne hid] at hentry
    exact h.1 id record hentry ip hip

/-- The operations of an addition on the reverse records and those of the console. -/
theorem origin_of_shared (h : Kept.Origin P events s) {action : StoreAction} {marks : List (Mark Thread Op)}
    {shared : Shared} (haction : ∀ call, action ≠ .get call ∧ action ≠ .put call)
    (hstep : SharedStep P s.shared action marks shared) : Kept.Origin P events (s.withShared shared) := by
  have hclient := h.client
  cases hstep with
  | get call => exact absurd rfl (haction call).1
  | put => exact absurd rfl (haction _).2
  | resolve hphase =>
    change s.client = _ at hphase
    rw [hphase] at hclient
    exact ⟨h.records, hclient, h.finishing, h.jobs⟩
  | @putReverse call dnsRecords ip ips record hphase =>
    change s.client = _ at hphase
    rw [hphase] at hclient
    refine ⟨?_, hclient, h.finishing, h.jobs⟩
    have hdb : (s.sync.records.putReverse P call.now ip call.domain record).db = s.sync.records.db :=
      putReverse_db record
    change Lasting P (s.sync.records.putReverse P call.now ip call.domain record).db _
    rw [hdb]
    exact h.records
  | remove domain => exact ⟨h.records.erase, hclient, h.finishing, h.jobs⟩
  | iterate => exact ⟨h.records, hclient, h.finishing, h.jobs⟩
  | erase => exact ⟨h.records.erase, hclient, h.finishing, h.jobs⟩
  | cleared => exact ⟨h.records, hclient, h.finishing, h.jobs⟩

/-- A step that leaves the addresses where they are. -/
theorem Kept.Origin.stay (h : Kept.Origin P events s) (hrecords : s'.sync.records = s.sync.records)
    (hjobs : s'.sync.jobs = s.sync.jobs) (hclient : s'.client = s.client) (hfinishing : s'.finishing = s.finishing) :
    Kept.Origin P events s' := by
  refine ⟨?_, ?_, ?_, ?_⟩
  · rw [hrecords]
    exact h.records
  · rw [hclient]
    exact h.client
  · rw [hfinishing]
    exact h.finishing
  · rw [hjobs]
    exact h.jobs

/-- Jobs that are there, or are taken out. -/
theorem mem_jobs_of_split {before after : List Job} {job other : Job} (hjobs : s.sync.jobs = before ++ job :: after)
    (h : other ∈ before ++ after) : other ∈ s.sync.jobs := by
  rw [hjobs]
  exact List.perm_middle.mem_iff.2 (List.mem_cons_of_mem _ h)

/-- **One step.** -/
theorem Kept.Origin.next (hcuts : P.Cuts) (horder : ∀ l, (order l).Perm l) (h : Kept.Origin P events s)
    (hstep : ServerStep P o order config s shown s') : Kept.Origin P (events ++ shown) s' := by
  cases hstep with
  | received => exact (h.mono _).stay rfl rfl rfl rfl
  | looked now _ _ hresolve => exact (h.mono _).stay (h.resolved hresolve).1 rfl rfl rfl
  | lookedFirst now _ _ hresolve => exact (h.mono _).stay (h.resolved hresolve).1 rfl rfl rfl
  | lookedLan now _ _ hresolve => exact (h.mono _).stay (h.resolved hresolve).1 rfl rfl rfl
  | timer => exact (h.mono _).stay rfl rfl rfl rfl
  | forwarded => exact (h.mono _).stay rfl rfl rfl rfl
  | selected => exact (h.mono _).stay rfl rfl rfl rfl
  | submitted => exact (h.mono _).stay rfl rfl rfl rfl
  | generated => exact (h.mono _).stay rfl rfl rfl rfl
  | dispatched => exact (h.mono _).stay rfl rfl rfl rfl
  | consulted now domain => exact (h.mono _).stay (h.read now domain).1 rfl rfl rfl
  | @executed before after task reads hposted =>
    have h := h.mono [.executed task reads]
    refine ⟨h.records, h.client, h.finishing, fun job hjob ip hip => ?_⟩
    rcases List.mem_append.1 hjob with hjob | hjob
    · exact h.jobs job hjob ip hip
    · rw [List.mem_singleton.1 hjob] at hip
      cases hip
  | @returned before after job next ips arrival hfinishing hjobs hleft hips hhandle =>
    have h := h.mono [.returned job.task arrival]
    have hmem : job ∈ s.sync.jobs := by
      rw [hjobs]
      exact List.mem_append_right _ List.mem_cons_self
    obtain ⟨htask, hcollected, -⟩ := mem_of_handle horder hhandle
    refine ⟨h.records, h.client, h.finishing, fun other hother ip hip => ?_⟩
    rcases List.mem_cons.1 (List.perm_middle.mem_iff.1 hother) with rfl | hother
    · rw [htask]
      rcases hcollected ip hip with hold | hnew
      · exact h.jobs job hmem ip hold
      · exact ⟨_, arrival, List.mem_append_right _ (List.mem_singleton_self _), rfl, rfl, gives_of_ips hips hnew⟩
    · exact h.jobs other (mem_jobs_of_split hjobs hother) ip hip
  | @returnedLast before after job next ips handed loadAll arrival hfinishing hjobs hleft hips hhandle =>
    have h := h.mono [.returned job.task arrival]
    have hmem : job ∈ s.sync.jobs := by
      rw [hjobs]
      exact List.mem_append_right _ List.mem_cons_self
    obtain ⟨-, -, hhanded⟩ := mem_of_handle horder hhandle
    refine ⟨h.records, h.client, fun f hf ip hip => ?_, h.jobs⟩
    cases hf
    rcases hhanded _ rfl ip hip with hold | hnew
    · exact h.jobs job hmem ip hold
    · exact ⟨_, arrival, List.mem_append_right _ (List.mem_singleton_self _), rfl, rfl, gives_of_ips hips hnew⟩
  | @get f marks shared now hfinishing hadded hshared =>
    have h := h.mono [.store (.get (f.call now))]
    cases hshared
    obtain ⟨hstay, hgiven⟩ := h.read now f.job.task.input.1
    refine ⟨?_, ⟨hgiven, fun ip hip => ?_⟩, h.finishing, h.jobs⟩
    · change Lasting P (s.sync.records.getDnsRecordsPb P now f.job.task.input.1).2.db _
      rw [hstay]
      exact h.records
    · obtain ⟨v, hv, rfl⟩ := List.mem_map.1 hip
      exact (h.finishing f hfinishing v hv).toNat
  | @put f call marks shared hfinishing hshared =>
    have h := h.mono [.store (.put call)]
    cases hshared with
    | put hphase =>
      have hclient := h.client
      change s.client = _ at hphase
      rw [hphase] at hclient
      refine ⟨h.records.put (given_of_message hcuts hclient), trivial, fun f' hf ip hip => ?_, h.jobs⟩
      cases hf
      exact h.finishing f hfinishing ip hip
  | stores haction hshared => exact origin_of_shared (h.mono _) haction hshared
  | @completed f before after record records queue now hfinishing hadded hclient hjobs hresolve hdoes =>
    have hstay := (h.resolved hresolve).1
    have h := h.mono [.completed f.job.task]
    refine ⟨?_, h.client, fun f hf => (by cases hf), fun job hjob => h.jobs job (mem_jobs_of_split hjobs hjob)⟩
    change Lasting P records.db _
    rw [hstay]
    exact h.records

theorem origin_of_run (hcuts : P.Cuts) (horder : ∀ l, (order l).Perm l) (h : ServerRun P o order config events s) :
    Kept.Origin P events s := by
  refine h.keeps (Kept.Origin P) ⟨lasting_empty, trivial, by simp, by simp⟩ ?_
  exact fun _ _ _ _ _ hinv hstep => hinv.next hcuts horder hstep

/-! ## Replies -/

/-- The name under which the addresses for the host were asked for. -/
def NameFor (host name : Bytes) : Prop :=
  name = host ∨ name = removeFIDomain host ∧ LocalHost host

/-- The address was given for the name of the host by a server that is selected for it. -/
def FromUpstream (o : Outside) (config : Config) (events : List ServerEvent) (host : Bytes) (ip : Nat) : Prop :=
  ∃ name server, NameFor host name ∧ Selected o.regexMatch config name server ∧ GivenBy events name server.id ip

/-- A reply is what an upstream sent for the forwarded request, or it is built for the request, with addresses that
upstreams gave and that are to be kept for 10 seconds to 10 minutes. -/
def ReplyReason (o : Outside) (config : Config) (before : List ServerEvent) : ServerEvent → Prop
  | .replied id session sent =>
    (∃ buffer size, .forwarded id (.received buffer size) ∈ before ∧ sent = buffer.take size) ∨
    ∃ header zone ips expire, session.request.header = some header ∧ session.request.queryZone = some zone ∧
      sent = responseBytes header.id zone.querys.length (questionBytes session.buffer zone) ips expire ∧
      10 ≤ expire ∧ expire ≤ 600 ∧ ∀ ip ∈ ips, FromUpstream o config before session.request.getHost ip
  | _ => True

theorem mem_of_mem_firstIps {record : DnsRecord} (h : ip ∈ record.firstIps) : ip ∈ record.ips := by
  unfold DnsRecord.firstIps at h
  split at h
  · exact List.mem_of_mem_take h
  · exact h

/-- What is sent when a response is built for a pending session. -/
theorem built_bytes {session : Session} (hp : Pending session) {record : DnsRecord} {expire : Nat} {b : BuiltResponse}
    (hb : UdpResponse.ofRequest session.buffer session.request record expire = .ok b) : ∃ header zone,
      session.request.header = some header ∧ session.request.queryZone = some zone ∧
        (questionBytes session.buffer zone).length = zone.len ∧
        b.bytes = responseBytes header.id zone.querys.length (questionBytes session.buffer zone) record.firstIps
          expire := by
  obtain ⟨size, -, hparse⟩ := hp.parsed
  obtain ⟨header, zone, query, hh, hz, hdata, -, -⟩ := accepted_parts hparse hp.valid
  have hin : DnsHeader.defaultLen + zone.len ≤ 1024 := by
    by_contra hout
    rw [ofRequest_fault hh hz hdata hp.length (Nat.lt_of_not_le hout)] at hb
    cases hb
  obtain ⟨hlen, hbuilt⟩ := ofRequest_eq record expire hh hz hdata hp.length hin
  rw [hbuilt, Except.ok.injEq] at hb
  subst hb
  exact ⟨header, zone, hh, hz, hlen, bytes_builtResponse ..⟩

/-- **A response that is built** has addresses of its record only. -/
theorem built_reason {session : Session} (hp : Pending session) {record : DnsRecord} {b : BuiltResponse}
    (hb : UdpResponse.ofRequest session.buffer session.request record (calExpire config record) = .ok b)
    (hgiven : ∀ ip ∈ record.ips, FromUpstream o config events session.request.getHost ip) {id : Nat}
    {session' : Session} (hr : session'.request = session.request) (hbuffer : session'.buffer = session.buffer) :
    ReplyReason o config events (.replied id session' b.bytes) := by
  obtain ⟨header, zone, hh, hz, -, hbytes⟩ := built_bytes hp hb
  right
  rw [hr, hbuffer]
  refine ⟨header, zone, record.firstIps, calExpire config record, hh, hz, hbytes, ?_, ?_,
    fun ip hip => hgiven ip (mem_of_mem_firstIps hip)⟩
  · simp [calExpire]
  · simp [calExpire]

/-- A session that is completed without a response gets one without addresses. -/
theorem complete_reason {session session' : Session} (hp : Pending session) {sent : Bytes} {id : Nat}
    (h : complete config session = .ok (session', sent)) : ReplyReason o config events (.replied id session' sent) := by
  cases hb : UdpResponse.ofRequest session.buffer session.request session.record (calExpire config session.record) with
  | error f =>
    rw [complete_fault hp.response hb] at h
    cases h
  | ok b =>
    rw [complete_built hp.response hb] at h
    cases h
    refine built_reason hp hb (fun ip hip => ?_) rfl rfl
    rw [hp.ips] at hip
    cases hip

/-- What a session is answered with after a lookup. -/
theorem lookedUp_reason {session : Session} (hp : Pending session) {late : Bool} {record : DnsRecord} {turn : Turn}
    {works : List Work} (h : lookedUp config late session record = .ok (turn, works))
    (hgiven : ∀ ip ∈ record.ips, FromUpstream o config events session.request.getHost ip) (id : Nat) :
    Justified (fun before => ReplyReason o config (events ++ before)) (turn.shows id) := by
  rcases lookedUp_eq_ok h with ⟨-, -, rfl, -⟩ | ⟨-, session', sent, hanswer, rfl, -⟩
  · exact justified_nil
  · obtain ⟨b, hb, rfl, rfl⟩ := answer_eq_ok.1 hanswer
    refine justified_single ?_
    rw [List.append_nil]
    exact built_reason hp hb hgiven rfl rfl

theorem forwarded_reason {session : Session} (hp : Pending session) {forwarded : Forwarded} {turn : Turn} {id : Nat}
    (h : forwardedTurn config session forwarded = .ok turn) :
    Justified (fun before => ReplyReason o config (events ++ .forwarded id forwarded :: before)) (turn.shows id) := by
  cases forwarded with
  | failed =>
    obtain ⟨session', sent, hcomplete, rfl⟩ := ofReply_eq_ok.1 h
    exact justified_single (complete_reason hp hcomplete)
  | received buffer size =>
    rw [forwardedTurn] at h
    split at h
    · obtain ⟨session', sent, hcomplete, rfl⟩ := ofReply_eq_ok.1 h
      rw [complete_given rfl] at hcomplete
      cases hcomplete
      exact justified_single (.inl ⟨buffer, size, List.mem_append_right _ List.mem_cons_self, rfl⟩)
    · cases h
      exact justified_nil

/-- A session that is answered at once gets a response without addresses. -/
theorem start_reason {session : Session} (hp : Pending session) {turn : Turn} (h : start config session = .ok turn)
    (events : List ServerEvent) (id : Nat) :
    Justified (fun before => ReplyReason o config (events ++ before)) (turn.shows id) := by
  obtain ⟨length, ⟨size, hsize, hparse⟩, hvalid, hresponse, hips⟩ := hp
  obtain ⟨header, zone, query, hh, hz, -, hq, -⟩ := accepted_parts hparse hvalid
  have hcompleted : ∀ session₁ : Session, Turn.ofReply (complete config session₁) = .ok turn → Pending session₁ →
      Justified (fun before => ReplyReason o config (events ++ before)) (turn.shows id) := by
    intro session₁ hturn hp₁
    obtain ⟨session', sent, hcomplete, rfl⟩ := ofReply_eq_ok.1 hturn
    exact justified_single (complete_reason hp₁ hcomplete)
  simp only [start, getQueryType_eq hz hq, getQueryTypeValue_eq hz hq, bind, Except.bind] at h
  by_cases ha : query.queryType = QueryType.a
  · rw [if_pos ha] at h
    by_cases hlocal : session.request.getHost = localhost
    · rw [if_pos hlocal] at h
      obtain ⟨session', sent, hanswer, rfl⟩ := ofReply_eq_ok.1 h
      obtain ⟨b, hb, rfl, rfl⟩ := answer_eq_ok.1 hanswer
      have hp : Pending session := ⟨length, ⟨size, hsize, hparse⟩, hvalid, hresponse, hips⟩
      refine justified_single (built_reason hp hb (fun ip hip => ?_) rfl rfl)
      change ip ∈ session.record.ips at hip
      rw [hips] at hip
      cases hip
    · rw [if_neg hlocal] at h
      cases h
      exact justified_nil
  rw [if_neg ha] at h
  by_cases haaaa : query.queryType = QueryType.aaaa
  · rw [if_pos haaaa] at h
    exact hcompleted _ h ⟨length, ⟨size, hsize, hparse⟩, hvalid, hresponse, hips⟩
  rw [if_neg haaaa] at h
  split at h
  · cases h
    exact justified_nil
  · exact hcompleted _ h ⟨length, ⟨size, hsize, hparse⟩, hvalid, hresponse, hips⟩

/-- **One step.** -/
theorem reply_of_step (hcuts : P.Cuts) (horder : ∀ l, (order l).Perm l) (h : ServerRun P o order config events s)
    (hstep : ServerStep P o order config s shown s') :
    Justified (fun before => ReplyReason o config (events ++ before)) shown := by
  have horigin := origin_of_run hcuts horder h
  have hsessions := sessions_of_run h
  have hmem : ∀ {before after : List OpenSession} {x : OpenSession}, s.sessions = before ++ x :: after →
      x ∈ s.sessions := by
    intro before after x hs
    rw [hs]
    exact List.mem_append_right _ List.mem_cons_self
  cases hstep with
  | @received m size r turn hm hpos hsize hparse hvalid hstart =>
    refine justified_cons trivial ?_
    have hreason := start_reason (o := o) ⟨hm, ⟨size, hsize, hparse⟩, hvalid, rfl, rfl⟩ hstart
      (events ++ [.received s.accepted m r]) s.accepted
    simpa only [List.append_assoc, List.cons_append, List.nil_append] using hreason
  | looked now hs hphase hresolve hlan hlooked =>
    refine lookedUp_reason (hsessions.pending _ (hmem hs)) hlooked (fun ip hip => ?_) _
    obtain ⟨server, hselected, hgiven⟩ := (horigin.resolved hresolve).2 ip hip
    exact ⟨_, server, .inl rfl, hselected, hgiven⟩
  | lookedLan now hs hphase hresolve hlooked =>
    refine lookedUp_reason (hsessions.pending _ (hmem hs)) hlooked (fun ip hip => ?_) _
    obtain ⟨server, hselected, hgiven⟩ := (horigin.resolved hresolve).2 ip hip
    exact ⟨_, server, .inr ⟨rfl, hsessions.lan _ (hmem hs) _ hphase⟩, hselected, hgiven⟩
  | forwarded f hs hphase _ hturn =>
    exact justified_cons trivial (forwarded_reason (hsessions.pending _ (hmem hs)) hturn)
  | submitted => exact justified_single trivial
  | executed => exact justified_single trivial
  | returned => exact justified_single trivial
  | returnedLast => exact justified_single trivial
  | get => exact justified_single trivial
  | put => exact justified_single trivial
  | stores => exact justified_single trivial
  | completed => exact justified_single trivial
  | _ => exact justified_nil

end Given

end StDns.Server
