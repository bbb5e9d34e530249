import StDns.Server.Provenance
import StDns.Server.SyncRuns
import StDns.Store.Overlap

/-!
# The server as a whole

The threads of the server and what they share. The handlers of `dns_server` look a name up, answer, wait on a timer and
submit tasks; the queue dispatches tasks; the thread of the client takes what comes back for them and adds it to the
records, one operation on a store after another; the thread of the console removes and clears. A step (`ServerStep`) is
what one of them does between two points at which another can come in, and shows what it did. An exception that nothing
catches and an access outside a buffer end the process: then there is no step.

A session that is not interleaved with anything is handled as `process_session`, `query_record_from_cache` and
`query_dns_record` are (`processSession_eq_start`, `queryRecordFromCache_eq`, `tasks_eq_of_lookedUp`).
-/

namespace StDns.Server

open Lib Protocol Proto Store Client TaskQueue Linear

/-! ## A session -/

/-- How far the handling of a request is: the name is to be looked up in the cache, or the name without its last label,
each before or after the wait for the upstreams; it waits for them; it waits for the answer to the forwarded request, or
has come to where `forward_udp` does not call back. -/
inductive Phase where
  | looking (late : Bool)
  | lookingLan (late : Bool)
  | waiting
  | forwarding
  | lost
  deriving DecidableEq

structure OpenSession where
  id : Nat
  session : Session
  phase : Phase

/-- What a handler comes to: the session goes on, or its reply is sent. -/
inductive Turn where
  | goes (session : Session) (phase : Phase)
  | replies (session : Session) (sent : Bytes)

/-- What is left of a handler that has answered or has set the timer: `sync_dns_record_from_remote` or
`sync_loss_dns_record_from_remote` is to be called, or has made these tasks. -/
inductive Work where
  | sync (host : Bytes)
  | syncLoss (host : Bytes) (record : DnsRecord)
  | submitting (tasks : List SyncTask)

section Session

variable (config : Config)

/-- A session whose reply is sent. -/
def Turn.ofReply : Except Fault (Session × Bytes) → Except Fault Turn
  | .ok (session, sent) => .ok (.replies session sent)
  | .error f => .error f

/-- `process_session` up to where it waits or looks something up. -/
def start (s : Session) : Except Fault Turn := do
  let s := { s with record := { s.record with domain := s.request.getHost } }
  let _ ← getQueryTypeValue s.request
  let queryType ← getQueryType s.request
  if queryType = QueryType.a then
    let host := s.request.getHost
    if host = localhost then
      Turn.ofReply (answer config s { s.record with server := stDns, domain := host, expireTime := 2 ^ 64 - 1 })
    else return .goes s (.looking false)
  else if queryType = QueryType.aaaa then Turn.ofReply (complete config { s with processType := .drop })
  else
    let s := { s with processType := .forward }
    match forwardServer config with
    | some _ => return .goes s .forwarding
    | none => Turn.ofReply (complete config s)

/-- The record of a host without addresses is looked for under the host without its last label. -/
def looksLan (host : Bytes) (record : DnsRecord) : Prop :=
  record.ips = [] ∧ (getFIDomain host = lan ∨ getFIDomain host = lanLower)

instance (host : Bytes) (record : DnsRecord) : Decidable (looksLan host record) := inferInstanceAs (Decidable (_ ∧ _))

/-- `query_dns_record` with the record of the cache: before the wait, and after it. -/
def lookedUp (late : Bool) (s : Session) (record : DnsRecord) : Except Fault (Turn × List Work) := do
  let host := s.request.getHost
  if late then
    let turn ← Turn.ofReply (answer config s record)
    return (turn, [])
  else if record.ips = [] then return (.goes s .waiting, [.sync host])
  else
    let turn ← Turn.ofReply (answer config s record)
    if record.expire ∨ ¬record.matchArea then return (turn, [.sync host])
    else return (turn, [.syncLoss host record])

/-- The callback of `forward_udp`. -/
def forwardedTurn (s : Session) : Forwarded → Except Fault Turn
  | .failed => Turn.ofReply (complete config s)
  | .received buffer size =>
    if 0 < size then
      Turn.ofReply <| complete config
        { s with response := some { buffer := buffer, response := { data := 0, len := size } } }
    else .ok (.goes s .lost)

/-- The tasks that a handler makes. -/
def Work.tasks (o : Outside) : Work → Option (List SyncTask)
  | sync host => syncDnsRecordFromRemote o config host
  | syncLoss host record => syncLossDnsRecordFromRemote o config host record
  | submitting _ => none

end Session

/-! ## The calls of the client -/

/-- What comes back for one call of `dns_client`, with the id of its request. -/
inductive CallArrival where
  | udp (qid : Nat) (arrival : UdpArrival)
  | stream (qid : Nat) (arrival : TcpArrival)

/-- What the handler of a call gets, by the type of the server. -/
def CallArrival.ips (type : ServerType) (arrival : CallArrival) : Option (List Nat) :=
  match type, arrival with
  | .udp, udp qid arrival => arrival.ips qid
  | .tcp, stream qid arrival => arrival.ips qid
  | .tcpSsl, stream qid arrival => arrival.ips qid
  | _, _ => none

/-- The address is from a message that answers the call. -/
def CallArrival.Gives (ip : Nat) : CallArrival → Prop
  | udp qid arrival => ∃ datagram, arrival = .received datagram ∧ Answered datagram.buffer datagram.size qid ip
  | stream qid arrival => StreamAnswered [(qid, arrival)] ip

/-- What `multi_area_complete_handler` is called with by the call that completes a job; what is to be added is added. -/
structure Finishing where
  job : Job
  ips : List Nat
  handed : List Nat
  loadAll : Bool
  added : Bool

/-- The `add` that it makes. -/
def Finishing.call (f : Finishing) (now : Nat) : AddCall :=
  { now := now
    domain := f.job.task.input.1
    ips := f.handed.map UInt32.ofNat
    dnsServer := f.job.task.input.2.id
    expire := if f.loadAll then f.job.task.input.2.dnsCacheExpire else f.job.task.input.2.dnsCacheExpire.tdiv 2 }

/-! ## The server -/

/-- A server over which no request can have come in. -/
def noServer : RemoteDnsServer := { ip := [], port := 0, type := .other }

/-- The tasks by their ids. -/
def madeOf (created : List SyncTask) (id : Nat) : PriorityTask (Bytes × RemoteDnsServer) :=
  (created.getD id (syncTask [] noServer 0)).toPriorityTask id

structure ServerState where
  /-- How many requests were accepted; the next has this id. -/
  accepted : Nat := 0
  sessions : List OpenSession := []
  works : List Work := []
  created : List SyncTask := []
  /-- The queue, the tasks that are posted to its thread, those that are with the client, and the records. -/
  sync : SyncState := { sync := { queue := { maxQps := 100, maxRunning := 100 } } }
  finishing : Option Finishing := none
  client : ClientPhase := .idle
  console : ConsolePhase := .idle

/-- The stores and the threads that use them operation by operation. -/
def ServerState.shared (s : ServerState) : Shared :=
  { manager := s.sync.records, client := s.client, console := s.console }

/-- The stores and threads after an operation. -/
def ServerState.withShared (s : ServerState) (shared : Shared) : ServerState :=
  { s with sync := { s.sync with records := shared.manager }, client := shared.client, console := shared.console }

/-- What a step shows. -/
inductive ServerEvent where
  | received (id : Nat) (m : Bytes) (request : UdpRequest)
  | replied (id : Nat) (session : Session) (sent : Bytes)
  /-- `forward_udp` of a session ends. -/
  | forwarded (id : Nat) (forwarded : Forwarded)
  | created (task : SyncTask)
  | executed (task : PriorityTask (Bytes × RemoteDnsServer)) (reads : AreaReads)
  | returned (task : PriorityTask (Bytes × RemoteDnsServer)) (arrival : CallArrival)
  | store (action : StoreAction)
  | completed (task : PriorityTask (Bytes × RemoteDnsServer))

/-- What a turn of the session `id` leaves open. -/
def Turn.left (id : Nat) : Turn → List OpenSession
  | goes session phase => [{ id := id, session := session, phase := phase }]
  | replies _ _ => []

/-- What a turn of the session `id` shows. -/
def Turn.shows (id : Nat) : Turn → List ServerEvent
  | goes _ _ => []
  | replies session sent => [.replied id session sent]

section Steps

variable (P : Protobuf) (o : Outside) (order : List Nat → List Nat) (config : Config)

/-- One step of a thread. -/
inductive ServerStep (s : ServerState) : List ServerEvent → ServerState → Prop
  /-- A datagram is received and accepted. -/
  | received {m : Bytes} {size : Nat} {r : UdpRequest} {turn : Turn} :
    m.length = 1024 → 0 < size → size ≤ 1024 → UdpRequest.parse m size = some r → r.valid = true →
    start config { Session.fresh m with request := r } = .ok turn →
    ServerStep s (.received s.accepted m r :: turn.shows s.accepted)
      { s with accepted := s.accepted + 1, sessions := s.sessions ++ turn.left s.accepted }
  /-- The records of the host are resolved. -/
  | looked {before after : List OpenSession} {x : OpenSession} {late : Bool} {record : DnsRecord} {records : Manager}
    {turn : Turn} {works : List Work} (now : Nat) : s.sessions = before ++ x :: after → x.phase = .looking late →
    resolve P o config now s.sync.records x.session.request.getHost = some (record, records) →
    ¬looksLan x.session.request.getHost record → lookedUp config late x.session record = .ok (turn, works) →
    ServerStep s (turn.shows x.id)
      { s with
        sessions := before ++ turn.left x.id ++ after
        works := s.works ++ works
        sync := { s.sync with records := records } }
  | lookedFirst {before after : List OpenSession} {x : OpenSession} {late : Bool} {record : DnsRecord}
    {records : Manager} (now : Nat) : s.sessions = before ++ x :: after → x.phase = .looking late →
    resolve P o config now s.sync.records x.session.request.getHost = some (record, records) →
    looksLan x.session.request.getHost record →
    ServerStep s []
      { s with
        sessions := before ++ { x with phase := .lookingLan late } :: after
        sync := { s.sync with records := records } }
  /-- And those of the host without its last label. -/
  | lookedLan {before after : List OpenSession} {x : OpenSession} {late : Bool} {record : DnsRecord} {records : Manager}
    {turn : Turn} {works : List Work} (now : Nat) : s.sessions = before ++ x :: after → x.phase = .lookingLan late →
    resolve P o config now s.sync.records (removeFIDomain x.session.request.getHost) = some (record, records) →
    lookedUp config late x.session { record with domain := x.session.request.getHost } = .ok (turn, works) →
    ServerStep s (turn.shows x.id)
      { s with
        sessions := before ++ turn.left x.id ++ after
        works := s.works ++ works
        sync := { s.sync with records := records } }
  /-- The timer of a session expires. -/
  | timer {before after : List OpenSession} {x : OpenSession} : s.sessions = before ++ x :: after →
    x.phase = .waiting →
    ServerStep s [] { s with sessions := before ++ { x with phase := .looking true } :: after }
  /-- What comes of a forwarded request, unless `make_address_v4` threw on the address of the server. -/
  | forwarded {before after : List OpenSession} {x : OpenSession} {turn : Turn} (forwarded : Forwarded) :
    s.sessions = before ++ x :: after → x.phase = .forwarding → (∀ server ∈ forwardServer config, o.Usable server) →
    forwardedTurn config x.session forwarded = .ok turn →
    ServerStep s (.forwarded x.id forwarded :: turn.shows x.id)
      { s with sessions := before ++ turn.left x.id ++ after }
  /-- A handler selects the servers. -/
  | selected {before after : List Work} {work : Work} {tasks : List SyncTask} : s.works = before ++ work :: after →
    work.tasks config o = some tasks →
    ServerStep s [] { s with works := before ++ .submitting tasks :: after }
  /-- A handler submits a task; a task that is refused has been created too. -/
  | submitted {before after : List Work} {task : SyncTask} {tasks : List SyncTask}
    {event : Event (Bytes × RemoteDnsServer)} {queue : TaskQueue.State (Bytes × RemoteDnsServer)} :
    s.works = before ++ .submitting (task :: tasks) :: after →
    event = .accepted s.created.length ∨ event = .refused s.created.length →
    Does (madeOf (s.created ++ [task])) s.sync.sync event queue →
    ServerStep s [.created task]
      { s with
        works := before ++ .submitting tasks :: after
        created := s.created ++ [task]
        sync := { s.sync with sync := queue } }
  | generated {queue : TaskQueue.State (Bytes × RemoteDnsServer)} :
    Does (madeOf s.created) s.sync.sync .generated queue →
    ServerStep s [] { s with sync := { s.sync with sync := queue } }
  | dispatched {task : PriorityTask (Bytes × RemoteDnsServer)} {queue : TaskQueue.State (Bytes × RemoteDnsServer)} :
    Does (madeOf s.created) s.sync.sync (.dispatched task) queue →
    ServerStep s [] { s with sync := { s.sync with sync := queue, posted := s.sync.posted ++ [task] } }
  /-- The executor calls `dns_client`, which reads the areas of the server. -/
  | executed {before after : List (PriorityTask (Bytes × RemoteDnsServer))}
    {task : PriorityTask (Bytes × RemoteDnsServer)} (reads : AreaReads) :
    s.sync.posted = before ++ task :: after →
    ServerStep s [.executed task reads]
      { s with sync := { s.sync with posted := before ++ after, jobs := s.sync.jobs ++ [.ofTask task reads] } }
  /-- A call that does not complete its job calls its handler. -/
  | returned {before after : List Job} {job next : Job} {ips : List Nat} (arrival : CallArrival) :
    s.finishing = none → s.sync.jobs = before ++ job :: after → 0 < job.left →
    arrival.ips job.task.input.2.type = some ips → job.handle order ips = (next, none) →
    ServerStep s [.returned job.task arrival] { s with sync := { s.sync with jobs := before ++ next :: after } }
  /-- One that completes it does; the job is there until it is completed. -/
  | returnedLast {before after : List Job} {job next : Job} {ips handed : List Nat} {loadAll : Bool}
    (arrival : CallArrival) :
    s.finishing = none → s.sync.jobs = before ++ job :: after → 0 < job.left →
    arrival.ips job.task.input.2.type = some ips → job.handle order ips = (next, some (handed, loadAll)) →
    ServerStep s [.returned job.task arrival]
      { s with
        finishing := some { job := job, ips := ips, handed := handed, loadAll := loadAll, added := handed = [] } }
  /-- `add` reads the records of its host. -/
  | get {f : Finishing} {marks : List (Mark Thread Op)} {shared : Shared} (now : Nat) : s.finishing = some f →
    f.added = false → SharedStep P s.shared (.get (f.call now)) marks shared →
    ServerStep s [.store (.get (f.call now))] (s.withShared shared)
  /-- And writes them. -/
  | put {f : Finishing} {call : AddCall} {marks : List (Mark Thread Op)} {shared : Shared} : s.finishing = some f →
    SharedStep P s.shared (.put call) marks shared →
    ServerStep s [.store (.put call)] { s.withShared shared with finishing := some { f with added := true } }
  /-- The other operations on the stores: of an `add` on the reverse records, and of the console. -/
  | stores {action : StoreAction} {marks : List (Mark Thread Op)} {shared : Shared} :
    (∀ call, action ≠ .get call ∧ action ≠ .put call) → SharedStep P s.shared action marks shared →
    ServerStep s [.store action] (s.withShared shared)
  /-- The handler resolves the host and completes the task. -/
  | completed {f : Finishing} {before after : List Job} {record : DnsRecord} {records : Manager}
    {queue : TaskQueue.State (Bytes × RemoteDnsServer)} (now : Nat) : s.finishing = some f → f.added = true →
    s.client = .idle → s.sync.jobs = before ++ f.job :: after →
    resolve P o config now s.sync.records f.job.task.input.1 = some (record, records) →
    Does (madeOf s.created) s.sync.sync (.completed f.job.task) queue →
    ServerStep s [.completed f.job.task]
      { s with
        finishing := none
        sync := { s.sync with
          sync := queue, jobs := before ++ after, stray := s.sync.stray + (f.job.left - 1), records := records } }
  /-- The console looks the records of a name up. -/
  | consulted (now : Nat) (domain : Bytes) :
    ServerStep s [] { s with sync := { s.sync with records := (s.sync.records.getDnsRecordsPb P now domain).2 } }

/-- The runs of a server that has just started. -/
def ServerRun : List ServerEvent → ServerState → Prop := Reach (ServerStep P o order config) {}

end Steps

/-! ## One session alone -/

section Alone

variable {P : Protobuf} {o : Outside} {config : Config} {world : World} {now : Nat} {m : Manager} {host : Bytes}
  {s : Session}

/-- What becomes of a session that has begun, with what its surroundings have. -/
def Turn.ends (config : Config) (world : World) : Turn → Except Fault (Option (Session × Bytes))
  | replies session sent => .ok (some (session, sent))
  | goes session phase =>
    if phase = .forwarding then
      match forwardServer config with
      | some server => do
        match ← forwardedTurn config session (← forwardUdp world server session) with
        | replies session sent => return some (session, sent)
        | goes _ _ => return none
      | none => .ok none
    else some <$> queryDnsRecord config world session

theorem ofReply_bind_ends (e : Except Fault (Session × Bytes)) :
    (Turn.ofReply e).bind (Turn.ends config world) = some <$> e := by
  cases e <;> rfl

/-- **`process_session`** begins with `start`, and goes on with what its surroundings have. -/
theorem processSession_eq_start {zone : DnsQueryZone} {query : DnsQuery} (hz : s.request.queryZone = some zone)
    (hq : zone.querys.head? = some query) :
    processSession config world s = (start config s).bind (Turn.ends config world) := by
  rw [processSession_eq hz hq]
  have hstart : start config s =
      if query.queryType = QueryType.a then
        if s.request.getHost = localhost then
          Turn.ofReply (queryDnsRecord config world
            { s with record := { s.record with domain := s.request.getHost } })
        else .ok (.goes { s with record := { s.record with domain := s.request.getHost } } (.looking false))
      else if query.queryType = QueryType.aaaa then
        Turn.ofReply (complete config
          { s with record := { s.record with domain := s.request.getHost }, processType := .drop })
      else
        match forwardServer config with
        | some _ => .ok (.goes
          { s with record := { s.record with domain := s.request.getHost }, processType := .forward } .forwarding)
        | none => Turn.ofReply (complete config
          { s with record := { s.record with domain := s.request.getHost }, processType := .forward }) := by
    simp only [start, getQueryType_eq hz hq, getQueryTypeValue_eq hz hq, bind, Except.bind]
    by_cases hlocal : s.request.getHost = localhost
    · simp only [hlocal, if_true, queryDnsRecord, queriedRecord]
      rfl
    · simp only [hlocal, if_false]
      rfl
  rw [hstart]
  split
  · split
    · rw [ofReply_bind_ends]
    · rfl
  split
  · rw [ofReply_bind_ends]
  · unfold forwardDnsRequest
    cases hserver : forwardServer config with
    | none => rw [ofReply_bind_ends]
    | some server =>
      simp only [Except.bind, Turn.ends, if_true, hserver]
      cases forwardUdp world server _ with
      | error f => rfl
      | ok forwarded =>
        cases forwarded with
        | failed =>
          simp only [bind, Except.bind, forwardedTurn]
          cases complete config _ <;> rfl
        | received buffer size =>
          simp only [bind, Except.bind, forwardedTurn]
          split
          · cases complete config _ <;> rfl
          · rfl

/-- The two lookups, when nothing comes between them. -/
theorem queryRecordFromCache_eq : queryRecordFromCache P o config now m host =
    (resolve P o config now m host).bind fun p =>
      if looksLan host p.1 then
        (resolve P o config now p.2 (removeFIDomain host)).map fun p => ({ p.1 with domain := host }, p.2)
      else some p := by
  unfold queryRecordFromCache looksLan
  cases resolve P o config now m host with
  | none => rfl
  | some p =>
    obtain ⟨record, m⟩ := p
    simp only [Option.bind_eq_bind, Option.bind_some]
    by_cases hips : record.ips = []
    · by_cases hlan : getFIDomain host = lan ∨ getFIDomain host = lanLower
      · simp only [hips, hlan, and_self, if_true]
        cases resolve P o config now m (removeFIDomain host) <;> rfl
      · simp only [hips, hlan, and_false, if_true, if_false]
        rfl
    · simp only [hips, false_and, if_false]
      rfl

/-- **What is submitted** by a run of `query_dns_record` is what the work that is left comes to. -/
theorem tasks_eq_of_lookedUp {record : DnsRecord} {m' : Manager} {turn : Turn} {works : List Work}
    (hhost : s.request.getHost = host) (hne : host ≠ localhost)
    (hrecord : queryRecordFromCache P o config now m host = some (record, m'))
    (h : lookedUp config false s record = .ok (turn, works)) :
    ∃ work, works = [work] ∧ (runQuery P o config now m host).map QueryRun.tasks = work.tasks config o := by
  subst hhost
  rw [runQuery, if_neg hne, hrecord]
  simp only [lookedUp, Bool.false_eq_true, if_false] at h
  by_cases hips : record.ips = []
  · rw [if_pos hips] at h
    cases h
    refine ⟨_, rfl, ?_⟩
    simp only [Option.bind_eq_bind, Option.bind_some, if_pos hips, Work.tasks]
    cases syncDnsRecordFromRemote o config s.request.getHost <;> rfl
  · rw [if_neg hips] at h
    cases hturn : Turn.ofReply (answer config s record) with
    | error f =>
      rw [hturn] at h
      cases h
    | ok turn' =>
      rw [hturn] at h
      by_cases hflags : record.expire = true ∨ ¬record.matchArea = true
      · simp only [bind, Except.bind, if_pos hflags] at h
        cases h
        refine ⟨_, rfl, ?_⟩
        simp only [Option.bind_eq_bind, Option.bind_some, if_neg hips, if_pos hflags, Work.tasks]
        cases syncDnsRecordFromRemote o config s.request.getHost <;> rfl
      · simp only [bind, Except.bind, if_neg hflags] at h
        cases h
        refine ⟨_, rfl, ?_⟩
        simp only [Option.bind_eq_bind, Option.bind_some, if_neg hips, if_neg hflags, Work.tasks]
        cases syncLossDnsRecordFromRemote o config s.request.getHost record <;> rfl

end Alone

end StDns.Server
