import StDns.Server.Session
import StDns.Store.RecordManager
import StDns.Store.Transform

/-!
# Answering from the cache and asking again

`query_dns_record` for a type-A query: the record of the host from the cache, and the tasks that are submitted to ask
the upstreams again. When the cache answers, all selected servers are asked when an address is past its expiry or none
is in its area, and otherwise those that have given nothing (`cached_refreshes`).
-/

namespace StDns.Server

open Lib Protocol Proto Store

/-! ## Tasks -/

/-- A task to ask `server` for `host`: the input, priority and key of a `priority_task`. -/
structure SyncTask where
  host : Bytes
  server : RemoteDnsServer
  priority : UInt32
  pk : Bytes
  deriving DecidableEq

def maxPriority : UInt32 := 100

/-- The character `/`. -/
def slash : UInt8 := 47

def syncTask (host : Bytes) (server : RemoteDnsServer) (priority : UInt32) : SyncTask :=
  { host := host, server := server, priority := priority, pk := host ++ slash :: server.id }

/-- Tasks for the servers, one after the other with falling priority. -/
def syncTasks (host : Bytes) : List RemoteDnsServer → UInt32 → List SyncTask
  | [], _ => []
  | server :: servers, priority => syncTask host server priority :: syncTasks host servers (priority - 1)

section Tasks

variable (o : Outside) (config : Config)

/-- The tasks that `sync_dns_record_from_remote` submits; nothing when the selection fails. -/
def syncDnsRecordFromRemote (domain : Bytes) : Option (List SyncTask) := do
  let servers ← selectServers o.regexMatch domain config.servers
  return syncTasks domain servers maxPriority

/-- The tasks that `sync_loss_dns_record_from_remote` submits. -/
def syncLossDnsRecordFromRemote (host : Bytes) (record : DnsRecord) : Option (List SyncTask) := do
  let servers ← selectServers o.regexMatch host config.servers
  return syncTasks host (servers.filter fun server => server.id ∉ record.servers) maxPriority

end Tasks

/-! ## The cache -/

section Cache

variable (P : Protobuf) (o : Outside) (config : Config) (now : Nat)

/-- `dns_record_manager::resolve`. -/
def resolve (m : Manager) (domain : Bytes) : Option (DnsRecord × Manager) := do
  let (records, m) := m.getDnsRecordsPb P now domain
  let record ← transform o config now records
  return (record, m)

/-- The text `lan`. -/
def lanLower : Bytes := [108, 97, 110]

/-- `query_record_from_cache`: the record of the host, or of the host without its last label. -/
def queryRecordFromCache (m : Manager) (host : Bytes) : Option (DnsRecord × Manager) := do
  let (record, m) ← resolve P o config now m host
  if record.ips = [] then
    let fiDomain := getFIDomain host
    if fiDomain = lan ∨ fiDomain = lanLower then
      let (record, m) ← resolve P o config now m (removeFIDomain host)
      return ({ record with domain := host }, m)
    else return (record, m)
  else return (record, m)

/-- Where `query_dns_record` answers from: its `process_type` in the log. -/
inductive AnswerSource where
  | localhost
  | remote
  | cache
  deriving DecidableEq

/-- A run of `query_dns_record`: where it answers from, the record that the cache had, and the tasks submitted. -/
structure QueryRun where
  source : AnswerSource
  record : DnsRecord
  tasks : List SyncTask

/-- `query_dns_record` on the records of `m`, up to its answer and the tasks it submits. -/
def runQuery (m : Manager) (host : Bytes) : Option QueryRun :=
  if host = localhost then some { source := .localhost, record := {}, tasks := [] }
  else do
    let (record, _) ← queryRecordFromCache P o config now m host
    if record.ips = [] then
      let tasks ← syncDnsRecordFromRemote o config host
      return { source := .remote, record := record, tasks := tasks }
    else if record.expire ∨ ¬record.matchArea then
      let tasks ← syncDnsRecordFromRemote o config host
      return { source := .cache, record := record, tasks := tasks }
    else
      let tasks ← syncLossDnsRecordFromRemote o config host record
      return { source := .cache, record := record, tasks := tasks }

end Cache

/-! ## Which servers are asked again -/

/-- The records that a host is answered from are those of the host itself, or of the host without a last label `LAN`. -/
def AnsweredFrom (P : Protobuf) (now : Nat) (m : Manager) (host name : Bytes) (records : Records) : Prop :=
  (name = host ∧ records = (m.getDnsRecordsPb P now host).1) ∨
    (name = removeFIDomain host ∧ (getFIDomain host = lan ∨ getFIDomain host = lanLower) ∧
      records = ((m.getDnsRecordsPb P now host).2.getDnsRecordsPb P now name).1)

/-- A task is submitted to ask the server for the host. -/
def Asks (tasks : List SyncTask) (host : Bytes) (server : RemoteDnsServer) : Prop :=
  ∃ task ∈ tasks, task.host = host ∧ task.server = server

section Refresh

variable {P : Protobuf} {o : Outside} {config : Config} {now : Nat} {m : Manager} {host : Bytes}

/-- A task is submitted for every server of the list. -/
theorem mem_syncTasks {server : RemoteDnsServer} : ∀ {servers : List RemoteDnsServer} (priority : UInt32),
    server ∈ servers → Asks (syncTasks host servers priority) host server
  | s :: servers, priority, h => by
    rcases List.mem_cons.1 h with rfl | h
    · exact ⟨_, List.mem_cons_self, rfl, rfl⟩
    · obtain ⟨task, htask, hhost⟩ := mem_syncTasks (priority - 1) h
      exact ⟨task, List.mem_cons_of_mem _ htask, hhost⟩

theorem resolve_eq_some {name : Bytes} {record : DnsRecord} {m' : Manager} :
    resolve P o config now m name = some (record, m') ↔
      transform o config now (m.getDnsRecordsPb P now name).1 = some record ∧
        m' = (m.getDnsRecordsPb P now name).2 := by
  simp only [resolve, Option.bind_eq_bind, Option.bind_eq_some_iff, Option.pure_def, Option.some.injEq, Prod.mk.injEq]
  constructor
  · rintro ⟨r, hr, rfl, rfl⟩
    exact ⟨hr, rfl⟩
  · rintro ⟨hr, rfl⟩
    exact ⟨record, hr, rfl, rfl⟩

/-- A record with addresses is the one made of the records it is answered from, but for its name. -/
theorem answeredFrom_of_cache {record : DnsRecord} {m' : Manager}
    (h : queryRecordFromCache P o config now m host = some (record, m')) (hips : record.ips ≠ []) :
    ∃ name records made, AnsweredFrom P now m host name records ∧ transform o config now records = some made ∧
      record = { made with domain := record.domain } := by
  obtain ⟨⟨first, m₁⟩, hfirst, h⟩ := Option.bind_eq_some_iff.1 h
  obtain ⟨hmade, rfl⟩ := resolve_eq_some.1 hfirst
  by_cases hempty : first.ips = []
  · simp only [if_pos hempty] at h
    by_cases hlan : getFIDomain host = lan ∨ getFIDomain host = lanLower
    · simp only [if_pos hlan] at h
      obtain ⟨⟨second, m₂⟩, hsecond, h⟩ := Option.bind_eq_some_iff.1 h
      obtain ⟨hmade', rfl⟩ := resolve_eq_some.1 hsecond
      cases h
      exact ⟨_, _, second, .inr ⟨rfl, hlan, rfl⟩, hmade', rfl⟩
    · simp only [if_neg hlan] at h
      cases h
      exact absurd hempty hips
  · simp only [if_neg hempty] at h
    cases h
    exact ⟨host, _, record, .inl ⟨rfl, rfl⟩, hmade, rfl⟩

theorem syncDnsRecordFromRemote_eq_some {tasks : List SyncTask} :
    syncDnsRecordFromRemote o config host = some tasks ↔
      ∃ servers, selectServers o.regexMatch host config.servers = some servers ∧
        syncTasks host servers maxPriority = tasks := by
  simp only [syncDnsRecordFromRemote, Option.bind_eq_bind, Option.bind_eq_some_iff, Option.pure_def, Option.some.injEq]

theorem syncLossDnsRecordFromRemote_eq_some {record : DnsRecord} {tasks : List SyncTask} :
    syncLossDnsRecordFromRemote o config host record = some tasks ↔
      ∃ servers, selectServers o.regexMatch host config.servers = some servers ∧
        syncTasks host (servers.filter fun server => server.id ∉ record.servers) maxPriority = tasks := by
  simp only [syncLossDnsRecordFromRemote, Option.bind_eq_bind, Option.bind_eq_some_iff, Option.pure_def,
    Option.some.injEq]

/-- **Runs**: for `localhost` nothing is submitted; otherwise tasks for the selected servers, all of them or those that
the record of the cache has nothing from. -/
theorem runQuery_cases {run : QueryRun} (h : runQuery P o config now m host = some run) :
    (run.source = .localhost ∧ run.tasks = []) ∨
      ∃ servers m', selectServers o.regexMatch host config.servers = some servers ∧
        queryRecordFromCache P o config now m host = some (run.record, m') ∧
        ((run.source = .remote ∧ run.record.ips = [] ∧ run.tasks = syncTasks host servers maxPriority) ∨
          (run.source = .cache ∧ run.record.ips ≠ [] ∧
            run.tasks = if run.record.expire ∨ ¬run.record.matchArea then syncTasks host servers maxPriority
              else syncTasks host (servers.filter fun server => server.id ∉ run.record.servers) maxPriority)) := by
  unfold runQuery at h
  split at h
  · cases h
    exact .inl ⟨rfl, rfl⟩
  right
  obtain ⟨⟨record, m'⟩, hrecord, h⟩ := Option.bind_eq_some_iff.1 h
  simp only at h
  by_cases hips : record.ips = []
  · rw [if_pos hips] at h
    obtain ⟨tasks, htasks, h⟩ := Option.bind_eq_some_iff.1 h
    obtain ⟨servers, hselect, rfl⟩ := syncDnsRecordFromRemote_eq_some.1 htasks
    cases h
    exact ⟨servers, m', hselect, hrecord, .inl ⟨rfl, hips, rfl⟩⟩
  · rw [if_neg hips] at h
    by_cases hflags : record.expire = true ∨ ¬record.matchArea = true
    · rw [if_pos hflags] at h
      obtain ⟨tasks, htasks, h⟩ := Option.bind_eq_some_iff.1 h
      obtain ⟨servers, hselect, rfl⟩ := syncDnsRecordFromRemote_eq_some.1 htasks
      cases h
      exact ⟨servers, m', hselect, hrecord, .inr ⟨rfl, hips, (if_pos hflags).symm⟩⟩
    · rw [if_neg hflags] at h
      obtain ⟨tasks, htasks, h⟩ := Option.bind_eq_some_iff.1 h
      obtain ⟨servers, hselect, rfl⟩ := syncLossDnsRecordFromRemote_eq_some.1 htasks
      cases h
      exact ⟨servers, m', hselect, hrecord, .inr ⟨rfl, hips, (if_neg hflags).symm⟩⟩

/-- What a run submits when the cache answers. -/
theorem runQuery_cache {run : QueryRun} (h : runQuery P o config now m host = some run) (hcache : run.source = .cache) :
    ∃ servers m', selectServers o.regexMatch host config.servers = some servers ∧
      queryRecordFromCache P o config now m host = some (run.record, m') ∧ run.record.ips ≠ [] ∧
      run.tasks = if run.record.expire ∨ ¬run.record.matchArea then syncTasks host servers maxPriority
        else syncTasks host (servers.filter fun server => server.id ∉ run.record.servers) maxPriority := by
  rcases runQuery_cases h with ⟨hlocal, -⟩ | ⟨servers, m', hselect, hrecord, ⟨hremote, -⟩ | ⟨-, hips, htasks⟩⟩
  · rw [hlocal] at hcache
    cases hcache
  · rw [hremote] at hcache
    cases hcache
  · exact ⟨servers, m', hselect, hrecord, hips, htasks⟩

/-- A session is answered from the record of the run when its surroundings have that in the cache. -/
theorem queriedRecord_of_run {run : QueryRun} (h : runQuery P o config now m host = some run)
    (hcache : run.source = .cache) {world : World} {s : Session} (hhost : s.request.getHost = host)
    (hworld : world.cached host = some run.record) : queriedRecord world s = .ok run.record := by
  obtain ⟨-, -, -, -, hips, -⟩ := runQuery_cache h hcache
  have hne : host ≠ localhost := by
    rintro rfl
    rw [runQuery, if_pos rfl] at h
    cases h
    cases hcache
  simp only [queriedRecord, hhost, if_neg hne, hworld, unlessThrown, bind, Except.bind, if_neg hips]
  rfl

/-- The servers of a host that was resolved can be selected. -/
theorem select_of_cache {p : DnsRecord × Manager} (h : queryRecordFromCache P o config now m host = some p) :
    ∃ servers, selectServers o.regexMatch host config.servers = some servers := by
  obtain ⟨⟨first, m₁⟩, hfirst, -⟩ := Option.bind_eq_some_iff.1 h
  obtain ⟨servers, hservers, -⟩ := Option.bind_eq_some_iff.1 (resolve_eq_some.1 hfirst).1
  exact ⟨servers, hservers⟩

/-- **Exceptions**: a run of `query_dns_record` throws only where a lookup of the cache does. -/
theorem runQuery_isSome_iff : (runQuery P o config now m host).isSome = true ↔
    host = localhost ∨ (queryRecordFromCache P o config now m host).isSome = true := by
  by_cases hlocal : host = localhost
  · simp [runQuery, hlocal]
  rw [runQuery, if_neg hlocal, or_iff_right hlocal]
  cases hcache : queryRecordFromCache P o config now m host with
  | none => exact Iff.rfl
  | some p =>
    obtain ⟨record, m'⟩ := p
    obtain ⟨servers, hservers⟩ := select_of_cache hcache
    refine iff_of_true ?_ rfl
    have hall := syncDnsRecordFromRemote_eq_some.2 ⟨servers, hservers, rfl⟩
    have hloss : syncLossDnsRecordFromRemote o config host record = some _ :=
      syncLossDnsRecordFromRemote_eq_some.2 ⟨servers, hservers, rfl⟩
    simp only [Option.bind_eq_bind, Option.bind_some, hall, hloss]
    split
    · rfl
    · split <;> rfl

end Refresh

/-- **Refreshing**: when the cache answers a query, whatever the addresses of the answer are (any of those that the
record took, but not none), all selected servers are asked when one of them is from an expired entry or none matches its
server's areas, and otherwise all that have given no address for the name. -/
theorem cached_refreshes (P : Protobuf) (o : Outside) (config : Config) (now : Nat) (m : Manager) (host : Bytes)
    (run : QueryRun) (h : runQuery P o config now m host = some run) (hcache : run.source = .cache) :
    ∃ servers name records items, selectServers o.regexMatch host config.servers = some servers ∧
      AnsweredFrom P now m host name records ∧ served o config now records = some items ∧
      run.record.ips.Perm (items.map fun item => item.ip.toNat) ∧ run.record.ips ≠ [] ∧
      ∀ answer, answer ⊆ items → answer ≠ [] →
        (((∃ item ∈ answer, Stale now records.map item) ∨ ∀ item ∈ answer, item.matchArea = false) →
          ∀ server ∈ servers, Asks run.tasks host server) ∧
        (¬((∃ item ∈ answer, Stale now records.map item) ∨ ∀ item ∈ answer, item.matchArea = false) →
          ∀ server ∈ servers, (∀ ip, ¬Gave records.map server ip) → Asks run.tasks host server) := by
  obtain ⟨servers, m', hselect, hrecord, hips, htasks⟩ := runQuery_cache h hcache
  obtain ⟨name, records, made, hfrom, hmade, hrec⟩ := answeredFrom_of_cache hrecord hips
  obtain ⟨items, hserved, hperm, hflags, hgave⟩ := served_of_transform hmade
  refine ⟨servers, name, records, items, hselect, hfrom, hserved, by rw [hrec]; exact hperm, hips, ?_⟩
  intro answer hsub hne
  by_cases hall : run.record.expire = true ∨ ¬run.record.matchArea = true
  · rw [if_pos hall] at htasks
    rw [htasks]
    exact ⟨fun _ server hs => mem_syncTasks _ hs, fun _ server hs _ => mem_syncTasks _ hs⟩
  · -- the record matches and is fresh, and so does every address of the answer
    rw [if_neg hall] at htasks
    rw [not_or, Bool.not_eq_true, not_not] at hall
    obtain ⟨hfresh, hmatch⟩ := hall
    have hitems : ∀ item ∈ answer, item.matchArea = true ∧ ¬Stale now records.map item := by
      intro item hitem
      obtain ⟨hm, hstale⟩ := hflags (by rw [hrec] at hmatch; exact hmatch) item (hsub hitem)
      exact ⟨hm, hstale (by rw [hrec] at hfresh; exact hfresh)⟩
    constructor
    · rintro (⟨item, hitem, hstale⟩ | hnone)
      · exact absurd hstale (hitems item hitem).2
      · obtain ⟨item, hitem⟩ := List.exists_mem_of_ne_nil answer hne
        have hm := (hitems item hitem).1
        rw [hnone item hitem] at hm
        cases hm
    · intro _ server hs hnone
      rw [htasks]
      refine mem_syncTasks _ (List.mem_filter.2 ⟨hs, ?_⟩)
      have hid := hgave server hnone
      rw [hrec]
      simpa using hid

/-- A manager that the upstream of `oneServer` gave an address for the name `a`. -/
def oneManager : Manager := ({} : Manager).add wire 0 [97] [1] oneId 60

theorem cached_refreshes_at : ∃ run servers name records items,
    runQuery wire (plainOutside fun _ _ => true) oneServer 5000 oneManager [97] = some run ∧
      selectServers (plainOutside fun _ _ => true).regexMatch [97] oneServer.servers = some servers ∧
      AnsweredFrom wire 5000 oneManager [97] name records ∧
      served (plainOutside fun _ _ => true) oneServer 5000 records = some items := by
  let p := runQuery wire (plainOutside fun _ _ => true) oneServer 5000 oneManager [97]
  have hp : p.any (fun run => run.source = .cache) = true := by decide +kernel
  obtain ⟨run, hrun, hp⟩ := (Option.any_eq_true _ _).1 hp
  rw [decide_eq_true_eq] at hp
  obtain ⟨servers, name, records, items, hselect, hfrom, hserved, -⟩ := cached_refreshes wire
    (plainOutside fun _ _ => true) oneServer 5000 oneManager [97] run hrun hp
  exact ⟨run, servers, name, records, items, hrun, hselect, hfrom, hserved⟩

end StDns.Server
