import StDns.Server.SystemSessions

/-!
# What the server asks its upstreams

The queue, the executor and the client of the whole server are in a run of the sync queue (`sync_of_run`), whatever the
other threads do. So an upstream is asked for a host only when a client has asked for it and the server was selected for
it, no host is being asked for twice under one id of a server, and no more than 100 tasks are under way
(`asked_of_run`).
-/

namespace StDns.Server

open Lib Protocol Proto Store Client TaskQueue Linear

/-! ## The tasks by their ids -/

section MadeOf

variable {created later : List SyncTask} {task : SyncTask} {id : Nat}

theorem madeOf_id (created : List SyncTask) (id : Nat) : (madeOf created id).id = id := rfl

/-- The id of a task that was created last. -/
theorem madeOf_last (h : created ++ [task] <+: later) :
    madeOf later created.length = madeOf (created ++ [task]) created.length := by
  obtain ⟨rest, rfl⟩ := h
  simp only [madeOf, List.getD_eq_getElem?_getD]
  rw [List.getElem?_append_left (by simp)]

end MadeOf

/-! ## The sync queue of the server -/

/-- The last call of the job has been handled as it is noted. -/
def Finishing.Handled (order : List Nat → List Nat) (f : Finishing) : Prop :=
  0 < f.job.left ∧ ∃ next, f.job.handle order f.ips = (next, some (f.handed, f.loadAll))

section Sync

variable {P : Protobuf} {o : Outside} {order : List Nat → List Nat} {config : Config} {events shown : List ServerEvent}
  {s s' : ServerState}

/-- Tasks are created one by one. -/
theorem created_of_step (h : ServerStep P o order config s shown s') : s.created <+: s'.created := by
  cases h with
  | submitted => exact List.prefix_append _ _
  | _ => exact List.prefix_rfl

theorem handled_of_step (h : ServerStep P o order config s shown s')
    (hf : ∀ f, s.finishing = some f → f.Handled order) : ∀ f, s'.finishing = some f → f.Handled order := by
  intro f hf'
  cases h with
  | returnedLast arrival _ _ hleft _ hhandle =>
    cases hf'
    exact ⟨hleft, _, hhandle⟩
  | put hfinishing =>
    cases hf'
    exact ⟨(hf _ hfinishing).1, (hf _ hfinishing).2⟩
  | completed => cases hf'
  | _ => exact hf f hf'

/-- The handler of a job completes, whatever the records are, when its host can be resolved. -/
theorem multiAreaComplete_of_resolve {now : Nat} {m : Manager} {host : Bytes} {p : DnsRecord × Manager}
    (h : resolve P o config now m host = some p) (m' : Manager) (server : RemoteDnsServer) (ips : List Nat)
    (loadAll : Bool) : ∃ records, multiAreaComplete P o config now m' host server ips loadAll = some records := by
  obtain ⟨record, hrecord, -⟩ := Option.bind_eq_some_iff.1 h
  obtain ⟨selected, hselect, -⟩ := Option.bind_eq_some_iff.1 hrecord
  have hresolve : ∀ m : Manager, ∃ p, resolve P o config now m host = some p := by
    intro m
    obtain ⟨record, hrecord⟩ : ∃ record, transform o config now (m.getDnsRecordsPb P now host).1 = some record :=
      ⟨_, Option.bind_eq_some_iff.2 ⟨selected, hselect, rfl⟩⟩
    exact ⟨_, resolve_eq_some.2 ⟨hrecord, rfl⟩⟩
  unfold multiAreaComplete
  obtain ⟨p, hp⟩ := hresolve (if ips ≠ [] then
    m'.add P now host (ips.map UInt32.ofNat) server.id (if loadAll then server.dnsCacheExpire
      else server.dnsCacheExpire.tdiv 2) else m')
  exact ⟨p.2, by simp only [hp]; rfl⟩

/-- **A step** of the server is a few steps of the sync queue. -/
theorem sync_of_step (h : ServerStep P o order config s shown s')
    (hf : ∀ f, s.finishing = some f → f.Handled order) {later : List SyncTask} (hlater : s'.created <+: later)
    {log : List SyncEvent} (hrun : SyncRun P o config order (madeOf later) log s.sync) :
    ∃ log', SyncRun P o config order (madeOf later) log' s'.sync := by
  have hsubmit : ∀ {id : Nat} {event : Event (Bytes × RemoteDnsServer)}, event = .accepted id ∨ event = .refused id →
      ∀ {queue}, Does (madeOf later) s.sync.sync event queue →
      ∃ log', SyncRun P o config order (madeOf later) log' { s.sync with sync := queue } := by
    rintro id event (rfl | rfl) queue hdoes
    · exact ⟨_, hrun.next (.accepted _ hdoes)⟩
    · exact ⟨_, hrun.next (.refused _ hdoes)⟩
  have hother : ∀ records, ∃ log', SyncRun P o config order (madeOf later) log' { s.sync with records := records } :=
    fun records => ⟨_, hrun.next (.changed _ records)⟩
  cases h with
  | received => exact ⟨log, hrun⟩
  | looked => exact hother _
  | lookedFirst => exact hother _
  | lookedLan => exact hother _
  | timer => exact ⟨log, hrun⟩
  | forwarded => exact ⟨log, hrun⟩
  | selected => exact ⟨log, hrun⟩
  | submitted hworks hevent hdoes =>
    refine hsubmit hevent (hdoes.congr fun id hid => ?_)
    have hlast : id = s.created.length := by
      rcases hevent with rfl | rfl <;> rcases hid with hid | hid <;> cases hid <;> rfl
    rw [hlast, madeOf_last hlater]
  | generated hdoes => exact ⟨_, hrun.next (.generated _ (hdoes.congr (by simp)))⟩
  | dispatched hdoes => exact ⟨_, hrun.next (.dispatched _ (hdoes.congr (by simp)))⟩
  | executed reads hposted => exact ⟨_, hrun.next (.executed _ reads hposted)⟩
  | returned arrival _ hjobs hleft _ hhandle => exact ⟨_, hrun.next (.handled _ _ hjobs hleft hhandle)⟩
  | returnedLast => exact ⟨log, hrun⟩
  | get => exact hother _
  | put => exact hother _
  | stores => exact hother _
  | consulted => exact hother _
  | completed now hfinishing _ _ hjobs hresolve hdoes =>
    obtain ⟨hleft, next, hhandle⟩ := hf _ hfinishing
    obtain ⟨records, hrecords⟩ := multiAreaComplete_of_resolve hresolve s.sync.records _ _ _
    have hdone := hrun.next (.completed _ _ now hjobs hleft hhandle hrecords (hdoes.congr (by simp)))
    exact ⟨_, hdone.next (.changed _ _)⟩

/-- **The sync queue** of the server is in a run of its own, with the tasks under their ids. -/
theorem sync_of_run (h : ServerRun P o order config events s) :
    (∀ f, s.finishing = some f → f.Handled order) ∧ ∀ later, s.created <+: later →
      ∃ log, SyncRun P o config order (madeOf later) log s.sync := by
  refine h.keeps (fun _ s => (∀ f, s.finishing = some f → f.Handled order) ∧ ∀ later, s.created <+: later →
    ∃ log, SyncRun P o config order (madeOf later) log s.sync)
    ⟨fun f hf => (by cases hf), fun later _ => ⟨[], .start⟩⟩ ?_
  intro _ s₁ _ s₂ _ ⟨hf, hsync⟩ hstep
  refine ⟨handled_of_step hstep hf, fun later hlater => ?_⟩
  obtain ⟨log, hrun⟩ := hsync later ((created_of_step hstep).trans hlater)
  exact sync_of_step hstep hf hlater hrun

end Sync

/-! ## What is asked -/

/-- A client has asked for the addresses of the host. -/
def AskedFor (events : List ServerEvent) (host : Bytes) : Prop :=
  ∃ id m r, .received id m r ∈ events ∧ AsksAddresses r ∧ r.getHost = host

/-- A client has asked for the host, and the server is selected for it. -/
def Wanted (o : Outside) (config : Config) (events : List ServerEvent) (input : Bytes × RemoteDnsServer) : Prop :=
  AskedFor events input.1 ∧ Selected o.regexMatch config input.1 input.2

/-- The task has the key of its host and its server. -/
def SyncTask.HasKey (task : SyncTask) : Prop := task.pk = task.host ++ slash :: task.server.id

/-- What is left of a handler is for a host that was asked for. -/
def Work.For (o : Outside) (config : Config) (events : List ServerEvent) : Work → Prop
  | sync host | syncLoss host _ => AskedFor events host
  | submitting tasks => ∀ task ∈ tasks, Wanted o config events (task.host, task.server) ∧ task.HasKey

/-- What a run keeps of its tasks. -/
structure Kept.Wanted (o : Outside) (config : Config) (events : List ServerEvent) (s : ServerState) : Prop where
  works : ∀ work ∈ s.works, work.For o config events
  created : ∀ task ∈ s.created, task.HasKey
  inputs : Inputs (Server.Wanted o config events) s.sync.sync

section Wanted

variable {P : Protobuf} {o : Outside} {order : List Nat → List Nat} {config : Config} {events shown : List ServerEvent}
  {s s' : ServerState} {host : Bytes} {input : Bytes × RemoteDnsServer} {work : Work}

theorem AskedFor.mono (h : AskedFor events host) (shown : List ServerEvent) : AskedFor (events ++ shown) host := by
  obtain ⟨id, m, r, hmem, hr⟩ := h
  exact ⟨id, m, r, List.mem_append_left _ hmem, hr⟩

theorem Wanted.mono (h : Wanted o config events input) (shown : List ServerEvent) :
    Wanted o config (events ++ shown) input := ⟨h.1.mono shown, h.2⟩

theorem Work.For.mono (h : work.For o config events) (shown : List ServerEvent) :
    work.For o config (events ++ shown) := by
  cases work with
  | sync host => exact AskedFor.mono h shown
  | syncLoss host record => exact AskedFor.mono h shown
  | submitting tasks => exact fun task htask => ⟨(h task htask).1.mono shown, (h task htask).2⟩

/-- The tasks that are made for a host are for servers that are selected for it. -/
theorem mem_syncTasks_input {task : SyncTask} : ∀ {servers : List RemoteDnsServer} {priority : UInt32},
    task ∈ syncTasks host servers priority → task.host = host ∧ task.server ∈ servers ∧ task.HasKey
  | server :: servers, priority, h => by
    rcases List.mem_cons.1 h with rfl | h
    · exact ⟨rfl, List.mem_cons_self, rfl⟩
    · obtain ⟨hhost, hserver, hkey⟩ := mem_syncTasks_input h
      exact ⟨hhost, List.mem_cons_of_mem _ hserver, hkey⟩

/-- **Selected servers** only are submitted. -/
theorem Work.For.tasks (h : work.For o config events) {tasks : List SyncTask}
    (htasks : work.tasks config o = some tasks) : (Work.submitting tasks).For o config events := by
  cases work with
  | sync host =>
    obtain ⟨servers, hselect, rfl⟩ := syncDnsRecordFromRemote_eq_some.1 htasks
    intro task htask
    obtain ⟨hhost, hserver, hkey⟩ := mem_syncTasks_input htask
    rw [hhost]
    exact ⟨⟨h, servers, hselect, hserver⟩, hkey⟩
  | syncLoss host record =>
    obtain ⟨servers, hselect, rfl⟩ := syncLossDnsRecordFromRemote_eq_some.1 htasks
    intro task htask
    obtain ⟨hhost, hserver, hkey⟩ := mem_syncTasks_input htask
    rw [hhost]
    exact ⟨⟨h, servers, hselect, (List.mem_filter.1 hserver).1⟩, hkey⟩
  | submitting tasks => cases htasks

/-- The work that a lookup leaves is for the host of the session. -/
theorem for_of_lookedUp {late : Bool} {session : Session} {record : DnsRecord} {turn : Turn} {works : List Work}
    (h : lookedUp config late session record = .ok (turn, works)) (hasked : AskedFor events session.request.getHost) :
    ∀ work ∈ works, work.For o config events := by
  rcases lookedUp_eq_ok h with ⟨-, -, -, rfl⟩ | ⟨-, -, -, -, -, hworks⟩
  · intro work hwork
    rw [List.mem_singleton.1 hwork]
    exact hasked
  · intro work hwork
    rcases hworks work hwork with rfl | rfl <;> exact hasked

/-- A session in a phase of a query has asked. -/
theorem Kept.Sessions.asked (h : Kept.Sessions events s) {x : OpenSession} (hx : x ∈ s.sessions)
    (hphase : x.phase.IsQuery) : AskedFor events x.session.request.getHost :=
  ⟨x.id, _, _, h.received x hx, (h.asks x hx).1 hphase, rfl⟩

/-- One step. -/
theorem Kept.Wanted.next (h : Kept.Wanted o config events s) (hsessions : Kept.Sessions events s)
    (hstep : ServerStep P o order config s shown s') : Kept.Wanted o config (events ++ shown) s' := by
  have hworks : ∀ work ∈ s.works, work.For o config (events ++ shown) :=
    fun work hwork => (h.works work hwork).mono shown
  have hinputs := h.inputs.mono fun _ hinput => Wanted.mono hinput shown
  -- a lookup of a session leaves work for its host
  have hlooked : ∀ {before after : List OpenSession} {x : OpenSession} {late : Bool} {record : DnsRecord} {turn : Turn}
      {works : List Work}, s.sessions = before ++ x :: after → x.phase.IsQuery →
      lookedUp config late x.session record = .ok (turn, works) →
      ∀ work ∈ s.works ++ works, work.For o config (events ++ shown) := by
    intro before after x late record turn works hs hphase hlooked work hwork
    rcases List.mem_append.1 hwork with hwork | hwork
    · exact hworks work hwork
    · have hx : x ∈ s.sessions := by
        rw [hs]
        exact List.mem_append_right _ List.mem_cons_self
      exact for_of_lookedUp hlooked ((hsessions.asked hx hphase).mono shown) work hwork
  -- one work is replaced
  have hreplaced : ∀ {before after : List Work} {work work' : Work}, s.works = before ++ work :: after →
      work'.For o config (events ++ shown) → ∀ w ∈ before ++ work' :: after, w.For o config (events ++ shown) := by
    intro before after work work' hs hnew w hw
    rcases List.mem_cons.1 (List.perm_middle.mem_iff.1 hw) with rfl | hw
    · exact hnew
    · refine hworks w ?_
      rw [hs]
      exact List.perm_middle.mem_iff.2 (List.mem_cons_of_mem _ hw)
  cases hstep with
  | looked now hs hphase _ _ hl => exact ⟨hlooked hs (by rw [hphase]; exact trivial) hl, h.created, hinputs⟩
  | lookedLan now hs hphase _ hl => exact ⟨hlooked hs (by rw [hphase]; exact trivial) hl, h.created, hinputs⟩
  | @selected before after work tasks hs htasks =>
    refine ⟨hreplaced hs ?_, h.created, hinputs⟩
    exact Work.For.tasks (hworks work (by rw [hs]; exact List.mem_append_right _ List.mem_cons_self)) htasks
  | @submitted before after task tasks event queue hs hevent hdoes =>
    have hfor := hworks _ (by rw [hs]; exact List.mem_append_right _ List.mem_cons_self)
    refine ⟨hreplaced hs fun t ht => hfor t (List.mem_cons_of_mem _ ht), fun t ht => ?_,
      hinputs.does hdoes fun id hid => ?_⟩
    · rcases List.mem_append.1 ht with ht | ht
      · exact h.created t ht
      · rw [List.mem_singleton.1 ht]
        exact (hfor task List.mem_cons_self).2
    · have hlast : id = s.created.length := by
        rcases hevent with rfl | rfl <;> cases hid
        rfl
      have hinput : (madeOf (s.created ++ [task]) id).input = (task.host, task.server) := by
        simp [hlast, madeOf, SyncTask.toPriorityTask, List.getD_eq_getElem?_getD]
      rw [hinput]
      exact (hfor task List.mem_cons_self).1
  | generated hdoes => exact ⟨hworks, h.created, hinputs.does hdoes (by simp)⟩
  | dispatched hdoes => exact ⟨hworks, h.created, hinputs.does hdoes (by simp)⟩
  | completed now _ _ _ _ _ hdoes => exact ⟨hworks, h.created, hinputs.does hdoes (by simp)⟩
  | _ => exact ⟨hworks, h.created, hinputs⟩

theorem wanted_of_run (h : ServerRun P o order config events s) : Kept.Wanted o config events s := by
  refine h.keeps (Kept.Wanted o config) ⟨by simp, by simp, ⟨fun id task hid => ?_, by simp⟩⟩
    fun _ _ _ _ hreach hinv hstep => hinv.next (sessions_of_run hreach) hstep
  cases hid

/-- The tasks that are posted or with the client. -/
def ServerState.underWay (s : ServerState) : List (PriorityTask (Bytes × RemoteDnsServer)) :=
  s.sync.posted ++ s.sync.jobs.map Job.task

/-- What is under way has come out of the queue. -/
theorem underWay_perm (h : ServerRun P o order config events s) : s.sync.sync.outstanding.Perm s.underWay := by
  obtain ⟨log, hrun⟩ := (sync_of_run h).2 s.created List.prefix_rfl
  exact (kept_of_run hrun).outstanding

/-- A task is executed, or a call for it comes back, only when its host was asked for and its server is selected. -/
def Reasoned (o : Outside) (config : Config) (before : List ServerEvent) : ServerEvent → Prop
  | .executed task _ | .returned task _ => Wanted o config before task.input
  | _ => True

theorem reasoned_of_step (h : ServerRun P o order config events s) (hstep : ServerStep P o order config s shown s') :
    Justified (fun before => Reasoned o config (events ++ before)) shown := by
  have hwanted := wanted_of_run h
  have hmem : ∀ task ∈ s.underWay, Wanted o config (events ++ []) task.input := by
    intro task htask
    rw [List.append_nil]
    exact hwanted.inputs.outstanding task ((underWay_perm h).mem_iff.2 htask)
  have hjob : ∀ {before after : List Job} {job : Job},
      s.sync.jobs = before ++ job :: after → job.task ∈ s.underWay := by
    intro before after job hjobs
    refine List.mem_append_right _ (List.mem_map_of_mem ?_)
    rw [hjobs]
    exact List.mem_append_right _ List.mem_cons_self
  have hshows : ∀ (turn : Turn) (id : Nat) (before : List ServerEvent),
      Justified (fun before' => Reasoned o config (events ++ (before ++ before'))) (turn.shows id) := by
    intro turn id before
    cases turn with
    | goes => exact justified_nil
    | replies => exact justified_single trivial
  cases hstep with
  | received => exact justified_cons trivial (hshows _ _ [_])
  | looked => exact hshows _ _ []
  | lookedLan => exact hshows _ _ []
  | forwarded => exact justified_cons trivial (hshows _ _ [_])
  | executed reads hposted =>
    refine justified_single (hmem _ (List.mem_append_left _ ?_))
    rw [hposted]
    exact List.mem_append_right _ List.mem_cons_self
  | returned arrival _ hjobs => exact justified_single (hmem _ (hjob hjobs))
  | returnedLast arrival _ hjobs => exact justified_single (hmem _ (hjob hjobs))
  | submitted => exact justified_single trivial
  | get => exact justified_single trivial
  | put => exact justified_single trivial
  | stores => exact justified_single trivial
  | completed => exact justified_single trivial
  | _ => exact justified_nil

/-- The key of a task that was created, by its id. -/
theorem pk_madeOf (h : Kept.Wanted o config events s) (id : Nat) : (madeOf s.created id).pk =
    (madeOf s.created id).input.1 ++ slash :: (madeOf s.created id).input.2.id := by
  simp only [madeOf, SyncTask.toPriorityTask, List.getD_eq_getElem?_getD]
  cases htask : s.created[id]? with
  | none => rfl
  | some task => exact h.created task (List.mem_of_getElem? htask)

/-- Tasks under way that ask for one host under one id are one. -/
theorem nodup_underWay (h : ServerRun P o order config events s) :
    (s.underWay.map fun task => (task.input.1, task.input.2.id)).Nodup ∧ s.underWay.length ≤ 100 := by
  obtain ⟨log, hrun⟩ := (sync_of_run h).2 s.created List.prefix_rfl
  obtain ⟨queueLog, hqueue⟩ := queue_of_run hrun
  have hpk := pk_madeOf (wanted_of_run h)
  have hne : ∀ id, (madeOf s.created id).pk ≠ [] := fun id => by
    rw [hpk id]
    exact List.append_ne_nil_of_right_ne_nil _ (List.cons_ne_nil _ _)
  have hb := (balanced_of_run (madeOf_id s.created) hne hqueue).1
  have hk := keyed_of_reachable (madeOf_id s.created) (reachable_iff_run.2 ⟨_, hqueue⟩)
  have hperm := underWay_perm h
  constructor
  · refine (hperm.map _).nodup_iff.1 ?_
    have hids : (s.sync.sync.outstanding.map PriorityTask.id).Nodup := (List.nodup_append.1 hb.nodup).2.1
    rw [List.Nodup, List.pairwise_map] at hids ⊢
    refine hids.imp_of_mem fun {a b} ha hb' hne' heq => hne' ?_
    have hin : ∀ task ∈ s.sync.sync.outstanding, task.id ∈ s.sync.sync.queue.tasks := fun task htask =>
      (hb.ids _).2 (List.mem_append_right _ (List.mem_map_of_mem htask))
    refine hb.unique _ (hin a ha) _ (hin b hb') ?_
    have hkey : ∀ task ∈ s.sync.sync.outstanding, (madeOf s.created task.id).pk =
        task.input.1 ++ slash :: task.input.2.id := by
      intro task htask
      rw [hpk, (hk.outstanding task htask).input]
    rw [hkey a ha, hkey b hb', (Prod.mk.inj heq).1, (Prod.mk.inj heq).2]
  · rw [← hperm.length_eq, ← hb.running]
    exact hb.bounded

end Wanted

/-- The tasks for the name `a`, one for each upstream. -/
def bothTasks : List SyncTask := syncTasks [97] twoServers.servers maxPriority

def bothWaiting : TaskQueue.State (Bytes × RemoteDnsServer) :=
  { queue := ((({ maxQps := 100, maxRunning := 100 } : Queue _).submit (madeOf bothTasks 0)).2.submit
      (madeOf bothTasks 1)).2.generateKey }

/-- The queue when an entry is dispatched. -/
def afterDispatch (s : TaskQueue.State (Bytes × RemoteDnsServer)) (idScore : Nat × UInt64) :
    TaskQueue.State (Bytes × RemoteDnsServer) :=
  (s.queue.dispatch idScore).elim s fun dispatched =>
    { queue := dispatched.2, outstanding := s.outstanding ++ [dispatched.1] }

/-- A task that is dispatched. -/
def bothRunning (index : Nat) : PriorityTask (Bytes × RemoteDnsServer) :=
  { madeOf bothTasks index with status := .running }

/-- A query for the name `a` has both upstreams asked, and the executor has begun with the first. -/
theorem run_two : ∃ r s, ServerRun wire plain id twoServers
    (.received 0 oneBuffer r :: bothTasks.map ServerEvent.created ++ [.executed (bothRunning 0) (.same [])]) s ∧
      s.underWay.length = 2 := by
  obtain ⟨r, hparse, hv, htype, hhost, -⟩ := oneRequest
  have hhost' : (oneSession r).request.getHost = [97] := hhost
  have hstart : start twoServers { Session.fresh oneBuffer with request := r } =
      .ok (.goes (oneSession r) (.looking false)) := by
    obtain ⟨header, zone, query, hh, hz, -, hq, -⟩ := accepted_parts hparse hv
    rw [getQueryType_eq hz hq, Except.ok.injEq] at htype
    simp only [start, getQueryType_eq hz hq, getQueryTypeValue_eq hz hq, bind, Except.bind, htype, if_true, hhost]
    rw [if_neg (by decide), oneSession, hhost]
    rfl
  have begun : ServerRun wire plain id twoServers [] {} := .refl
  have received := begun.next (.received length_oneBuffer (by decide) (by decide) hparse hv hstart)
  have looked := received.next (.looked 0 (show _ = [] ++ _ :: [] from rfl) rfl (by rw [hhost']; rfl)
    (by rw [hhost']; decide) rfl)
  have selected := looked.next (.selected (show _ = [] ++ _ :: [] from rfl) (by rw [hhost']; rfl))
  have first := selected.next (.submitted (show _ = [] ++ _ :: [] from rfl) (.inl rfl) (.accepted _ rfl))
  have second := first.next (.submitted (show _ = [] ++ _ :: [] from rfl) (.inl rfl) (.accepted _ rfl))
  have generated := second.next (.generated (.generated _))
  have hfirst : Does (madeOf bothTasks) bothWaiting (.dispatched (bothRunning 0))
      (afterDispatch bothWaiting (0, 100)) :=
    .dispatched bothWaiting ⟨by decide +kernel, by decide, by decide⟩
      (show bothWaiting.queue.IsTop (0, 100) from ⟨by decide, by decide⟩) rfl
  have hsecond : Does (madeOf bothTasks) (afterDispatch bothWaiting (0, 100)) (.dispatched (bothRunning 1))
      (afterDispatch (afterDispatch bothWaiting (0, 100)) (1, 99)) :=
    .dispatched (afterDispatch bothWaiting (0, 100)) ⟨by decide +kernel, by decide, by decide⟩
      (show (afterDispatch bothWaiting (0, 100)).queue.IsTop (1, 99) from ⟨by decide, by decide⟩) rfl
  have sentFirst := generated.next (.dispatched hfirst)
  have sentSecond := sentFirst.next (.dispatched hsecond)
  have executed := sentSecond.next (.executed (.same []) (show _ = [] ++ _ :: [_] from rfl))
  exact ⟨r, _, executed, rfl⟩

end StDns.Server
