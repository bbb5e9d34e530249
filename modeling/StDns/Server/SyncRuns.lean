import StDns.Client.Fetch
import StDns.Server.Apart
import StDns.Task.History

/-!
# From a dispatch to its completion

The executor of the sync queue calls `dns_client` by the type of the server, once for every area, and completes the task
in the handler of the last of these calls. When all calls have called their handler every task that was dispatched is
completed, except those for servers whose type is none of the three, for which no call is made, those for more areas
than the 16 bits of the counter can count, and those of servers whose areas were set anew while the calls were made
(`settled_iff`).
-/

namespace StDns.Server

open Lib Protocol Proto Store Client TaskQueue

/-! ## The source -/

/-- What `tcp_dns` and `tcp_tls_dns` read of the `resolve_optimize_areas` of a server, which `schedule` sets anew on its
own thread: for `areas.empty()`, for `areas.size()`, for the copy in the handlers, and for the calls. -/
structure AreaReads where
  empty : List (Bytes × UInt16)
  size : List (Bytes × UInt16)
  counted : List (Bytes × UInt16)
  called : List (Bytes × UInt16)

/-- The areas are not set anew in between. -/
def AreaReads.same (areas : List (Bytes × UInt16)) : AreaReads := ⟨areas, areas, areas, areas⟩

/-- There are several areas, and handlers that share a counter, a flag and a set. -/
def AreaReads.Collects (reads : AreaReads) : Prop := reads.empty ≠ [] ∧ reads.size.length ≠ 1

instance (reads : AreaReads) : Decidable reads.Collects := inferInstanceAs (Decidable (_ ∧ _))

/-- How many calls for one area are made. -/
def AreaReads.calls (reads : AreaReads) : Nat := if reads.Collects then reads.called.length else 1

/-- A task that the executor has run, with what was read of the areas of its server. -/
structure Job where
  task : PriorityTask (Bytes × RemoteDnsServer)
  reads : AreaReads
  /-- The calls of `dns_client` whose handler has not been called. -/
  left : Nat
  collected : AreaState := {}

/-- The calls that `sync_dns_record_from_remote` makes. -/
def callsOf (type : ServerType) (reads : AreaReads) : Nat :=
  match type with
  | .tcpSsl | .tcp => reads.calls
  | .udp => 1
  | .other => 0

/-- The executor runs a task. -/
def Job.ofTask (task : PriorityTask (Bytes × RemoteDnsServer)) (reads : AreaReads) : Job :=
  { task := task, reads := reads, left := callsOf task.input.2.type reads }

/-- The handler of a call is called: what is handed on for the job, if its time has come. `order` is that of the
unordered set. -/
def Job.handle (order : List Nat → List Nat) (job : Job) (ips : List Nat) : Job × Option (List Nat × Bool) :=
  let collected := job.collected.each ips
  let next := { job with left := job.left - 1, collected := collected }
  if job.reads.Collects then
    match job.task.input.2.type with
    | .tcpSsl =>
      (next, if job.reads.counted.length ≤ collected.counter.toNat then
        some (order collected.result, collected.loadAll) else none)
    | .tcp =>
      (next, if collected.counter.toNat = job.reads.counted.length then
        some (collected.result.mergeSort, collected.loadAll) else none)
    | _ => (next, some (ips, true))
  else (next, some (ips, true))

section Source

variable (P : Protobuf) (o : Outside) (config : Config)

/-- `multi_area_complete_handler` before it calls `complete`; nothing when `resolve` throws. -/
def multiAreaComplete (now : Nat) (m : Manager) (host : Bytes) (server : RemoteDnsServer) (ips : List Nat)
    (loadAll : Bool) : Option Manager := do
  let expire := if loadAll then server.dnsCacheExpire else server.dnsCacheExpire.tdiv 2
  let m := if ips ≠ [] then m.add P now host (ips.map UInt32.ofNat) server.id expire else m
  let (_, m) ← resolve P o config now m host
  return m

/-- The queue, the tasks that are posted to the executor, those it has run and not completed, and the records. -/
structure SyncState where
  sync : State (Bytes × RemoteDnsServer)
  posted : List (PriorityTask (Bytes × RemoteDnsServer)) := []
  jobs : List Job := []
  /-- The calls of completed jobs whose handler has not been called; it would run on deleted variables. -/
  stray : Nat := 0
  records : Manager := {}

inductive SyncEvent where
  | queue (event : Event (Bytes × RemoteDnsServer))
  | executed (task : PriorityTask (Bytes × RemoteDnsServer)) (reads : AreaReads)
  | handled
  | changed

variable (order : List Nat → List Nat) (made : Nat → PriorityTask (Bytes × RemoteDnsServer))

/-- One step: tasks are submitted and keys generated; a task is dispatched, and run by the executor; a call of
`dns_client` calls its handler, which may complete its task; the records are changed elsewhere. A handler that runs on
deleted variables is undefined, and no step. -/
inductive SyncDoes : SyncState → SyncEvent → SyncState → Prop
  | accepted (s : SyncState) {id : Nat} {sync : State (Bytes × RemoteDnsServer)} :
    Does made s.sync (.accepted id) sync → SyncDoes s (.queue (.accepted id)) { s with sync := sync }
  | refused (s : SyncState) {id : Nat} {sync : State (Bytes × RemoteDnsServer)} :
    Does made s.sync (.refused id) sync → SyncDoes s (.queue (.refused id)) { s with sync := sync }
  | generated (s : SyncState) {sync : State (Bytes × RemoteDnsServer)} :
    Does made s.sync .generated sync → SyncDoes s (.queue .generated) { s with sync := sync }
  | dispatched (s : SyncState) {task : PriorityTask (Bytes × RemoteDnsServer)}
    {sync : State (Bytes × RemoteDnsServer)} : Does made s.sync (.dispatched task) sync →
    SyncDoes s (.queue (.dispatched task)) { s with sync := sync, posted := s.posted ++ [task] }
  | executed (s : SyncState) {before after : List (PriorityTask (Bytes × RemoteDnsServer))}
    {task : PriorityTask (Bytes × RemoteDnsServer)} (reads : AreaReads) :
    s.posted = before ++ task :: after →
    SyncDoes s (.executed task reads) { s with posted := before ++ after, jobs := s.jobs ++ [.ofTask task reads] }
  | handled (s : SyncState) {before after : List Job} {job next : Job} (ips : List Nat) :
    s.jobs = before ++ job :: after → 0 < job.left → job.handle order ips = (next, none) →
    SyncDoes s .handled { s with jobs := before ++ next :: after }
  | completed (s : SyncState) {before after : List Job} {job next : Job} {sync : State (Bytes × RemoteDnsServer)}
    {records : Manager} (ips : List Nat) {handed : List Nat} {loadAll : Bool} (now : Nat) :
    s.jobs = before ++ job :: after → 0 < job.left → job.handle order ips = (next, some (handed, loadAll)) →
    multiAreaComplete P o config now s.records job.task.input.1 job.task.input.2 handed loadAll = some records →
    Does made s.sync (.completed job.task) sync →
    SyncDoes s (.queue (.completed job.task))
      { s with sync := sync, jobs := before ++ after, stray := s.stray + (job.left - 1), records := records }
  | changed (s : SyncState) (records : Manager) : SyncDoes s .changed { s with records := records }

/-- The runs of the sync queue of a new server. -/
inductive SyncRun : List SyncEvent → SyncState → Prop
  | start : SyncRun [] { sync := { queue := { maxQps := 100, maxRunning := 100 } } }
  | next {log : List SyncEvent} {s s' : SyncState} {event : SyncEvent} : SyncRun log s →
    SyncDoes P o config order made s event s' → SyncRun (log ++ [event]) s'

end Source

/-! ## Settled -/

/-- No operation is outstanding: nothing is posted, and every call has called its handler. -/
def SyncState.Idle (s : SyncState) : Prop := s.posted = [] ∧ s.stray = 0 ∧ ∀ job ∈ s.jobs, job.left = 0

/-- The tasks that were dispatched. -/
def dispatchedTasks (log : List SyncEvent) : List (PriorityTask (Bytes × RemoteDnsServer)) :=
  log.filterMap fun
    | .queue (.dispatched task) => some task
    | _ => none

/-- The tasks that were completed. -/
def completedTasks (log : List SyncEvent) : List (PriorityTask (Bytes × RemoteDnsServer)) :=
  log.filterMap fun
    | .queue (.completed task) => some task
    | _ => none

theorem dispatchedTasks_append (log : List SyncEvent) (event : SyncEvent) :
    dispatchedTasks (log ++ [event]) = dispatchedTasks log ++ dispatchedTasks [event] := List.filterMap_append

theorem completedTasks_append (log : List SyncEvent) (event : SyncEvent) :
    completedTasks (log ++ [event]) = completedTasks log ++ completedTasks [event] := List.filterMap_append

/-- Every task that was dispatched has been completed as often, none is running, and every key that is taken is that of
a task that waits. -/
structure Settled (made : Nat → PriorityTask (Bytes × RemoteDnsServer)) (log : List SyncEvent) (s : SyncState) :
    Prop where
  completed : (completedTasks log).Perm (dispatchedTasks log)
  running : s.sync.queue.running = 0
  keys : ∀ pk ∈ s.sync.queue.taskPks, ∃ id ∈ s.sync.waiting, (made id).pk = pk

/-- The type of the server is one of the three, and when there are several areas the areas that were copied can be
counted in 16 bits and as many calls were made; where none was copied, the first handler is full for `tcp_tls_dns`, and
the 65536-th for `tcp_dns`. -/
def Completable (server : RemoteDnsServer) (reads : AreaReads) : Prop :=
  match server.type with
  | .udp => True
  | .tcpSsl => reads.Collects → reads.counted.length < 65536 ∧ reads.called.length = max 1 reads.counted.length
  | .tcp => reads.Collects → reads.counted.length < 65536 ∧
    reads.called.length = if reads.counted = [] then 65536 else reads.counted.length
  | .other => False

/-! ## One job -/

/-- The handler of the `n`-th call finds that its job is complete. -/
def Reaches (type : ServerType) (reads : AreaReads) (n : Nat) : Prop :=
  match type with
  | .tcpSsl => reads.Collects → reads.counted.length ≤ n % 65536
  | .tcp => reads.Collects → n % 65536 = reads.counted.length
  | _ => True

theorem reaches_mod {type : ServerType} {reads : AreaReads} (n : Nat) :
    Reaches type reads (n % 65536) ↔ Reaches type reads n := by
  cases type <;> simp only [Reaches, Nat.mod_mod]

/-- A job can be completed iff the handler of its last call is the first to find it complete. -/
theorem completable_iff {server : RemoteDnsServer} {reads : AreaReads} : Completable server reads ↔
    0 < callsOf server.type reads ∧ Reaches server.type reads (callsOf server.type reads) ∧
      ∀ n, 0 < n → n < callsOf server.type reads → ¬Reaches server.type reads n := by
  unfold Completable Reaches callsOf AreaReads.calls
  cases server.type with
  | udp =>
    exact iff_of_true trivial
      ⟨Nat.one_pos, trivial, fun n hpos hlt => absurd (Nat.lt_one_iff.1 hlt) (Nat.ne_of_gt hpos)⟩
  | other => exact iff_of_false not_false fun h => absurd h.1 (Nat.lt_irrefl 0)
  | tcpSsl =>
    by_cases hcollects : reads.Collects
    · simp only [hcollects, true_imp_iff, if_true]
      constructor
      · rintro ⟨hlt, hcalled⟩
        rw [hcalled]
        exact ⟨by omega, by omega, fun n hpos hn => by omega⟩
      · rintro ⟨hpos, hfull, hbefore⟩
        have hfirst := hbefore (max 1 reads.counted.length) (by omega)
        omega
    · simp only [hcollects, false_imp_iff, if_false, true_iff]
      exact ⟨Nat.one_pos, trivial, fun n hpos hlt => absurd (Nat.lt_one_iff.1 hlt) (Nat.ne_of_gt hpos)⟩
  | tcp =>
    by_cases hcollects : reads.Collects
    · simp only [hcollects, true_imp_iff, if_true, ← List.length_eq_zero_iff]
      constructor
      · rintro ⟨hlt, hcalled⟩
        rw [hcalled]
        exact ⟨by split <;> omega, by split <;> omega, fun n hpos hn => by split at hn <;> omega⟩
      · rintro ⟨hpos, hfull, hbefore⟩
        have hfirst := hbefore (if reads.counted.length = 0 then 65536 else reads.counted.length) (by split <;> omega)
        refine ⟨by omega, ?_⟩
        by_cases hnone : reads.counted.length = 0
        · rw [if_pos hnone] at hfirst ⊢
          omega
        · rw [if_neg hnone] at hfirst ⊢
          omega
    · simp only [hcollects, false_imp_iff, if_false, true_iff]
      exact ⟨Nat.one_pos, trivial, fun n hpos hlt => absurd (Nat.lt_one_iff.1 hlt) (Nat.ne_of_gt hpos)⟩

/-- What holds of a job that is not completed: the counter has the calls that are done, and none of these found it
complete. -/
structure Job.Open (job : Job) : Prop where
  most : job.left ≤ callsOf job.task.input.2.type job.reads
  counter : job.collected.counter = UInt16.ofNat (callsOf job.task.input.2.type job.reads - job.left)
  before : ∀ n, 0 < n → n ≤ callsOf job.task.input.2.type job.reads - job.left →
    ¬Reaches job.task.input.2.type job.reads n

theorem open_ofTask (task : PriorityTask (Bytes × RemoteDnsServer)) (reads : AreaReads) :
    (Job.ofTask task reads).Open := by
  refine ⟨Nat.le_refl _, ?_, fun n hpos hle => ?_⟩
  · rw [Job.ofTask, Nat.sub_self]
    rfl
  · rw [Job.ofTask, Nat.sub_self] at hle
    exact absurd hpos (Nat.not_lt_of_le hle)

/-- A job that can be completed has a call whose handler was not called. -/
theorem Job.Open.left_pos {job : Job} (h : job.Open) (hends : Completable job.task.input.2 job.reads) :
    0 < job.left := by
  obtain ⟨hpos, hreaches, -⟩ := completable_iff.1 hends
  by_contra hzero
  exact h.before _ hpos (by omega) hreaches

section Handle

variable {order : List Nat → List Nat} {job next : Job} {ips handed : List Nat} {loadAll : Bool}

/-- A handler takes its call off. -/
theorem handle_fst (order : List Nat → List Nat) (job : Job) (ips : List Nat) : (job.handle order ips).1 =
    { job with left := job.left - 1, collected := job.collected.each ips } := by
  unfold Job.handle
  simp only
  split
  · split <;> rfl
  · rfl

/-- A handler hands on when it finds the job complete. -/
theorem handle_isSome_iff (order : List Nat → List Nat) (job : Job) (ips : List Nat) :
    (job.handle order ips).2.isSome = true ↔
      Reaches job.task.input.2.type job.reads (job.collected.each ips).counter.toNat := by
  have hmod := Nat.mod_eq_of_lt (job.collected.each ips).counter.toNat_lt
  unfold Job.handle Reaches
  by_cases hcollects : job.reads.Collects
  · simp only [if_pos hcollects]
    cases job.task.input.2.type <;> simp [hcollects, hmod]
  · simp only [if_neg hcollects]
    cases job.task.input.2.type <;> simp [hcollects]

theorem Job.Open.counter_each (h : job.Open) (hleft : 0 < job.left) (ips : List Nat) :
    (job.collected.each ips).counter = UInt16.ofNat (callsOf job.task.input.2.type job.reads - (job.left - 1)) := by
  have hmost := h.most
  have hsub : callsOf job.task.input.2.type job.reads - (job.left - 1) =
      callsOf job.task.input.2.type job.reads - job.left + 1 := by omega
  rw [hsub, UInt16.ofNat_add, ← h.counter]
  rfl

/-- The handler of an open job finds it complete by how many calls are done with it. -/
theorem Job.Open.handle_iff (h : job.Open) (hleft : 0 < job.left) (order : List Nat → List Nat) (ips : List Nat) :
    (job.handle order ips).2.isSome = true ↔
      Reaches job.task.input.2.type job.reads (callsOf job.task.input.2.type job.reads - (job.left - 1)) := by
  rw [handle_isSome_iff, h.counter_each hleft ips, UInt16.toNat_ofNat', reaches_mod]

theorem Job.Open.handle_none (h : job.Open) (hleft : 0 < job.left) (hnone : job.handle order ips = (next, none)) :
    next.task = job.task ∧ next.reads = job.reads ∧ next.Open := by
  have hfst := handle_fst order job ips
  rw [hnone] at hfst
  subst hfst
  refine ⟨rfl, rfl, Nat.le_trans (Nat.sub_le _ _) h.most, h.counter_each hleft ips, fun n hpos hle hreaches => ?_⟩
  have hmost := h.most
  by_cases hlast : n = callsOf job.task.input.2.type job.reads - (job.left - 1)
  · subst hlast
    have hsome := (h.handle_iff hleft order ips).2 hreaches
    rw [hnone] at hsome
    cases hsome
  · refine h.before n hpos ?_ hreaches
    change n ≤ callsOf job.task.input.2.type job.reads - (job.left - 1) at hle
    omega

/-- A job is handed on by the handler of its last call, or other handlers follow. -/
theorem Job.Open.handle_some (h : job.Open) (hleft : 0 < job.left)
    (hsome : job.handle order ips = (next, some (handed, loadAll))) :
    Completable job.task.input.2 job.reads ∨ 0 < job.left - 1 := by
  have hreaches := (h.handle_iff hleft order ips).1 (by rw [hsome]; rfl)
  have hmost := h.most
  refine or_iff_not_imp_right.2 fun hone => completable_iff.2 ?_
  have hlast : job.left - 1 = 0 := Nat.eq_zero_of_not_pos hone
  rw [hlast, Nat.sub_zero] at hreaches
  exact ⟨Nat.lt_of_lt_of_le hleft hmost, hreaches, fun n hpos hlt => h.before n hpos (by omega)⟩

end Handle

/-! ## Runs -/

section Runs

variable {P : Protobuf} {o : Outside} {config : Config} {order : List Nat → List Nat}
  {made : Nat → PriorityTask (Bytes × RemoteDnsServer)} {log : List SyncEvent} {s s' : SyncState} {event : SyncEvent}

/-- What a run of the queue has of the events. -/
def queueEvents (log : List SyncEvent) : List (Event (Bytes × RemoteDnsServer)) :=
  log.filterMap fun
    | .queue event => some event
    | _ => none

/-- What a step does to the queue is a step of the queue, or nothing. -/
theorem queue_of_does (h : SyncDoes P o config order made s event s') :
    (∃ e, event = .queue e ∧ Does made s.sync e s'.sync) ∨ (queueEvents [event] = [] ∧ s'.sync = s.sync) := by
  cases h with
  | accepted hdoes => exact .inl ⟨_, rfl, hdoes⟩
  | refused hdoes => exact .inl ⟨_, rfl, hdoes⟩
  | generated hdoes => exact .inl ⟨_, rfl, hdoes⟩
  | dispatched hdoes => exact .inl ⟨_, rfl, hdoes⟩
  | completed ips now hjobs hleft hhandle hrecords hdoes => exact .inl ⟨_, rfl, hdoes⟩
  | executed reads hposted => exact .inr ⟨rfl, rfl⟩
  | handled ips hjobs hleft hhandle => exact .inr ⟨rfl, rfl⟩
  | changed records => exact .inr ⟨rfl, rfl⟩

/-- The queue of a run is in a run of the queue. -/
theorem queue_of_run (h : SyncRun P o config order made log s) :
    ∃ queueLog, Run made 100 100 queueLog s.sync := by
  induction h with
  | start => exact ⟨[], .start⟩
  | next _ hdoes ih =>
    obtain ⟨queueLog, hrun⟩ := ih
    rcases queue_of_does hdoes with ⟨e, -, he⟩ | ⟨-, hsame⟩
    · exact ⟨_, hrun.next he⟩
    · exact ⟨queueLog, by rw [hsame]; exact hrun⟩

/-- What a run keeps: the tasks that are dispatched and not completed are those posted and those of the jobs, and the
executed tasks that cannot be completed keep their jobs or leave calls over. -/
structure Kept (log : List SyncEvent) (s : SyncState) : Prop where
  outstanding : s.sync.outstanding.Perm (s.posted ++ s.jobs.map Job.task)
  dispatched : (dispatchedTasks log).Perm (completedTasks log ++ s.sync.outstanding)
  jobs : ∀ job ∈ s.jobs, job.Open ∧ .executed job.task job.reads ∈ log
  stuck : ∀ task reads, .executed task reads ∈ log → ¬Completable task.input.2 reads →
    0 < s.stray ∨ ∃ job ∈ s.jobs, job.task = task ∧ job.reads = reads

/-- A step that leaves the tasks where they are. -/
theorem Kept.stay (h : Kept log s) (hposted : s'.posted = s.posted) (hjobs : s'.jobs = s.jobs)
    (hstray : s'.stray = s.stray) (hout : s'.sync.outstanding = s.sync.outstanding)
    (hdispatched : dispatchedTasks [event] = []) (hcompleted : completedTasks [event] = [])
    (hexecuted : ∀ task reads, event ≠ .executed task reads) : Kept (log ++ [event]) s' := by
  refine ⟨?_, ?_, fun job hjob => ?_, fun task reads hmem hnot => ?_⟩
  · rw [hposted, hjobs, hout]
    exact h.outstanding
  · rw [dispatchedTasks_append, completedTasks_append, hdispatched, hcompleted, List.append_nil, List.append_nil, hout]
    exact h.dispatched
  · rw [hjobs] at hjob
    exact ⟨(h.jobs job hjob).1, List.mem_append_left _ (h.jobs job hjob).2⟩
  · rw [hjobs, hstray]
    rcases List.mem_append.1 hmem with hmem | hlast
    · exact h.stuck task reads hmem hnot
    · exact absurd (List.mem_singleton.1 hlast).symm (hexecuted task reads)

/-- The executor runs a task. -/
theorem Kept.executed (h : Kept log s) {before after : List (PriorityTask (Bytes × RemoteDnsServer))}
    {task : PriorityTask (Bytes × RemoteDnsServer)} (reads : AreaReads)
    (hposted : s.posted = before ++ task :: after) : Kept (log ++ [.executed task reads])
      { s with posted := before ++ after, jobs := s.jobs ++ [.ofTask task reads] } := by
  refine ⟨?_, ?_, fun job hjob => ?_, fun task' reads' hmem hnot => ?_⟩
  · refine h.outstanding.trans ?_
    rw [hposted, List.map_append]
    simp only [List.append_assoc, List.cons_append]
    refine (List.perm_middle).trans ?_
    rw [← List.append_assoc, ← List.append_assoc, ← List.append_assoc]
    exact (List.perm_append_singleton task _).symm
  · rw [dispatchedTasks_append, completedTasks_append]
    exact (List.append_nil _).symm ▸ (List.append_nil (completedTasks log)).symm ▸ h.dispatched
  · rcases List.mem_append.1 hjob with hjob | hnew
    · exact ⟨(h.jobs job hjob).1, List.mem_append_left _ (h.jobs job hjob).2⟩
    · obtain rfl := List.mem_singleton.1 hnew
      exact ⟨open_ofTask task reads, List.mem_append_right _ (List.mem_singleton_self _)⟩
  · rcases List.mem_append.1 hmem with hmem | hlast
    · rcases h.stuck task' reads' hmem hnot with hstray | ⟨job, hjob, hsame⟩
      · exact .inl hstray
      · exact .inr ⟨job, List.mem_append_left _ hjob, hsame⟩
    · cases List.mem_singleton.1 hlast
      exact .inr ⟨_, List.mem_append_right _ (List.mem_singleton_self _), rfl, rfl⟩

/-- The other jobs when one is taken out. -/
theorem Kept.others (h : Kept log s) {before after : List Job} {job : Job} (hjobs : s.jobs = before ++ job :: after) :
    ∀ other ∈ before ++ after, other.Open ∧ .executed other.task other.reads ∈ log := by
  intro other hother
  refine h.jobs other ?_
  rw [hjobs]
  exact List.perm_middle.mem_iff.2 (List.mem_cons_of_mem _ hother)

/-- A handler is called that is not the last. -/
theorem Kept.handled (h : Kept log s) {before after : List Job} {job next : Job} {ips : List Nat}
    (hjobs : s.jobs = before ++ job :: after) (hleft : 0 < job.left) (hhandle : job.handle order ips = (next, none)) :
    Kept (log ++ [.handled]) { s with jobs := before ++ next :: after } := by
  have hjob : job ∈ s.jobs := by
    rw [hjobs]
    exact List.mem_append_right _ List.mem_cons_self
  obtain ⟨hopen, hexecuted⟩ := h.jobs job hjob
  obtain ⟨htask, hreads, hnext⟩ := hopen.handle_none hleft hhandle
  refine ⟨?_, ?_, fun other hother => ?_, fun task reads hmem hnot => ?_⟩
  · have hout := h.outstanding
    rw [hjobs, List.map_append, List.map_cons, ← htask, ← List.map_cons, ← List.map_append] at hout
    exact hout
  · rw [dispatchedTasks_append, completedTasks_append]
    exact (List.append_nil _).symm ▸ (List.append_nil (completedTasks log)).symm ▸ h.dispatched
  · rcases List.mem_cons.1 (List.perm_middle.mem_iff.1 hother) with rfl | hother
    · rw [htask, hreads]
      exact ⟨hnext, List.mem_append_left _ hexecuted⟩
    · obtain ⟨hother, hmem⟩ := h.others hjobs other hother
      exact ⟨hother, List.mem_append_left _ hmem⟩
  · rcases List.mem_append.1 hmem with hmem | hlast
    · rcases h.stuck task reads hmem hnot with hstray | ⟨other, hother, hsame⟩
      · exact .inl hstray
      rw [hjobs] at hother
      rcases List.mem_cons.1 (List.perm_middle.mem_iff.1 hother) with rfl | hother
      · exact .inr ⟨next, List.mem_append_right _ List.mem_cons_self, htask.trans hsame.1, hreads.trans hsame.2⟩
      · exact .inr ⟨other, List.perm_middle.mem_iff.2 (List.mem_cons_of_mem _ hother), hsame⟩
    · cases List.mem_singleton.1 hlast

/-- A handler that finds its task complete completes it. -/
theorem Kept.completed (h : Kept log s) {before after : List Job} {job next : Job}
    {sync : State (Bytes × RemoteDnsServer)} {records : Manager} {ips handed : List Nat} {loadAll : Bool}
    (hjobs : s.jobs = before ++ job :: after) (hleft : 0 < job.left)
    (hhandle : job.handle order ips = (next, some (handed, loadAll)))
    (hdoes : Does made s.sync (.completed job.task) sync) : Kept (log ++ [.queue (.completed job.task)])
      { s with sync := sync, jobs := before ++ after, stray := s.stray + (job.left - 1), records := records } := by
  have hjob : job ∈ s.jobs := by
    rw [hjobs]
    exact List.mem_append_right _ List.mem_cons_self
  have hends := (h.jobs job hjob).1.handle_some hleft hhandle
  have hout : s.sync.outstanding.Perm (job.task :: sync.outstanding) := by
    cases hdoes with
    | completed hout =>
      rw [hout]
      exact List.perm_middle
  refine ⟨?_, ?_, fun other hother => ?_, fun task reads hmem hnot => ?_⟩
  · have hall := h.outstanding
    rw [hjobs, List.map_append, List.map_cons, ← List.append_assoc] at hall
    have hperm := (hout.symm.trans hall).trans List.perm_middle
    rw [List.append_assoc, ← List.map_append] at hperm
    exact List.Perm.cons_inv hperm
  · rw [dispatchedTasks_append, completedTasks_append]
    show (dispatchedTasks log ++ []).Perm ((completedTasks log ++ [job.task]) ++ sync.outstanding)
    rw [List.append_nil, List.append_assoc]
    exact h.dispatched.trans (hout.append_left _)
  · obtain ⟨hother, hmem⟩ := h.others hjobs other hother
    exact ⟨hother, List.mem_append_left _ hmem⟩
  · rcases List.mem_append.1 hmem with hmem | hlast
    · rcases h.stuck task reads hmem hnot with hstray | ⟨other, hother, htask, hreads⟩
      · exact .inl (Nat.add_pos_left hstray _)
      rw [hjobs] at hother
      rcases List.mem_cons.1 (List.perm_middle.mem_iff.1 hother) with rfl | hother
      · rw [htask, hreads] at hends
        exact .inl (Nat.add_pos_right _ (hends.resolve_left hnot))
      · exact .inr ⟨other, hother, htask, hreads⟩
    · cases List.mem_singleton.1 hlast

/-- A task is dispatched. -/
theorem Kept.dispatched_next (h : Kept log s) {task : PriorityTask (Bytes × RemoteDnsServer)}
    {sync : State (Bytes × RemoteDnsServer)} (hdoes : Does made s.sync (.dispatched task) sync) :
    Kept (log ++ [.queue (.dispatched task)]) { s with sync := sync, posted := s.posted ++ [task] } := by
  have hout : sync.outstanding = s.sync.outstanding ++ [task] := by
    cases hdoes
    rfl
  refine ⟨?_, ?_, fun job hjob => ?_, fun task reads hmem hnot => ?_⟩
  · rw [hout, List.append_assoc]
    refine (h.outstanding.append_right _).trans ?_
    rw [List.append_assoc]
    exact List.perm_append_comm.append_left _
  · rw [dispatchedTasks_append, completedTasks_append, hout]
    show (dispatchedTasks log ++ [task]).Perm ((completedTasks log ++ []) ++ (s.sync.outstanding ++ [task]))
    rw [List.append_nil, ← List.append_assoc]
    exact h.dispatched.append_right _
  · exact ⟨(h.jobs job hjob).1, List.mem_append_left _ (h.jobs job hjob).2⟩
  · rcases List.mem_append.1 hmem with hmem | hlast
    · exact h.stuck task reads hmem hnot
    · cases List.mem_singleton.1 hlast

/-- One step. -/
theorem Kept.next (h : Kept log s) (hdoes : SyncDoes P o config order made s event s') :
    Kept (log ++ [event]) s' := by
  cases hdoes with
  | accepted hdoes =>
    cases hdoes
    exact h.stay rfl rfl rfl rfl rfl rfl nofun
  | refused hdoes =>
    cases hdoes
    exact h.stay rfl rfl rfl rfl rfl rfl nofun
  | generated hdoes =>
    cases hdoes
    exact h.stay rfl rfl rfl rfl rfl rfl nofun
  | changed records => exact h.stay rfl rfl rfl rfl rfl rfl nofun
  | executed reads hposted => exact h.executed reads hposted
  | handled ips hjobs hleft hhandle => exact h.handled hjobs hleft hhandle
  | completed ips now hjobs hleft hhandle hrecords hdoes => exact h.completed hjobs hleft hhandle hdoes
  | dispatched hdoes => exact h.dispatched_next hdoes

theorem kept_of_run (h : SyncRun P o config order made log s) : Kept log s := by
  induction h with
  | start =>
    refine ⟨.nil, .nil, fun job hjob => ?_, fun task reads hmem => ?_⟩
    · exact absurd hjob List.not_mem_nil
    · exact absurd hmem List.not_mem_nil
  | next _ hdoes ih => exact ih.next hdoes

/-- All tasks have keys. -/
theorem SyncTasks.pk_ne (h : SyncTasks o.regexMatch config made) (id : Nat) : (made id).pk ≠ [] := by
  obtain ⟨host, server, priority, -, hid⟩ := h id
  rw [hid]
  exact List.append_ne_nil_of_right_ne_nil _ (List.cons_ne_nil _ _)

/-- For a selected server the handler does not throw: the servers are selected again as they were. -/
theorem multiAreaComplete_isSome {host : Bytes} {server : RemoteDnsServer}
    (h : Selected o.regexMatch config host server) (now : Nat) (m : Manager) (ips : List Nat) (loadAll : Bool) :
    (multiAreaComplete P o config now m host server ips loadAll).isSome = true := by
  obtain ⟨selected, hselect, -⟩ := h
  have htransform : ∀ records : Records, records.domain = host →
      ∃ record, transform o config now records = some record := fun records hdomain =>
    ⟨_, by rw [transform, hdomain, hselect]; rfl⟩
  have hresolve : ∀ m : Manager, ∃ result, resolve P o config now m host = some result := by
    intro m
    obtain ⟨record, hrecord⟩ := htransform (m.getDnsRecordsPb P now host).1 rfl
    exact ⟨_, by rw [resolve]; simp only [hrecord]; rfl⟩
  unfold multiAreaComplete
  obtain ⟨result, hresult⟩ := hresolve (if ips ≠ [] then
    m.add P now host (ips.map UInt32.ofNat) server.id (if loadAll then server.dnsCacheExpire
      else server.dnsCacheExpire.tdiv 2) else m)
  simp only [hresult]
  rfl

/-- A task of a job was made for a server that is selected. -/
theorem selected_of_job (hmade : SyncTasks o.regexMatch config made) (h : SyncRun P o config order made log s)
    {job : Job} (hjob : job ∈ s.jobs) : Selected o.regexMatch config job.task.input.1 job.task.input.2 := by
  obtain ⟨queueLog, hrun⟩ := queue_of_run h
  have hk := keyed_of_reachable hmade.id (reachable_iff_run.2 ⟨_, hrun⟩)
  have hout : job.task ∈ s.sync.outstanding :=
    (kept_of_run h).outstanding.mem_iff.2 (List.mem_append_right _ (List.mem_map_of_mem hjob))
  obtain ⟨host, server, priority, hselected, hid⟩ := hmade job.task.id
  rw [(hk.outstanding _ hout).input, hid]
  exact hselected

/-- Nothing is outstanding and no job is there: all is settled, and the other way round. -/
theorem settled_iff_jobs (hmade : SyncTasks o.regexMatch config made) (h : SyncRun P o config order made log s)
    (hidle : s.Idle) : Settled made log s ↔ s.jobs = [] := by
  obtain ⟨queueLog, hrun⟩ := queue_of_run h
  have hk := kept_of_run h
  have hb := (balanced_of_run hmade.id hmade.pk_ne hrun).1
  have hout := hk.outstanding
  rw [hidle.1, List.nil_append] at hout
  constructor
  · intro hsettled
    have hlen := hout.length_eq
    rw [← hb.running, hsettled.running, List.length_map] at hlen
    exact List.length_eq_zero_iff.1 hlen.symm
  · intro hjobs
    rw [hjobs] at hout
    have hnil := hout.eq_nil
    refine ⟨?_, ?_, fun pk hpk => ?_⟩
    · have hperm := hk.dispatched
      rw [hnil, List.append_nil] at hperm
      exact hperm.symm
    · have hrunning := hb.running
      rw [hnil] at hrunning
      exact UInt32.toNat_inj.1 hrunning
    · obtain ⟨id, hid, hkey⟩ := (hb.keys pk).1 hpk
      have hin := (hb.ids id).1 hid
      rw [State.ids, State.running, hnil, List.map_nil, List.append_nil] at hin
      exact ⟨id, hin, hkey⟩

/-- **From dispatch to completion**: no handler of a call throws, and when nothing is outstanding all is settled iff
every task that was executed was for a server of one of the three types, and its handlers counted as many areas as there
were calls. -/
theorem settled_iff (P : Protobuf) (o : Outside) (order : List Nat → List Nat) : ∀ tree config,
    Config.load tree = some config → ∀ made, SyncTasks o.regexMatch config made → ∀ log s,
    SyncRun P o config order made log s →
    (∀ job ∈ s.jobs, ∀ now m ips loadAll,
      (multiAreaComplete P o config now m job.task.input.1 job.task.input.2 ips loadAll).isSome = true) ∧
    (s.Idle → (Settled made log s ↔
      ∀ task reads, .executed task reads ∈ log → Completable task.input.2 reads)) := by
  intro tree config _ made hmade log s h
  have hk := kept_of_run h
  refine ⟨fun job hjob now m ips loadAll => multiAreaComplete_isSome (selected_of_job hmade h hjob) now m ips loadAll,
    fun hidle => ?_⟩
  rw [settled_iff_jobs hmade h hidle]
  constructor
  · intro hjobs task reads hexecuted
    by_contra hnot
    rcases hk.stuck task reads hexecuted hnot with hstray | ⟨job, hjob, -⟩
    · exact absurd hidle.2.1 (Nat.ne_of_gt hstray)
    · rw [hjobs] at hjob
      cases hjob
  · intro hall
    refine List.eq_nil_iff_forall_not_mem.2 fun job hjob => ?_
    obtain ⟨hopen, hexecuted⟩ := hk.jobs job hjob
    have hleft := hopen.left_pos (hall _ _ hexecuted)
    rw [hidle.2.2 job hjob] at hleft
    exact absurd hleft (Nat.lt_irrefl 0)

end Runs

/-! ## A server of another type -/

/-- A server whose type is `DOT`. -/
def dotTree : ConfigTree := { servers := some [{ ip := some oneIp, type := some [68, 79, 84] }] }

def dotServer : RemoteDnsServer := { ip := oneIp, port := 53, type := .other }

def dotConfig : Config := { servers := [dotServer], dnsCacheExpire := 600 }

/-- Tasks to ask it for the host `a`. -/
def dotTask (id : Nat) : PriorityTask (Bytes × RemoteDnsServer) :=
  (syncTask [97] dotServer maxPriority).toPriorityTask id

/-- The first of them waits, and there are keys. -/
def dotWaiting : State (Bytes × RemoteDnsServer) :=
  { queue := (({ maxQps := 100, maxRunning := 100 } : Queue _).submit (dotTask 0)).2.generateKey }

/-- It has been run by the executor. -/
def dotExecuted : SyncState :=
  { sync := (dotWaiting.queue.dispatch (0, 100)).elim dotWaiting fun dispatched =>
      { queue := dispatched.2, outstanding := [dispatched.1] }
    jobs := [.ofTask { dotTask 0 with status := .running } (.same [])] }

theorem run_dotExecuted (P : Protobuf) (o : Outside) (order : List Nat → List Nat) : ∃ log,
    SyncRun P o dotConfig order dotTask log dotExecuted := by
  have accepted : Does dotTask { queue := { maxQps := 100, maxRunning := 100 } } (.accepted 0) _ :=
    .accepted { queue := { maxQps := 100, maxRunning := 100 } } rfl
  have dispatched : Does dotTask dotWaiting (.dispatched { dotTask 0 with status := .running }) dotExecuted.sync :=
    .dispatched dotWaiting ⟨by decide +kernel, by decide, by decide⟩
      (show dotWaiting.queue.IsTop (0, 100) from ⟨by decide, by decide⟩) rfl
  have executed : SyncDoes P o dotConfig order dotTask
      { dotExecuted with posted := [{ dotTask 0 with status := .running }], jobs := [] }
      (.executed { dotTask 0 with status := .running } (.same [])) dotExecuted :=
    .executed _ (.same []) (show _ = [] ++ _ :: [] from rfl)
  have started : SyncRun P o dotConfig order dotTask [] _ := .start
  have generated := (started.next (.accepted _ accepted)).next (.generated _ (.generated _))
  exact ⟨_, (generated.next (.dispatched _ dispatched)).next executed⟩

theorem dotTasks (o : Outside) : SyncTasks o.regexMatch dotConfig dotTask :=
  fun _ => ⟨[97], dotServer, maxPriority, ⟨[dotServer], rfl, List.mem_singleton_self _⟩, rfl⟩

theorem dotExecuted_idle : dotExecuted.Idle :=
  ⟨rfl, rfl, fun job hjob => by rw [List.mem_singleton.1 hjob]; rfl⟩

theorem settled_iff_at : ∃ log, Settled dotTask log dotExecuted ↔
    ∀ task reads, .executed task reads ∈ log → Completable task.input.2 reads := by
  obtain ⟨log, h⟩ := run_dotExecuted wire (plainOutside fun _ _ => true) id
  exact ⟨log, (settled_iff wire _ id dotTree dotConfig rfl dotTask (dotTasks _) log _ h).2 dotExecuted_idle⟩

/-- The executor makes no call for the server, and nothing completes its task. -/
theorem dot_not_settled : ¬∀ (P : Protobuf) (o : Outside) (order : List Nat → List Nat) (tree : ConfigTree)
    (config : Config), Config.load tree = some config → ∀ made, SyncTasks o.regexMatch config made → ∀ log s,
    SyncRun P o config order made log s → s.Idle → Settled made log s := by
  intro h
  obtain ⟨log, hrun⟩ := run_dotExecuted wire (plainOutside fun _ _ => true) id
  have hsettled := h wire _ id dotTree dotConfig rfl dotTask (dotTasks _) log _ hrun dotExecuted_idle
  exact absurd hsettled.running (by decide)

end StDns.Server
