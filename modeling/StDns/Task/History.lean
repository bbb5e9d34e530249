import StDns.Task.Queue

/-!
# The history of the task queue

A run of the queue with what each step does. The counter, the map, the heap and the set of keys stay in step in all
runs (`steady_of_run`): a task that a submit takes in waits in `p_queue`, is dispatched once and is there until it is
completed, under a key that no other task has. Which of the waiting tasks is dispatched is up to the heap, which
compares priorities only: it is one that `operator<` puts below no other iff there is no tie (`dispatch_in_order_iff`).
-/

namespace StDns.TaskQueue

open Lib

variable {α : Type}

/-! ## Runs with their events -/

/-- What a step does. -/
inductive Event (α : Type) where
  | accepted (id : Nat)
  | refused (id : Nat)
  | generated
  | dispatched (task : PriorityTask α)
  | completed (task : PriorityTask α)

/-- A step and what it does. -/
inductive Does (made : Nat → PriorityTask α) : State α → Event α → State α → Prop
  | accepted (s : State α) {id : Nat} : (s.queue.submit (made id)).1 = true →
    Does made s (.accepted id) { s with queue := (s.queue.submit (made id)).2 }
  | refused (s : State α) {id : Nat} : (s.queue.submit (made id)).1 = false →
    Does made s (.refused id) { s with queue := (s.queue.submit (made id)).2 }
  | generated (s : State α) : Does made s .generated { s with queue := s.queue.generateKey }
  | dispatched (s : State α) {idScore : Nat × UInt64} {task : PriorityTask α} {queue : Queue α} :
    s.queue.Ready → s.queue.IsTop idScore → s.queue.dispatch idScore = some (task, queue) →
    Does made s (.dispatched task) { queue := queue, outstanding := s.outstanding ++ [task] }
  | completed (s : State α) {before after : List (PriorityTask α)} {task : PriorityTask α} :
    s.outstanding = before ++ task :: after →
    Does made s (.completed task) { queue := s.queue.complete task, outstanding := before ++ after }

/-- A run of a new queue: the states it was in, with what was done there, and the state it is in. -/
inductive Run (made : Nat → PriorityTask α) (speed maxRunning : UInt32) : List (State α × Event α) → State α → Prop
  | start : Run made speed maxRunning [] { queue := { maxQps := speed, maxRunning := maxRunning } }
  | next {log : List (State α × Event α)} {s s' : State α} {event : Event α} :
    Run made speed maxRunning log s → Does made s event s' → Run made speed maxRunning (log ++ [(s, event)]) s'

section Runs

variable {made : Nat → PriorityTask α} {speed maxRunning : UInt32} {log : List (State α × Event α)} {s s' : State α}

/-- The steps are those of the queue. -/
theorem step_iff : Step made s s' ↔ ∃ event, Does made s event s' := by
  constructor
  · intro h
    cases h with
    | submit id =>
      cases hok : (s.queue.submit (made id)).1 with
      | true => exact ⟨_, .accepted s hok⟩
      | false => exact ⟨_, .refused s hok⟩
    | generateKey => exact ⟨_, .generated s⟩
    | dispatch hready htop hd => exact ⟨_, .dispatched s hready htop hd⟩
    | complete hout => exact ⟨_, .completed s hout⟩
  · rintro ⟨event, h⟩
    cases h with
    | accepted hok => exact .submit s _
    | refused hok => exact .submit s _
    | generated => exact .generateKey s
    | dispatched hready htop hd => exact .dispatch s hready htop hd
    | completed hout => exact .complete s hout

/-- What a step does depends on the task that is submitted, and on no other. -/
theorem Does.congr {made' : Nat → PriorityTask α} {event : Event α} (h : Does made s event s')
    (hid : ∀ id, event = .accepted id ∨ event = .refused id → made id = made' id) : Does made' s event s' := by
  cases h with
  | accepted hok =>
    rw [hid _ (.inl rfl)] at hok ⊢
    exact .accepted s hok
  | refused hok =>
    rw [hid _ (.inr rfl)] at hok ⊢
    exact .refused s hok
  | generated => exact .generated s
  | dispatched hready htop hd => exact .dispatched s hready htop hd
  | completed hout => exact .completed s hout

/-- What the tasks of the queue and those of the executor are for. -/
structure Inputs (Q : α → Prop) (s : State α) : Prop where
  tasks : ∀ id task, s.queue.tasks.lookup id = some task → Q task.input
  outstanding : ∀ task ∈ s.outstanding, Q task.input

theorem Inputs.mono {Q Q' : α → Prop} (h : Inputs Q s) (hQ : ∀ a, Q a → Q' a) : Inputs Q' s :=
  ⟨fun id task hid => hQ _ (h.tasks id task hid), fun task htask => hQ _ (h.outstanding task htask)⟩

/-- **Tasks** come in when they are submitted. -/
theorem Inputs.does {Q : α → Prop} {event : Event α} (h : Inputs Q s) (hdoes : Does made s event s')
    (hnew : ∀ id, event = .accepted id → Q (made id).input) : Inputs Q s' := by
  cases hdoes with
  | accepted hok =>
    refine ⟨fun i task hi => ?_, h.outstanding⟩
    rcases submit_cases s.queue (made _) with ⟨heq, -⟩ | ⟨-, htasks, -⟩
    · rw [heq] at hok
      cases hok
    · rw [htasks, lookup_emplace] at hi
      split at hi
      · cases hi
        exact hnew _ rfl
      · exact h.tasks i task hi
  | refused hno =>
    refine ⟨fun i task hi => ?_, h.outstanding⟩
    rcases submit_cases s.queue (made _) with ⟨heq, -⟩ | ⟨hok, -⟩
    · rw [heq] at hi
      exact h.tasks i task hi
    · rw [hok] at hno
      cases hno
  | generated => exact ⟨h.tasks, h.outstanding⟩
  | @dispatched idScore _ _ hready htop hd =>
    obtain ⟨old, hold, hd⟩ := Option.bind_eq_some_iff.1 hd
    cases hd
    refine ⟨fun i task hi => ?_, fun task htask => ?_⟩
    · by_cases hid : i = idScore.1
      · subst hid
        rw [AList.lookup_insert, Option.some.injEq] at hi
        subst hi
        exact h.tasks _ old hold
      · rw [AList.lookup_insert_ne hid] at hi
        exact h.tasks i task hi
    · rcases List.mem_append.1 htask with htask | htask
      · exact h.outstanding task htask
      · obtain rfl := List.mem_singleton.1 htask
        exact h.tasks _ old hold
  | @completed before after done hout =>
    refine ⟨fun i task hi => ?_, fun task htask => h.outstanding task ?_⟩
    · by_cases hid : i = done.id
      · subst hid
        rw [Queue.complete, AList.lookup_erase] at hi
        cases hi
      · rw [Queue.complete, AList.lookup_erase_ne hid] at hi
        exact h.tasks i task hi
    · rw [hout]
      exact List.perm_middle.mem_iff.2 (List.mem_cons_of_mem _ htask)

/-- The states that runs come to are the reachable ones. -/
theorem reachable_iff_run : Reachable made speed maxRunning s ↔ ∃ log, Run made speed maxRunning log s := by
  constructor
  · intro h
    induction h with
    | refl => exact ⟨[], .start⟩
    | tail _ hstep ih =>
      obtain ⟨log, hrun⟩ := ih
      obtain ⟨event, hdoes⟩ := step_iff.1 hstep
      exact ⟨_, hrun.next hdoes⟩
  · rintro ⟨log, h⟩
    induction h with
    | start => exact .refl
    | next _ hdoes ih => exact ih.tail (step_iff.2 ⟨_, hdoes⟩)

end Runs

/-! ## A run of four tasks -/

/-- Tasks of one priority. -/
def equals (id : Nat) : PriorityTask Unit := { input := (), priority := 0, id := id, pk := List.replicate (id + 1) 1 }

/-- The queue with the tasks before `n` waiting. -/
def waitingUpTo : Nat → State Unit
  | 0 => { queue := { maxQps := 100, maxRunning := 100 } }
  | n + 1 => { waitingUpTo n with queue := ((waitingUpTo n).queue.submit (equals n)).2 }

/-- Four tasks wait, and there are keys for them. -/
def fourWaiting : State Unit := { waitingUpTo 4 with queue := (waitingUpTo 4).queue.generateKey }

/-- The state after a dispatch of the entry. -/
def State.dispatch (s : State Unit) (idScore : Nat × UInt64) : State Unit :=
  match s.queue.dispatch idScore with
  | some (task, queue) => { queue := queue, outstanding := s.outstanding ++ [task] }
  | none => s

/-- The first of the four tasks is dispatched, and then the third. -/
def twoRunning : State Unit := (fourWaiting.dispatch (0, 0)).dispatch (2, 0)

theorem run_fourWaiting : ∃ log, Run equals 100 100 log fourWaiting := by
  have h : ∀ n, ((waitingUpTo n).queue.submit (equals n)).1 = true →
      Does equals (waitingUpTo n) (.accepted n) (waitingUpTo (n + 1)) := fun n hok => .accepted (waitingUpTo n) hok
  exact ⟨_, ((((Run.start.next (h 0 rfl)).next (h 1 (by decide))).next (h 2 (by decide))).next (h 3 (by decide))).next
    (.generated (waitingUpTo 4))⟩

/-- No priority is higher than another. -/
theorem run_twoRunning : ∃ log, Run equals 100 100 log twoRunning ∧
    (fourWaiting.dispatch (0, 0), Event.dispatched { equals 2 with status := .running }) ∈ log := by
  obtain ⟨log, h⟩ := run_fourWaiting
  have first : Does equals fourWaiting (.dispatched { equals 0 with status := .running })
      (fourWaiting.dispatch (0, 0)) :=
    .dispatched fourWaiting ⟨by decide +kernel, by decide, by decide⟩
      (show fourWaiting.queue.IsTop (0, 0) from ⟨by decide, by decide⟩) rfl
  have third : Does equals (fourWaiting.dispatch (0, 0)) (.dispatched { equals 2 with status := .running })
      twoRunning :=
    .dispatched _ ⟨by decide +kernel, by decide, by decide⟩
      (show (fourWaiting.dispatch (0, 0)).queue.IsTop (2, 0) from ⟨by decide, by decide⟩) rfl
  exact ⟨_, (h.next first).next third, List.mem_append_right _ (List.mem_singleton_self _)⟩

/-! ## Waiting and running -/

/-- The ids in `p_queue`. -/
def State.waiting (s : State α) : List Nat := s.queue.pQueue.map Prod.fst

/-- The ids of the tasks that the executor has. -/
def State.running (s : State α) : List Nat := s.outstanding.map PriorityTask.id

/-- The ids of the tasks that the queue has. -/
def State.ids (s : State α) : List Nat := s.waiting ++ s.running

/-- Where a task is in its life in the queue. -/
inductive Life where
  | away
  | waiting
  | running
  deriving DecidableEq

/-- What an event makes of the life of the task `id`; nothing when it comes out of order. -/
def Life.after (id : Nat) (life : Life) : Event α → Option Life
  | .accepted i => if i = id then if life = .away then some .waiting else none else some life
  | .dispatched task => if task.id = id then if life = .waiting then some .running else none else some life
  | .completed task => if task.id = id then if life = .running then some .away else none else some life
  | .refused _ | .generated => some life

/-- The life of the task `id` by the events: taken in, dispatched once, completed, and then perhaps taken in again. -/
def lifeOf (id : Nat) (events : List (Event α)) : Option Life := events.foldlM (Life.after id) .away

/-- The life of the task `id` by the containers. -/
def State.life (s : State α) (id : Nat) : Life :=
  if id ∈ s.waiting then .waiting else if id ∈ s.running then .running else .away

/-- The containers and the counter of the queue in step. -/
structure Steady (maxRunning : UInt32) (log : List (State α × Event α)) (s : State α) : Prop where
  /-- `running` counts the tasks that are dispatched and not completed. -/
  running : s.queue.running.toNat = s.outstanding.length
  bounded : s.queue.running ≤ maxRunning
  /-- No id is in `p_queue` and running, none is there twice. -/
  nodup : s.ids.Nodup
  ids : ∀ id, id ∈ s.queue.tasks ↔ id ∈ s.ids
  /-- `tasks.at` does not throw. -/
  found : ∀ idScore ∈ s.queue.pQueue, s.queue.dispatch idScore ≠ none
  /-- A key is taken iff one task there has it. -/
  keys : ∀ pk, pk ∈ s.queue.taskPks ↔ ∃! id, ∃ task, s.queue.tasks.lookup id = some task ∧ task.pk = pk
  unique : ∀ id id' task task', s.queue.tasks.lookup id = some task → s.queue.tasks.lookup id' = some task' →
    task.pk = task'.pk → id = id'
  /-- A task that was taken in is dispatched at most once and is not lost. -/
  lives : ∀ id, lifeOf id (log.map Prod.snd) = some (s.life id)

/-! ## One step -/

/-- What a run keeps, with the keys by the tasks that were made. -/
structure Balanced (made : Nat → PriorityTask α) (maxRunning : UInt32) (s : State α) : Prop where
  running : s.queue.running.toNat = s.outstanding.length
  most : s.queue.maxRunning = maxRunning
  bounded : s.queue.running ≤ maxRunning
  nodup : s.ids.Nodup
  ids : ∀ id, id ∈ s.queue.tasks ↔ id ∈ s.ids
  keys : ∀ pk, pk ∈ s.queue.taskPks ↔ ∃ id ∈ s.queue.tasks, (made id).pk = pk
  unique : ∀ id ∈ s.queue.tasks, ∀ id' ∈ s.queue.tasks, (made id).pk = (made id').pk → id = id'

section Balanced

variable {made : Nat → PriorityTask α} {maxRunning : UInt32} {s s' : State α} {id : Nat}

/-- A submit under a key is taken in when the key is free. -/
theorem submit_accepted {q : Queue α} {task : PriorityTask α} (hpk : task.pk ≠ []) (hok : (q.submit task).1 = true) :
    task.pk ∉ q.taskPks ∧ (q.submit task).2 = { q with
      taskPks := insert task.pk q.taskPks
      tasks := Queue.emplace q.tasks task
      pQueue := q.pQueue ++ [(task.id, task.priority)] } := by
  unfold Queue.submit at hok ⊢
  rw [if_neg hpk] at hok ⊢
  by_cases htaken : task.pk ∈ q.taskPks
  · rw [if_neg (not_not.2 htaken)] at hok
    cases hok
  · rw [if_pos htaken]
    exact ⟨htaken, rfl⟩

theorem submit_refused {q : Queue α} {task : PriorityTask α} (hno : (q.submit task).1 = false) :
    (q.submit task).2 = q := by
  rcases submit_cases q task with ⟨heq, -⟩ | ⟨hok, -⟩
  · rw [heq]
  · rw [hok] at hno
    cases hno

/-- What a dispatch does: the entry leaves the heap, and its task is with the executor. -/
theorem dispatch_eq_some {q queue : Queue α} {idScore : Nat × UInt64} {task : PriorityTask α} :
    q.dispatch idScore = some (task, queue) ↔ ∃ old, q.tasks.lookup idScore.1 = some old ∧
      task = { old with status := .running } ∧ queue = { q with
        tasks := q.tasks.insert idScore.1 task
        pQueue := q.pQueue.erase idScore
        keyCount := q.keyCount - 1
        running := q.running + 1 } := by
  unfold Queue.dispatch
  cases hold : q.tasks.lookup idScore.1 with
  | none => simp
  | some old =>
    simp only [Option.bind_eq_bind, Option.bind_some, Option.pure_def, Option.some.injEq, Prod.mk.injEq]
    constructor
    · rintro ⟨rfl, rfl⟩
      exact ⟨old, rfl, rfl, rfl⟩
    · rintro ⟨old', rfl, rfl, rfl⟩
      exact ⟨rfl, rfl⟩

theorem dispatch_ne_none {q : Queue α} {idScore : Nat × UInt64} :
    q.dispatch idScore ≠ none ↔ idScore.1 ∈ q.tasks := by
  unfold Queue.dispatch
  rw [← AList.lookup_isSome]
  cases q.tasks.lookup idScore.1 <;> simp

/-- Tasks that are there have the keys they were made with. -/
theorem Keyed.pk_of_lookup (h : Keyed made s) {task : PriorityTask α} (hl : s.queue.tasks.lookup id = some task) :
    task.pk = (made id).pk := (h.tasks id task hl).pk

/-- A task that is taken in. -/
theorem accepted_perm (hmade : ∀ id, (made id).id = id) (hpk : (made id).pk ≠ [])
    (hok : (s.queue.submit (made id)).1 = true) :
    ({ s with queue := (s.queue.submit (made id)).2 } : State α).ids.Perm (id :: s.ids) := by
  rw [State.ids, State.waiting, (submit_accepted hpk hok).2, List.map_append, hmade]
  exact (List.perm_append_singleton id s.waiting).append_right s.running

/-- A dispatched task is the one under the id of the entry. -/
theorem dispatched_id (hmade : ∀ id, (made id).id = id) (hk : Keyed made s) {idScore : Nat × UInt64}
    {task : PriorityTask α} {queue : Queue α} (hd : s.queue.dispatch idScore = some (task, queue)) :
    task.id = idScore.1 := by
  obtain ⟨old, hold, rfl, -⟩ := dispatch_eq_some.1 hd
  obtain ⟨status, rfl⟩ := hk.tasks idScore.1 old hold
  exact hmade _

/-- A task that is dispatched. -/
theorem dispatched_perm (hmade : ∀ id, (made id).id = id) (hk : Keyed made s) {idScore : Nat × UInt64}
    {task : PriorityTask α} {queue : Queue α} (htop : s.queue.IsTop idScore)
    (hd : s.queue.dispatch idScore = some (task, queue)) :
    ({ queue := queue, outstanding := s.outstanding ++ [task] } : State α).ids.Perm s.ids := by
  have hid := dispatched_id hmade hk hd
  obtain ⟨-, -, -, rfl⟩ := dispatch_eq_some.1 hd
  have hwaiting : s.waiting.Perm (idScore.1 :: (s.queue.pQueue.erase idScore).map Prod.fst) :=
    (List.perm_cons_erase htop.1).map Prod.fst
  rw [State.ids, State.running, List.map_append, List.map_singleton, hid, ← List.append_assoc]
  refine List.perm_append_comm.trans ?_
  exact (hwaiting.append_right s.running).symm

/-- A task that is completed. -/
theorem completed_perm {before after : List (PriorityTask α)} {task : PriorityTask α} (queue : Queue α)
    (hout : s.outstanding = before ++ task :: after) (hq : queue.pQueue = s.queue.pQueue) :
    s.ids.Perm (task.id :: ({ queue := queue, outstanding := before ++ after } : State α).ids) := by
  have hrunning : s.running.Perm (task.id :: (before ++ after).map PriorityTask.id) := by
    rw [State.running, hout]
    exact List.perm_middle.map PriorityTask.id
  rw [State.ids, State.ids, State.waiting, State.waiting, hq]
  exact (hrunning.append_left s.waiting).trans List.perm_middle

theorem Balanced.accepted (hmade : ∀ id, (made id).id = id) (hpk : (made id).pk ≠ []) (h : Balanced made maxRunning s)
    (hok : (s.queue.submit (made id)).1 = true) :
    Balanced made maxRunning { s with queue := (s.queue.submit (made id)).2 } := by
  obtain ⟨hfree, heq⟩ := submit_accepted hpk hok
  have hperm := accepted_perm hmade hpk hok
  -- a task that is there has its key, so this one is not there
  have hnew : id ∉ s.queue.tasks := fun hin => hfree ((h.keys _).2 ⟨id, hin, rfl⟩)
  have htasks : ∀ i, i ∈ (s.queue.submit (made id)).2.tasks ↔ i = id ∨ i ∈ s.queue.tasks := by
    intro i
    rw [heq, Queue.emplace, if_neg (by rwa [hmade]), AList.mem_insert, hmade]
  refine ⟨?_, ?_, ?_, ?_, fun i => ?_, fun pk => ?_, fun i hi i' hi' hpks => ?_⟩
  · rw [heq]
    exact h.running
  · rw [heq]
    exact h.most
  · rw [heq]
    exact h.bounded
  · rw [hperm.nodup_iff, List.nodup_cons]
    exact ⟨fun hin => hnew ((h.ids id).2 hin), h.nodup⟩
  · rw [hperm.mem_iff, List.mem_cons, htasks, h.ids]
  · rw [heq, Finset.mem_insert, h.keys, ← heq]
    constructor
    · rintro (rfl | ⟨i, hi, rfl⟩)
      · exact ⟨id, (htasks id).2 (.inl rfl), rfl⟩
      · exact ⟨i, (htasks i).2 (.inr hi), rfl⟩
    · rintro ⟨i, hi, rfl⟩
      exact ((htasks i).1 hi).imp (fun e => by rw [e]) fun hin => ⟨i, hin, rfl⟩
  · rcases (htasks i).1 hi with rfl | hin
    · exact ((htasks i').1 hi').elim Eq.symm fun hin' => absurd ((h.keys _).2 ⟨i', hin', hpks.symm⟩) hfree
    · rcases (htasks i').1 hi' with rfl | hin'
      · exact absurd ((h.keys _).2 ⟨i, hin, hpks⟩) hfree
      · exact h.unique i hin i' hin' hpks

theorem Balanced.dispatched (hmade : ∀ id, (made id).id = id) (hk : Keyed made s) (h : Balanced made maxRunning s)
    {idScore : Nat × UInt64} {task : PriorityTask α} {queue : Queue α} (hready : s.queue.Ready)
    (htop : s.queue.IsTop idScore) (hd : s.queue.dispatch idScore = some (task, queue)) :
    Balanced made maxRunning { queue := queue, outstanding := s.outstanding ++ [task] } := by
  have hperm := dispatched_perm hmade hk htop hd
  obtain ⟨old, hold, -, rfl⟩ := dispatch_eq_some.1 hd
  have htasks : ∀ i, i ∈ s.queue.tasks.insert idScore.1 task ↔ i ∈ s.queue.tasks := by
    intro i
    rw [AList.mem_insert, or_iff_right_of_imp]
    rintro rfl
    exact AList.lookup_isSome.1 (by rw [hold]; rfl)
  have hlt : s.queue.running.toNat < maxRunning.toNat := by
    rw [← h.most]
    exact UInt32.lt_iff_toNat_lt.1 hready.2.2
  have hmax := maxRunning.toNat_lt
  have hsucc : (s.queue.running + 1).toNat = s.queue.running.toNat + 1 := by
    rw [UInt32.toNat_add]
    exact Nat.mod_eq_of_lt (by simp; omega)
  refine ⟨?_, h.most, ?_, hperm.nodup_iff.2 h.nodup, fun i => ?_, fun pk => ?_, fun i hi i' hi' hpks => ?_⟩
  · rw [List.length_append, List.length_singleton, ← h.running]
    exact hsucc
  · rw [UInt32.le_iff_toNat_le]
    exact hsucc.trans_le hlt
  · rw [hperm.mem_iff, ← h.ids]
    exact htasks i
  · rw [h.keys]
    exact exists_congr fun i => and_congr_left' (htasks i).symm
  · exact h.unique i ((htasks i).1 hi) i' ((htasks i').1 hi') hpks

theorem Balanced.completed (hk : Keyed made s) (h : Balanced made maxRunning s) {before after : List (PriorityTask α)}
    {task : PriorityTask α} (hout : s.outstanding = before ++ task :: after) :
    Balanced made maxRunning { queue := s.queue.complete task, outstanding := before ++ after } := by
  have hperm := completed_perm (s.queue.complete task) hout rfl
  have hpk : task.pk = (made task.id).pk := (hk.outstanding task (by rw [hout]; simp)).pk
  have hnodup := hperm.nodup_iff.1 h.nodup
  have htasks : ∀ i, i ∈ s.queue.tasks.erase task.id ↔ i ≠ task.id ∧ i ∈ s.queue.tasks := fun i => AList.mem_erase
  have hthere : task.id ∈ s.queue.tasks := (h.ids _).2 (hperm.mem_iff.2 List.mem_cons_self)
  have hlen : s.queue.running.toNat = (before ++ after).length + 1 := by
    rw [h.running, hout, List.length_append, List.length_cons, List.length_append]
    omega
  have hpred : (s.queue.running - 1).toNat = s.queue.running.toNat - 1 := by
    rw [UInt32.toNat_sub_of_le _ _ (UInt32.le_iff_toNat_le.2 (by rw [hlen]; simp))]
    rfl
  refine ⟨?_, h.most, ?_, (List.nodup_cons.1 hnodup).2, fun i => ?_, fun pk => ?_, fun i hi i' hi' hpks => ?_⟩
  · rw [Queue.complete, hpred, hlen, Nat.add_sub_cancel]
  · have hle := UInt32.le_iff_toNat_le.1 h.bounded
    rw [UInt32.le_iff_toNat_le, Queue.complete, hpred]
    omega
  · rw [Queue.complete, htasks, h.ids, hperm.mem_iff, List.mem_cons]
    constructor
    · rintro ⟨hne, hin⟩
      exact hin.resolve_left hne
    · intro hin
      exact ⟨fun e => (List.nodup_cons.1 hnodup).1 (e ▸ hin), .inr hin⟩
  · rw [Queue.complete, Finset.mem_erase, h.keys, hpk]
    constructor
    · rintro ⟨hne, i, hi, rfl⟩
      exact ⟨i, (htasks i).2 ⟨fun e => hne (by rw [e]), hi⟩, rfl⟩
    · rintro ⟨i, hi, rfl⟩
      obtain ⟨hne, hi⟩ := (htasks i).1 hi
      exact ⟨fun e => hne (h.unique i hi task.id hthere e), i, hi, rfl⟩
  · exact h.unique i ((htasks i).1 hi).2 i' ((htasks i').1 hi').2 hpks

/-- One step. -/
theorem Balanced.does (hmade : ∀ id, (made id).id = id) (hpk : ∀ id, (made id).pk ≠ []) (hk : Keyed made s)
    (h : Balanced made maxRunning s) {event : Event α} (hdoes : Does made s event s') :
    Balanced made maxRunning s' := by
  cases hdoes with
  | accepted hok => exact h.accepted hmade (hpk _) hok
  | refused hno =>
    rw [submit_refused hno]
    exact h
  | generated => exact ⟨h.running, h.most, h.bounded, h.nodup, h.ids, h.keys, h.unique⟩
  | dispatched hready htop hd => exact h.dispatched hmade hk hready htop hd
  | completed hout => exact h.completed hk hout

theorem life_waiting (hin : id ∈ s.waiting) : s.life id = .waiting := if_pos hin

theorem life_running (hnot : id ∉ s.waiting) (hin : id ∈ s.running) : s.life id = .running := by
  rw [State.life, if_neg hnot, if_pos hin]

theorem life_away (hnot : id ∉ s.ids) : s.life id = .away := by
  rw [State.ids, List.mem_append, not_or] at hnot
  rw [State.life, if_neg hnot.1, if_neg hnot.2]

/-- A task whose places stay lives on as it was. -/
theorem life_congr (hwaiting : id ∈ s'.waiting ↔ id ∈ s.waiting) (hrunning : id ∈ s'.running ↔ id ∈ s.running) :
    s'.life id = s.life id := by
  unfold State.life
  simp only [hwaiting, hrunning]

theorem life_accepted (hmade : ∀ id, (made id).id = id) (h : Balanced made maxRunning s) {i : Nat}
    (hpk : (made i).pk ≠ []) (hok : (s.queue.submit (made i)).1 = true) :
    (s.life id).after id (.accepted i : Event α) =
      some (({ s with queue := (s.queue.submit (made i)).2 } : State α).life id) := by
  obtain ⟨hfree, heq⟩ := submit_accepted hpk hok
  have hnew : i ∉ s.ids := fun hin => hfree ((h.keys _).2 ⟨i, (h.ids i).2 hin, rfl⟩)
  have hwaiting : ({ s with queue := (s.queue.submit (made i)).2 } : State α).waiting = s.waiting ++ [i] := by
    rw [State.waiting, heq, List.map_append, List.map_singleton, hmade]
    rfl
  by_cases hid : i = id
  · subst hid
    have hin : i ∈ ({ s with queue := (s.queue.submit (made i)).2 } : State α).waiting := by
      rw [hwaiting]
      exact List.mem_append_right _ (List.mem_singleton_self i)
    rw [life_away hnew, Life.after, if_pos rfl, if_pos rfl, life_waiting hin]
  · rw [Life.after, if_neg hid]
    refine congrArg some (life_congr ?_ ?_).symm
    · rw [hwaiting, List.mem_append, List.mem_singleton, or_iff_left (Ne.symm hid)]
    · exact Iff.rfl

theorem life_dispatched (hmade : ∀ id, (made id).id = id) (hk : Keyed made s) (h : Balanced made maxRunning s)
    {idScore : Nat × UInt64} {task : PriorityTask α} {queue : Queue α} (htop : s.queue.IsTop idScore)
    (hd : s.queue.dispatch idScore = some (task, queue)) :
    (s.life id).after id (.dispatched task) =
      some (({ queue := queue, outstanding := s.outstanding ++ [task] } : State α).life id) := by
  have htid := dispatched_id hmade hk hd
  have hnodup := (dispatched_perm hmade hk htop hd).nodup_iff.2 h.nodup
  obtain ⟨-, -, -, rfl⟩ := dispatch_eq_some.1 hd
  have hwaiting : s.waiting.Perm (task.id :: (s.queue.pQueue.erase idScore).map Prod.fst) := by
    rw [htid]
    exact (List.perm_cons_erase htop.1).map Prod.fst
  have hrunning : ∀ i, i ∈ (s.outstanding ++ [task]).map PriorityTask.id ↔ i ∈ s.running ∨ i = task.id := by
    intro i
    rw [List.map_append, List.mem_append, List.map_singleton, List.mem_singleton, State.running]
  by_cases hid : task.id = id
  · subst hid
    have hout : task.id ∉ (s.queue.pQueue.erase idScore).map Prod.fst := fun hin =>
      (List.nodup_append.1 hnodup).2.2 _ hin _ ((hrunning _).2 (.inr rfl)) rfl
    rw [life_waiting (hwaiting.mem_iff.2 List.mem_cons_self), Life.after, if_pos rfl, if_pos rfl]
    exact congrArg some (life_running hout ((hrunning _).2 (.inr rfl))).symm
  · rw [Life.after, if_neg hid]
    refine congrArg some (life_congr ?_ ?_).symm
    · rw [hwaiting.mem_iff, List.mem_cons, or_iff_right (Ne.symm hid)]
      rfl
    · exact (hrunning id).trans (or_iff_left (Ne.symm hid))

theorem life_completed (h : Balanced made maxRunning s) {before after : List (PriorityTask α)} {task : PriorityTask α}
    (hout : s.outstanding = before ++ task :: after) :
    (s.life id).after id (.completed task) =
      some (({ queue := s.queue.complete task, outstanding := before ++ after } : State α).life id) := by
  have hrunning : s.running.Perm (task.id :: (before ++ after).map PriorityTask.id) := by
    rw [State.running, hout]
    exact List.perm_middle.map PriorityTask.id
  have hthere : task.id ∈ s.running := hrunning.mem_iff.2 List.mem_cons_self
  by_cases hid : task.id = id
  · subst hid
    obtain ⟨-, hnodup, hapart⟩ := List.nodup_append.1 h.nodup
    have hnot : task.id ∉ s.waiting := fun hin => hapart _ hin _ hthere rfl
    have hgone : task.id ∉ (before ++ after).map PriorityTask.id :=
      (List.nodup_cons.1 (hrunning.nodup_iff.1 hnodup)).1
    rw [life_running hnot hthere, Life.after, if_pos rfl, if_pos rfl]
    refine congrArg some (life_away fun hin => ?_).symm
    exact (List.mem_append.1 hin).elim hnot hgone
  · rw [Life.after, if_neg hid]
    refine congrArg some (life_congr ?_ ?_).symm
    · exact Iff.rfl
    · rw [hrunning.mem_iff, List.mem_cons, or_iff_right (Ne.symm hid)]
      rfl

/-- The life of a task by the containers follows the events. -/
theorem life_does (hmade : ∀ id, (made id).id = id) (hpk : ∀ id, (made id).pk ≠ []) (hk : Keyed made s)
    (h : Balanced made maxRunning s) {event : Event α} (hdoes : Does made s event s') (id : Nat) :
    (s.life id).after id event = some (s'.life id) := by
  cases hdoes with
  | accepted hok => exact life_accepted hmade h (hpk _) hok
  | refused hno =>
    rw [submit_refused hno]
    rfl
  | generated => rfl
  | dispatched hready htop hd => exact life_dispatched hmade hk h htop hd
  | completed hout => exact life_completed h hout

end Balanced

/-! ## All runs -/

section Steady

variable {made : Nat → PriorityTask α} {speed maxRunning : UInt32} {log : List (State α × Event α)} {s : State α}

theorem balanced_of_run (hmade : ∀ id, (made id).id = id) (hpk : ∀ id, (made id).pk ≠ [])
    (h : Run made speed maxRunning log s) :
    Balanced made maxRunning s ∧ ∀ id, lifeOf id (log.map Prod.snd) = some (s.life id) := by
  induction h with
  | start =>
    refine ⟨⟨rfl, rfl, UInt32.zero_le, List.nodup_nil, fun id => ?_, fun pk => ?_, fun id hid => ?_⟩, fun id => rfl⟩
    · exact iff_of_false (AList.notMem_empty id) List.not_mem_nil
    · exact iff_of_false (Finset.notMem_empty pk) fun ⟨id, hid, _⟩ => AList.notMem_empty id hid
    · exact absurd hid (AList.notMem_empty id)
  | next hrun hdoes ih =>
    have hk := keyed_of_reachable hmade (reachable_iff_run.2 ⟨_, hrun⟩)
    refine ⟨ih.1.does hmade hpk hk hdoes, fun id => ?_⟩
    rw [List.map_append, lifeOf, List.foldlM_append, ← lifeOf, ih.2 id]
    exact (Option.bind_some _ _).trans ((bind_pure _).trans (life_does hmade hpk hk ih.1 hdoes id))

/-- **All runs** of tasks with keys keep the containers and the counter in step. -/
theorem steady_of_run (hmade : ∀ id, (made id).id = id) (hpk : ∀ id, (made id).pk ≠ [])
    (h : Run made speed maxRunning log s) : Steady maxRunning log s := by
  obtain ⟨hb, hlives⟩ := balanced_of_run hmade hpk h
  have hk := keyed_of_reachable hmade (reachable_iff_run.2 ⟨_, h⟩)
  have hin : ∀ {id task}, s.queue.tasks.lookup id = some task → id ∈ s.queue.tasks := fun hl =>
    AList.lookup_isSome.1 (by rw [hl]; rfl)
  have hunique : ∀ id id' task task', s.queue.tasks.lookup id = some task → s.queue.tasks.lookup id' = some task' →
      task.pk = task'.pk → id = id' := by
    intro id id' task task' hl hl' hpks
    rw [hk.pk_of_lookup hl, hk.pk_of_lookup hl'] at hpks
    exact hb.unique id (hin hl) id' (hin hl') hpks
  refine ⟨hb.running, hb.bounded, hb.nodup, hb.ids, fun idScore hmem => ?_, fun pk => ?_, hunique, hlives⟩
  · exact dispatch_ne_none.2 ((hb.ids _).2 (List.mem_append_left _ (List.mem_map_of_mem hmem)))
  · rw [hb.keys]
    constructor
    · rintro ⟨id, hid, rfl⟩
      obtain ⟨task, htask⟩ := Option.isSome_iff_exists.1 (AList.lookup_isSome.2 hid)
      refine ⟨id, ⟨task, htask, hk.pk_of_lookup htask⟩, ?_⟩
      rintro id' ⟨task', htask', hpks⟩
      exact hunique id' id task' task htask' htask (hpks.trans (hk.pk_of_lookup htask).symm)
    · rintro ⟨id, ⟨task, htask, rfl⟩, -⟩
      exact ⟨id, hin htask, (hk.pk_of_lookup htask).symm⟩

end Steady

theorem steady_of_run_at : ∃ log, Steady 100 log twoRunning := by
  obtain ⟨log, h, -⟩ := run_twoRunning
  exact ⟨log, steady_of_run (fun id => rfl) (fun id => List.cons_ne_nil _ _) h⟩

/-! ## Which task is dispatched -/

/-- `priority_task::operator<`. -/
def PriorityTask.lt (task rhs : PriorityTask α) : Bool :=
  if task.priority = rhs.priority then rhs.id < task.id else task.priority < rhs.priority

/-- The task is below none of those that wait. -/
def State.InOrder (s : State α) (task : PriorityTask α) : Prop :=
  ∀ idScore ∈ s.queue.pQueue, ∀ other, s.queue.tasks.lookup idScore.1 = some other → task.lt other = false

/-- Of the tasks that wait only one has the highest priority. -/
def State.NoTie (s : State α) : Prop :=
  ∀ a b, s.queue.IsTop a → s.queue.IsTop b → a.1 ∈ s.queue.tasks → b.1 ∈ s.queue.tasks → a = b

section Order

variable {made : Nat → PriorityTask α} {speed maxRunning : UInt32} {log : List (State α × Event α)} {s : State α}

/-- Every entry of the heap has the priority of its task. -/
theorem score_of_run (hmade : ∀ id, (made id).id = id) (h : Run made speed maxRunning log s) :
    ∀ idScore ∈ s.queue.pQueue, idScore.2 = (made idScore.1).priority := by
  induction h with
  | start => exact fun idScore hmem => absurd hmem List.not_mem_nil
  | next hrun hdoes ih =>
    cases hdoes with
    | accepted hok =>
      rename_i s' id
      intro idScore hmem
      have hsub : idScore ∈ s'.queue.pQueue ∨ idScore = ((made id).id, (made id).priority) := by
        unfold Queue.submit at hmem
        split at hmem
        · simpa using hmem
        · split at hmem
          · simpa using hmem
          · exact .inl hmem
      rcases hsub with hold | rfl
      · exact ih idScore hold
      · simp only [hmade]
    | refused hno =>
      rw [submit_refused hno]
      exact ih
    | generated => exact ih
    | dispatched hready htop hd =>
      obtain ⟨-, -, -, rfl⟩ := dispatch_eq_some.1 hd
      exact fun idScore hmem => ih idScore (List.mem_of_mem_erase hmem)
    | completed hout => exact ih

/-- Two entries on top have one score. -/
theorem score_eq_of_isTop {q : Queue α} {a b : Nat × UInt64} (ha : q.IsTop a) (hb : q.IsTop b) : a.2 = b.2 :=
  UInt64.le_antisymm (UInt64.not_lt.1 (hb.2 a ha.1)) (UInt64.not_lt.1 (ha.2 b hb.1))

/-- The task that is dispatched for the entry and one that waits, by the ids and the scores of their entries. -/
theorem lt_eq (hmade : ∀ id, (made id).id = id) (h : Run made speed maxRunning log s) {a b : Nat × UInt64}
    {task other : PriorityTask α} {queue : Queue α} (ha : a ∈ s.queue.pQueue) (hb : b ∈ s.queue.pQueue)
    (hd : s.queue.dispatch a = some (task, queue)) (hother : s.queue.tasks.lookup b.1 = some other) :
    task.lt other = if a.2 = b.2 then decide (b.1 < a.1) else decide (a.2 < b.2) := by
  have hk := keyed_of_reachable hmade (reachable_iff_run.2 ⟨_, h⟩)
  obtain ⟨old, hold, rfl, -⟩ := dispatch_eq_some.1 hd
  obtain ⟨status, rfl⟩ := hk.tasks a.1 old hold
  obtain ⟨status', rfl⟩ := hk.tasks b.1 other hother
  simp only [PriorityTask.lt, hmade, score_of_run hmade h a ha, score_of_run hmade h b hb]

/-- What any of the entries on top would dispatch is in order iff there is no tie. -/
theorem inOrder_iff_noTie (hmade : ∀ id, (made id).id = id) (h : Run made speed maxRunning log s) :
    (∀ idScore task queue, s.queue.IsTop idScore → s.queue.dispatch idScore = some (task, queue) → s.InOrder task) ↔
      s.NoTie := by
  constructor
  · intro horder a b ha hb hina hinb
    have hscore := score_eq_of_isTop ha hb
    have hle : ∀ {a b}, s.queue.IsTop a → s.queue.IsTop b → a.1 ∈ s.queue.tasks → b.1 ∈ s.queue.tasks → a.1 ≤ b.1 := by
      intro a b ha hb hina hinb
      obtain ⟨⟨task, queue⟩, hd⟩ := Option.ne_none_iff_exists'.1 (dispatch_ne_none.2 hina)
      obtain ⟨other, hother⟩ := Option.isSome_iff_exists.1 (AList.lookup_isSome.2 hinb)
      have hlt := horder a task queue ha hd b hb.1 other hother
      rw [lt_eq hmade h ha.1 hb.1 hd hother, if_pos (score_eq_of_isTop ha hb), decide_eq_false_iff_not] at hlt
      exact Nat.le_of_not_lt hlt
    exact Prod.ext (Nat.le_antisymm (hle ha hb hina hinb) (hle hb ha hinb hina)) hscore
  · intro htie a task queue ha hd b hb other hother
    rw [lt_eq hmade h ha.1 hb hd hother]
    by_cases hscore : a.2 = b.2
    · -- an entry with the score of one on top is on top, so it is the same
      have htop : s.queue.IsTop b := ⟨hb, fun c hc => hscore ▸ ha.2 c hc⟩
      have hina : a.1 ∈ s.queue.tasks := dispatch_ne_none.1 (by rw [hd]; exact Option.some_ne_none _)
      have hinb : b.1 ∈ s.queue.tasks := AList.lookup_isSome.1 (by rw [hother]; rfl)
      obtain rfl := htie a b ha htop hina hinb
      rw [if_pos rfl, decide_eq_false_iff_not]
      exact Nat.lt_irrefl _
    · rw [if_neg hscore, decide_eq_false_iff_not]
      exact ha.2 b hb

/-- **The order of dispatches**: in every run in which no dispatch finds a tie, every task that is dispatched is below
none of those that wait; and in every state that a run comes to, all that could be dispatched are iff there is no
tie. -/
theorem dispatch_in_order_iff (hmade : ∀ id, (made id).id = id) (h : Run made speed maxRunning log s) :
    ((∀ s' task, (s', Event.dispatched task) ∈ log → s'.NoTie) →
      ∀ s' task, (s', Event.dispatched task) ∈ log → s'.InOrder task) ∧
    ((∀ idScore task queue, s.queue.IsTop idScore → s.queue.dispatch idScore = some (task, queue) → s.InOrder task) ↔
      s.NoTie) := by
  refine ⟨?_, inOrder_iff_noTie hmade h⟩
  induction h with
  | start => exact fun _ s' task hmem => absurd hmem List.not_mem_nil
  | next hrun hdoes ih =>
    intro htie s' task hmem
    rcases List.mem_append.1 hmem with hmem | hlast
    · exact ih (fun s' task hmem => htie s' task (List.mem_append_left _ hmem)) s' task hmem
    · have hnow := htie s' task (List.mem_append_right _ hlast)
      obtain ⟨rfl, rfl⟩ := Prod.mk.inj (List.mem_singleton.1 hlast)
      cases hdoes with
      | dispatched hready htop hd => exact (inOrder_iff_noTie hmade hrun).2 hnow _ _ _ htop hd

end Order

theorem dispatch_in_order_iff_at : ∃ log : List (State Unit × Event Unit),
    ((∀ s' task, (s', Event.dispatched task) ∈ log → s'.NoTie) →
      ∀ s' task, (s', Event.dispatched task) ∈ log → s'.InOrder task) ∧
    ((∀ idScore task queue, twoRunning.queue.IsTop idScore → twoRunning.queue.dispatch idScore = some (task, queue) →
      twoRunning.InOrder task) ↔ twoRunning.NoTie) := by
  obtain ⟨log, h, -⟩ := run_twoRunning
  exact ⟨log, dispatch_in_order_iff (fun id => rfl) h⟩

/-- The heap may hand out the third of four equal tasks before the second. -/
theorem dispatch_out_of_order : ¬∀ (made : Nat → PriorityTask Unit) (speed maxRunning : UInt32)
    (log : List (State Unit × Event Unit)) (s : State Unit), (∀ id, (made id).id = id) →
    Run made speed maxRunning log s → ∀ s' task, (s', Event.dispatched task) ∈ log → s'.InOrder task := by
  intro horder
  obtain ⟨log, h, hmem⟩ := run_twoRunning
  have hlt := horder equals 100 100 log twoRunning (fun id => rfl) h _ _ hmem (1, 0) (by decide) (equals 1) rfl
  exact absurd hlt (by decide)

end StDns.TaskQueue
