import StDns.Lib.Memory
import Mathlib.Algebra.Order.Ring.Unbundled.Rat
import Mathlib.Data.Finset.Erase
import Mathlib.Data.Finset.Insert
import Mathlib.Data.List.AList
import Mathlib.Logic.Relation

/-!
# The task queue

`st::task::queue` takes in tasks under keys. A task waits in `p_queue` until a tick dispatches it to the executor, and
is there until the executor has it completed. A submit is refused when its key is taken. Any sequence of submits, ticks
and completions makes a run; in all of them a key is taken only by a task that is still there (`key_live`).
-/

namespace StDns.TaskQueue

open Lib

/-! ## The source -/

inductive TaskStatus where
  | pending
  | running
  deriving DecidableEq

/-- `priority_task`; its ids are numbers of a counter that does not come round. -/
structure PriorityTask (α : Type) where
  input : α
  priority : UInt64
  id : Nat
  pk : Bytes
  status : TaskStatus := .pending
  deriving DecidableEq

/-- `queue`; `max_qps` and `max_running` stay as they were constructed. -/
structure Queue (α : Type) where
  maxQps : UInt32
  maxRunning : UInt32
  keyCount : ℚ := 0
  running : UInt32 := 0
  tasks : AList (fun _ : Nat => PriorityTask α) := ∅
  pQueue : List (Nat × UInt64) := []
  taskPks : Finset Bytes := ∅

variable {α : Type}

namespace Queue

/-- `schedule_generate_key`, every 50 ms. -/
def generateKey (q : Queue α) : Queue α :=
  let keyCount := q.keyCount + q.maxQps.toNat * 50 / 1000
  { q with keyCount := min q.maxQps.toNat keyCount }

/-- `emplace` of a map: an entry that is there stays. -/
def emplace (tasks : AList fun _ : Nat => PriorityTask α) (task : PriorityTask α) :
    AList fun _ : Nat => PriorityTask α :=
  if task.id ∈ tasks then tasks else tasks.insert task.id task

/-- `submit`: whether the task was taken in. -/
def submit (q : Queue α) (task : PriorityTask α) : Bool × Queue α :=
  if task.pk = [] then
    (true, { q with tasks := emplace q.tasks task, pQueue := q.pQueue ++ [(task.id, task.priority)] })
  else if task.pk ∉ q.taskPks then
    (true, { q with
      taskPks := insert task.pk q.taskPks
      tasks := emplace q.tasks task
      pQueue := q.pQueue ++ [(task.id, task.priority)] })
  else (false, q)

/-- `top` of `p_queue` may be any of its entries that `task_comparator` puts below no other. -/
def IsTop (q : Queue α) (idScore : Nat × UInt64) : Prop :=
  idScore ∈ q.pQueue ∧ ∀ other ∈ q.pQueue, ¬idScore.2 < other.2

/-- A tick of `schedule_dispatch_task` dispatches. -/
def Ready (q : Queue α) : Prop := 1 ≤ q.keyCount ∧ q.pQueue ≠ [] ∧ q.running < q.maxRunning

/-- What such a tick does with the top entry: the task that the executor gets. `tasks.at` throws on an id that is not
there. -/
def dispatch (q : Queue α) (idScore : Nat × UInt64) : Option (PriorityTask α × Queue α) := do
  let task ← q.tasks.lookup idScore.1
  let task := { task with status := .running }
  return (task, { q with
    tasks := q.tasks.insert idScore.1 task
    pQueue := q.pQueue.erase idScore
    keyCount := q.keyCount - 1
    running := q.running + 1 })

/-- `complete`. -/
def complete (q : Queue α) (task : PriorityTask α) : Queue α :=
  { q with
    taskPks := q.taskPks.erase task.pk
    tasks := q.tasks.erase task.id
    running := q.running - 1 }

end Queue

/-! ## Runs -/

/-- The queue, and the tasks that the executor has got and not completed. -/
structure State (α : Type) where
  queue : Queue α
  outstanding : List (PriorityTask α) := []

/-- One step: a task that was `made` is submitted, once more or for the first time, keys are generated, a task is
dispatched, or the executor completes one. -/
inductive Step (made : Nat → PriorityTask α) : State α → State α → Prop
  | submit (s : State α) (id : Nat) : Step made s { s with queue := (s.queue.submit (made id)).2 }
  | generateKey (s : State α) : Step made s { s with queue := s.queue.generateKey }
  | dispatch (s : State α) {idScore : Nat × UInt64} {task : PriorityTask α} {queue : Queue α} :
    s.queue.Ready → s.queue.IsTop idScore → s.queue.dispatch idScore = some (task, queue) →
    Step made s { queue := queue, outstanding := s.outstanding ++ [task] }
  | complete (s : State α) {before after : List (PriorityTask α)} {task : PriorityTask α} :
    s.outstanding = before ++ task :: after →
    Step made s { queue := s.queue.complete task, outstanding := before ++ after }

/-- The states of the runs of a new queue. -/
def Reachable (made : Nat → PriorityTask α) (speed maxRunning : UInt32) (s : State α) : Prop :=
  Relation.ReflTransGen (Step made) { queue := { maxQps := speed, maxRunning := maxRunning } } s

/-! ## Keys -/

/-- The task that was made under the id, whatever its status. -/
def MadeAs (made : Nat → PriorityTask α) (id : Nat) (task : PriorityTask α) : Prop :=
  ∃ status, task = { made id with status := status }

theorem MadeAs.pk {made : Nat → PriorityTask α} {id : Nat} {task : PriorityTask α} (h : MadeAs made id task) :
    task.pk = (made id).pk := by
  obtain ⟨status, rfl⟩ := h
  rfl

theorem MadeAs.input {made : Nat → PriorityTask α} {id : Nat} {task : PriorityTask α} (h : MadeAs made id task) :
    task.input = (made id).input := by
  obtain ⟨status, rfl⟩ := h
  rfl

/-- Every task in the queue is one that was made, and every key is that of a task in the queue. -/
structure Keyed (made : Nat → PriorityTask α) (s : State α) : Prop where
  tasks : ∀ id task, s.queue.tasks.lookup id = some task → MadeAs made id task
  outstanding : ∀ task ∈ s.outstanding, MadeAs made task.id task
  keys : ∀ pk ∈ s.queue.taskPks, ∃ id task, s.queue.tasks.lookup id = some task ∧ task.pk = pk

section Keyed

variable {made : Nat → PriorityTask α}

theorem lookup_emplace (tasks : AList fun _ : Nat => PriorityTask α) (task : PriorityTask α) (id : Nat) :
    (Queue.emplace tasks task).lookup id =
      if id = task.id ∧ tasks.lookup id = none then some task else tasks.lookup id := by
  unfold Queue.emplace
  by_cases hin : task.id ∈ tasks
  · have hsome := AList.lookup_isSome.2 hin
    rw [if_pos hin, if_neg]
    rintro ⟨rfl, hnone⟩
    rw [hnone] at hsome
    cases hsome
  · have hnone := AList.lookup_eq_none.2 hin
    rw [if_neg hin]
    by_cases hid : id = task.id
    · subst hid
      rw [AList.lookup_insert, if_pos ⟨rfl, hnone⟩]
    · rw [AList.lookup_insert_ne hid, if_neg fun h => hid h.1]

/-- What a submit does to the tasks and the keys. -/
theorem submit_cases (q : Queue α) (task : PriorityTask α) :
    (q.submit task = (false, q) ∧ task.pk ∈ q.taskPks) ∨
      ((q.submit task).1 = true ∧ (q.submit task).2.tasks = Queue.emplace q.tasks task ∧
        ∀ pk ∈ (q.submit task).2.taskPks, pk = task.pk ∨ pk ∈ q.taskPks) := by
  unfold Queue.submit
  by_cases hempty : task.pk = []
  · right
    rw [if_pos hempty]
    exact ⟨rfl, rfl, fun pk hpk => .inr hpk⟩
  · by_cases htaken : task.pk ∈ q.taskPks
    · left
      rw [if_neg hempty, if_neg (not_not.2 htaken)]
      exact ⟨rfl, htaken⟩
    · right
      rw [if_neg hempty, if_pos htaken]
      exact ⟨rfl, rfl, fun pk hpk => Finset.mem_insert.1 hpk⟩

/-- A task of the queue after a submit is the new one or was there. -/
theorem tasks_submit {s : State α} (hmade : ∀ id, (made id).id = id) (h : Keyed made s) (id : Nat) :
    (∀ i task, (s.queue.submit (made id)).2.tasks.lookup i = some task → MadeAs made i task) ∧
      ∀ i task, s.queue.tasks.lookup i = some task → (s.queue.submit (made id)).2.tasks.lookup i = some task := by
  rcases submit_cases s.queue (made id) with ⟨heq, -⟩ | ⟨-, htasks, -⟩
  · rw [heq]
    exact ⟨h.tasks, fun i task hi => hi⟩
  · rw [htasks]
    constructor
    · intro i task hi
      rw [lookup_emplace] at hi
      by_cases hnew : i = (made id).id ∧ s.queue.tasks.lookup i = none
      · rw [if_pos hnew, Option.some.injEq] at hi
        rw [hnew.1, hmade id]
        exact ⟨(made id).status, hi.symm⟩
      · rw [if_neg hnew] at hi
        exact h.tasks i task hi
    · intro i task hi
      rw [lookup_emplace, if_neg, hi]
      rintro ⟨-, hnone⟩
      rw [hnone] at hi
      cases hi

/-- After a submit that is not refused the task is in the queue. -/
theorem live_submit {s : State α} (hmade : ∀ id, (made id).id = id) (h : Keyed made s) (id : Nat)
    (hok : (s.queue.submit (made id)).1 = true) :
    ∃ task, (s.queue.submit (made id)).2.tasks.lookup id = some task ∧ MadeAs made id task := by
  rcases submit_cases s.queue (made id) with ⟨heq, -⟩ | ⟨-, htasks, -⟩
  · rw [heq] at hok
    cases hok
  · have hthere : ∃ task, (Queue.emplace s.queue.tasks (made id)).lookup id = some task := by
      rw [lookup_emplace]
      cases hold : s.queue.tasks.lookup id with
      | none => exact ⟨made id, by rw [if_pos ⟨(hmade id).symm, rfl⟩]⟩
      | some task => exact ⟨task, by rw [if_neg fun h => Option.some_ne_none _ h.2]⟩
    obtain ⟨task, htask⟩ := hthere
    rw [← htasks] at htask
    exact ⟨task, htask, (tasks_submit hmade h id).1 id task htask⟩

theorem Keyed.submit {s : State α} (hmade : ∀ id, (made id).id = id) (h : Keyed made s) (id : Nat) :
    Keyed made { s with queue := (s.queue.submit (made id)).2 } := by
  refine ⟨(tasks_submit hmade h id).1, h.outstanding, fun pk hpk => ?_⟩
  rcases submit_cases s.queue (made id) with ⟨heq, -⟩ | ⟨hok, -, hkeys⟩
  · rw [heq] at hpk ⊢
    exact h.keys pk hpk
  · rcases hkeys pk hpk with rfl | hold
    · obtain ⟨task, htask, has⟩ := live_submit hmade h id hok
      exact ⟨id, task, htask, has.pk⟩
    · obtain ⟨i, task, hi, hpk⟩ := h.keys pk hold
      exact ⟨i, task, (tasks_submit hmade h id).2 i task hi, hpk⟩

theorem Keyed.dispatch {s : State α} (hmade : ∀ id, (made id).id = id) (h : Keyed made s) {idScore : Nat × UInt64}
    {task : PriorityTask α} {queue : Queue α} (hd : s.queue.dispatch idScore = some (task, queue)) :
    Keyed made { queue := queue, outstanding := s.outstanding ++ [task] } := by
  obtain ⟨old, hold, hd⟩ := Option.bind_eq_some_iff.1 hd
  cases hd
  obtain ⟨status, rfl⟩ := h.tasks idScore.1 old hold
  refine ⟨fun i task hi => ?_, fun task ht => ?_, fun pk hpk => ?_⟩
  · by_cases hid : i = idScore.1
    · subst hid
      rw [AList.lookup_insert, Option.some.injEq] at hi
      exact ⟨.running, hi.symm⟩
    · rw [AList.lookup_insert_ne hid] at hi
      exact h.tasks i task hi
  · rcases List.mem_append.1 ht with ht | ht
    · exact h.outstanding task ht
    · obtain rfl := List.mem_singleton.1 ht
      exact ⟨.running, by simp only [hmade]⟩
  · obtain ⟨i, task, hi, hpk⟩ := h.keys pk hpk
    by_cases hid : i = idScore.1
    · subst hid
      rw [hold, Option.some.injEq] at hi
      exact ⟨_, _, AList.lookup_insert _, by rw [← hpk, ← hi]⟩
    · exact ⟨i, task, by rw [AList.lookup_insert_ne hid]; exact hi, hpk⟩

theorem Keyed.complete {s : State α} (h : Keyed made s) {before after : List (PriorityTask α)} {task : PriorityTask α}
    (hout : s.outstanding = before ++ task :: after) :
    Keyed made { queue := s.queue.complete task, outstanding := before ++ after } := by
  have htask := h.outstanding task (by rw [hout]; simp)
  refine ⟨fun i t hi => ?_, fun t ht => ?_, fun pk hpk => ?_⟩
  · by_cases hid : i = task.id
    · subst hid
      rw [Queue.complete, AList.lookup_erase] at hi
      cases hi
    · rw [Queue.complete, AList.lookup_erase_ne hid] at hi
      exact h.tasks i t hi
  · apply h.outstanding
    rw [hout]
    rcases List.mem_append.1 ht with ht | ht
    · exact List.mem_append_left _ ht
    · exact List.mem_append_right _ (List.mem_cons_of_mem _ ht)
  · obtain ⟨hne, hpk⟩ := Finset.mem_erase.1 hpk
    obtain ⟨i, t, hi, hkey⟩ := h.keys pk hpk
    -- the task that goes has another key than this one
    have hid : i ≠ task.id := by
      rintro rfl
      have ht := h.tasks _ t hi
      exact hne (by rw [← hkey, ht.pk, htask.pk])
    exact ⟨i, t, by rw [Queue.complete, AList.lookup_erase_ne hid]; exact hi, hkey⟩

/-- One step. -/
theorem Keyed.step {s s' : State α} (hmade : ∀ id, (made id).id = id) (h : Keyed made s) (hstep : Step made s s') :
    Keyed made s' := by
  cases hstep with
  | submit id => exact h.submit hmade id
  | generateKey => exact ⟨h.tasks, h.outstanding, h.keys⟩
  | dispatch hready htop hd => exact h.dispatch hmade hd
  | complete hout => exact h.complete hout

/-- **All runs** keep every key with a task in the queue. -/
theorem keyed_of_reachable {speed maxRunning : UInt32} {s : State α} (hmade : ∀ id, (made id).id = id)
    (h : Reachable made speed maxRunning s) : Keyed made s := by
  induction h with
  | refl =>
    refine ⟨fun i task hi => ?_, fun task ht => ?_, fun pk hpk => ?_⟩
    · rw [AList.lookup_empty] at hi
      cases hi
    · cases ht
    · exact absurd hpk (Finset.notMem_empty pk)
  | tail _ hstep ih => exact ih.step hmade hstep

/-- **A refused submit** has a task with its key in the queue. -/
theorem key_live {speed maxRunning : UInt32} {s : State α} (hmade : ∀ id, (made id).id = id)
    (h : Reachable made speed maxRunning s) {id : Nat} (hrefused : (s.queue.submit (made id)).1 = false) :
    ∃ i task, s.queue.tasks.lookup i = some task ∧ MadeAs made i task ∧ task.pk = (made id).pk := by
  have hk := keyed_of_reachable hmade h
  rcases submit_cases s.queue (made id) with ⟨-, htaken⟩ | ⟨hok, -⟩
  · obtain ⟨i, task, hi, hpk⟩ := hk.keys _ htaken
    exact ⟨i, task, hi, hk.tasks i task hi, hpk⟩
  · rw [hok] at hrefused
    cases hrefused

end Keyed

end StDns.TaskQueue
