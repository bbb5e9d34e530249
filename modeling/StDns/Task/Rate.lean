import StDns.Lib.Bucket
import StDns.Task.History
import Mathlib.Tactic.Positivity
import Mathlib.Tactic.Ring

/-!
# The rate of the task queue

`key_count` is a token bucket: a tick of `schedule_generate_key` refills it with `max_qps * 50 / 1000` up to `max_qps`,
and a dispatch takes one key. The functions of the queue may be called with any task at any time; whatever is called and
however the timers tick, what is dispatched over a stretch is bounded by the ticks in it (`rate_of_run`).
-/

namespace StDns.TaskQueue

open Lib

variable {α : Type}

/-! ## Calls and ticks -/

/-- A call of the queue, or a tick of one of its timers. -/
inductive Action (α : Type) where
  | submit (task : PriorityTask α)
  | complete (task : PriorityTask α)
  | generateKey
  | dispatchTask

/-- An action and the task that it hands to the executor, if any. -/
inductive Acts : Queue α → Action α → Option (PriorityTask α) → Queue α → Prop
  | submit (q : Queue α) (task : PriorityTask α) : Acts q (.submit task) none (q.submit task).2
  | complete (q : Queue α) (task : PriorityTask α) : Acts q (.complete task) none (q.complete task)
  | generateKey (q : Queue α) : Acts q .generateKey none q.generateKey
  | idle (q : Queue α) : ¬q.Ready → Acts q .dispatchTask none q
  | dispatch {q queue : Queue α} {idScore : Nat × UInt64} {task : PriorityTask α} :
    q.Ready → q.IsTop idScore → q.dispatch idScore = some (task, queue) → Acts q .dispatchTask (some task) queue

/-- A stretch of a run: what was done in it, and what was handed over. -/
inductive Stretch (start : Queue α) : List (Action α × Option (PriorityTask α)) → Queue α → Prop
  | start : Stretch start [] start
  | next {log : List (Action α × Option (PriorityTask α))} {q q' : Queue α} {action : Action α}
    {out : Option (PriorityTask α)} : Stretch start log q → Acts q action out q' →
    Stretch start (log ++ [(action, out)]) q'

/-- The ticks that generated keys. -/
def generations (log : List (Action α × Option (PriorityTask α))) : Nat :=
  log.countP fun e => match e.1 with
    | .generateKey => true
    | _ => false

/-- The tasks that were handed to the executor. -/
def dispatches (log : List (Action α × Option (PriorityTask α))) : Nat := log.countP fun e => e.2.isSome

/-- What an event of a run is among the actions. -/
def Event.action (made : Nat → PriorityTask α) : Event α → Action α × Option (PriorityTask α)
  | .accepted id | .refused id => (.submit (made id), none)
  | .generated => (.generateKey, none)
  | .dispatched task => (.dispatchTask, some task)
  | .completed task => (.complete task, none)

/-- The runs of the queue with its executor are such stretches. -/
theorem Run.stretch {made : Nat → PriorityTask α} {speed maxRunning : UInt32} {log : List (State α × Event α)}
    {s : State α} (h : Run made speed maxRunning log s) :
    Stretch { maxQps := speed, maxRunning := maxRunning } (log.map fun e => e.2.action made) s.queue := by
  induction h with
  | start => exact .start
  | next _ hdoes ih =>
    rw [List.map_append]
    refine ih.next ?_
    cases hdoes with
    | accepted => exact .submit _ _
    | refused => exact .submit _ _
    | generated => exact .generateKey _
    | dispatched hready htop hd => exact .dispatch hready htop hd
    | completed => exact .complete _ _

/-! ## Keys as tokens -/

/-- What an action does to `key_count`. -/
def keyChange : Action α × Option (PriorityTask α) → Bucket.Change
  | (.generateKey, _) => .refill
  | (_, some _) => .take
  | (_, none) => .keep

/-- The keys that a tick generates. -/
def Queue.perTick (q : Queue α) : ℚ := q.maxQps.toNat * 50 / 1000

section Tokens

variable {q q' start : Queue α} {action : Action α} {out : Option (PriorityTask α)}
  {log : List (Action α × Option (PriorityTask α))}

/-- One action. -/
theorem Acts.step (h : Acts q action out q') : q'.maxQps = q.maxQps ∧
    Bucket.Step (q.maxQps.toNat : ℚ) q.perTick q.keyCount (keyChange (action, out)) q'.keyCount := by
  cases h with
  | submit task =>
    have hsame : (q.submit task).2.maxQps = q.maxQps ∧ (q.submit task).2.keyCount = q.keyCount := by
      unfold Queue.submit
      split_ifs
      · exact ⟨rfl, rfl⟩
      · exact ⟨rfl, rfl⟩
      · exact ⟨rfl, rfl⟩
    rw [hsame.2]
    exact ⟨hsame.1, .keep _⟩
  | complete => exact ⟨rfl, .keep _⟩
  | generateKey => exact ⟨rfl, .refill _⟩
  | idle => exact ⟨rfl, .keep _⟩
  | dispatch hready _ hd =>
    obtain ⟨old, -, -, rfl⟩ := dispatch_eq_some.1 hd
    exact ⟨rfl, .take hready.1⟩

/-- A stretch is a path of the bucket. -/
theorem Stretch.path (h : Stretch start log q) : q.maxQps = start.maxQps ∧
    Bucket.Path (start.maxQps.toNat : ℚ) start.perTick start.keyCount (log.map keyChange) q.keyCount := by
  induction h with
  | start => exact ⟨rfl, .start⟩
  | next _ hacts ih =>
    obtain ⟨hmax, hstep⟩ := hacts.step
    rw [Queue.perTick, ih.1] at hstep
    rw [List.map_append]
    exact ⟨hmax.trans ih.1, ih.2.next hstep⟩

theorem count_refill : (log.map keyChange).count .refill = generations log := by
  rw [List.count, List.countP_map, generations]
  congr 1
  funext ⟨action, out⟩
  cases action <;> cases out <;> rfl

/-- What is handed over takes a key. -/
theorem Stretch.count_take (h : Stretch start log q) : (log.map keyChange).count .take = dispatches log := by
  induction h with
  | start => rfl
  | next _ hacts ih =>
    rw [List.map_append, List.count_append, ih, dispatches, dispatches, List.countP_append]
    cases hacts <;> rfl

/-- **The rate**: in every run `key_count` is between 0 and `max_qps`, and over any stretch of it no more is dispatched
than `max_qps` tasks and a twentieth of that for each tick that generates keys. -/
theorem rate_of_run {speed maxRunning : UInt32} {before stretch : List (Action α × Option (PriorityTask α))}
    (hbefore : Stretch { maxQps := speed, maxRunning := maxRunning } before q) (hstretch : Stretch q stretch q') :
    (0 ≤ q'.keyCount ∧ q'.keyCount ≤ speed.toNat) ∧
      (dispatches stretch : ℚ) ≤ speed.toNat + generations stretch * speed.toNat / 20 := by
  obtain ⟨hmax, hpath⟩ := hbefore.path
  have hspeed : q.maxQps = speed := hmax
  have hpath' := hstretch.path.2
  have hamount : (0 : ℚ) ≤ speed.toNat * 50 / 1000 := by positivity
  have hwithin := hpath.within hamount ⟨le_refl _, Nat.cast_nonneg _⟩
  rw [Queue.perTick, hspeed] at hpath'
  refine ⟨hpath'.within hamount hwithin, ?_⟩
  have htakes := hpath'.takes_le hamount hwithin
  rw [hstretch.count_take, count_refill] at htakes
  calc (dispatches stretch : ℚ) ≤ speed.toNat + generations stretch * (speed.toNat * 50 / 1000) := htakes
    _ = speed.toNat + generations stretch * speed.toNat / 20 := by ring

end Tokens

/-- Two of four waiting tasks are dispatched after a tick. -/
theorem rate_of_run_at : ∃ stretch : List (Action Unit × Option (PriorityTask Unit)),
    dispatches stretch = 2 ∧ generations stretch = 1 ∧
      (0 ≤ twoRunning.queue.keyCount ∧ twoRunning.queue.keyCount ≤ (100 : UInt32).toNat) ∧
        (dispatches stretch : ℚ) ≤ (100 : UInt32).toNat + generations stretch * (100 : UInt32).toNat / 20 := by
  have submitted : ∀ n, Acts (waitingUpTo n).queue (.submit (equals n)) none (waitingUpTo (n + 1)).queue :=
    fun n => .submit _ _
  have first : Acts fourWaiting.queue .dispatchTask (some { equals 0 with status := .running })
      (fourWaiting.dispatch (0, 0)).queue :=
    .dispatch ⟨by decide +kernel, by decide, by decide⟩
      (show fourWaiting.queue.IsTop (0, 0) from ⟨by decide, by decide⟩) rfl
  have third : Acts (fourWaiting.dispatch (0, 0)).queue .dispatchTask (some { equals 2 with status := .running })
      twoRunning.queue :=
    .dispatch ⟨by decide +kernel, by decide, by decide⟩
      (show (fourWaiting.dispatch (0, 0)).queue.IsTop (2, 0) from ⟨by decide, by decide⟩) rfl
  have hbefore : Stretch { maxQps := 100, maxRunning := 100 } _ (waitingUpTo 4).queue :=
    (((Stretch.start.next (submitted 0)).next (submitted 1)).next (submitted 2)).next (submitted 3)
  have hstretch : Stretch (waitingUpTo 4).queue _ twoRunning.queue :=
    ((Stretch.start.next (.generateKey _)).next first).next third
  exact ⟨_, rfl, rfl, rate_of_run hbefore hstretch⟩

end StDns.TaskQueue
