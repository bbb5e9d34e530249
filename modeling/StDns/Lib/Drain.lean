import Mathlib.Algebra.BigOperators.Group.List.Basic

/-!
# Sums that are drained

Jobs add to a sum, part by part and in any order among each other, and now and then the sum is taken and begins again.
What is held is what the jobs have added since it was taken last (`held_of_run`), what was taken is what they had added
before (`taken_of_run`), so nothing is lost and nothing is taken twice (`posted_of_run`).
-/

namespace StDns.Lib.Drain

/-- What a job has added before the sum was taken last, what since, and what it has still to add. -/
structure Job (Part : Type) where
  before : List Part := []
  since : List Part := []
  rest : List Part

structure State (Part Sum : Type) where
  jobs : List (Job Part) := []
  held : Sum
  taken : List Sum := []

inductive Event (Part : Type) where
  | posted (parts : List Part)
  | added (part : Part)
  | drained

section Runs

variable {Part Sum : Type}

/-- All parts of a job. -/
def Job.parts (job : Job Part) : List Part := job.before ++ job.since ++ job.rest

/-- The sum is taken. -/
def Job.cut (job : Job Part) : Job Part := { job with before := job.before ++ job.since, since := [] }

variable [AddCommMonoid Sum] (effect : Part → Sum)

/-- What some parts add. -/
def sumOf (parts : List Part) : Sum := (parts.map effect).sum

inductive Step : State Part Sum → Event Part → State Part Sum → Prop
  | posted (s : State Part Sum) (parts : List Part) :
    Step s (.posted parts) { s with jobs := s.jobs ++ [{ rest := parts }] }
  | added (s : State Part Sum) {before after : List (Job Part)} {job : Job Part} {part : Part} {rest : List Part} :
    s.jobs = before ++ job :: after → job.rest = part :: rest →
    Step s (.added part) { s with
      jobs := before ++ { job with since := job.since ++ [part], rest := rest } :: after
      held := s.held + effect part }
  | drained (s : State Part Sum) :
    Step s .drained { jobs := s.jobs.map Job.cut, held := 0, taken := s.taken ++ [s.held] }

inductive Run : List (Event Part) → State Part Sum → Prop
  | start : Run [] { held := 0 }
  | next {log : List (Event Part)} {s s' : State Part Sum} {event : Event Part} :
    Run log s → Step effect s event s' → Run (log ++ [event]) s'

/-- The jobs that were posted. -/
def postedJobs (log : List (Event Part)) : List (List Part) :=
  log.filterMap fun
    | .posted parts => some parts
    | _ => none

variable {effect} {log : List (Event Part)} {s s' : State Part Sum} {event : Event Part}

@[simp] theorem sumOf_nil : sumOf effect [] = 0 := rfl

theorem sumOf_append (parts parts' : List Part) :
    sumOf effect (parts ++ parts') = sumOf effect parts + sumOf effect parts' := by
  rw [sumOf, List.map_append, List.sum_append]
  rfl

/-- Over jobs of which one has done a part. -/
theorem sum_added (f : Job Part → Sum) (before after : List (Job Part)) (job job' : Job Part) {part : Part}
    (h : f job' = f job + effect part) :
    ((before ++ job' :: after).map f).sum = ((before ++ job :: after).map f).sum + effect part := by
  simp only [List.map_append, List.map_cons, List.sum_append, List.sum_cons, h]
  ac_rfl

/-- **What is held** is what the jobs have added since the sum was taken last. -/
theorem held_of_run (h : Run effect log s) : s.held = (s.jobs.map fun job => sumOf effect job.since).sum := by
  induction h with
  | start => rfl
  | next _ hstep ih =>
    cases hstep with
    | posted parts => simp [ih]
    | @added before after job part rest hjobs hrest =>
      have hjob : sumOf effect (job.since ++ [part]) = sumOf effect job.since + effect part := by
        simp [sumOf]
      rw [ih, hjobs]
      exact (sum_added (fun job => sumOf effect job.since) before after job _ hjob).symm
    | drained => simp [Job.cut, Function.comp_def]

/-- **What was taken** is what they had added before. -/
theorem taken_of_run (h : Run effect log s) : s.taken.sum = (s.jobs.map fun job => sumOf effect job.before).sum := by
  induction h with
  | start => rfl
  | next hrun hstep ih =>
    cases hstep with
    | posted parts => simp [ih]
    | added hjobs hrest => simpa [hjobs] using ih
    | drained =>
      have hcut : ∀ job : Job Part, sumOf effect job.cut.before = sumOf effect job.before + sumOf effect job.since :=
        fun job => sumOf_append _ _
      rw [List.sum_append, List.sum_singleton, ih, held_of_run hrun, List.map_map]
      simp only [Function.comp_def, hcut]
      exact List.sum_map_add.symm

/-- The jobs are those that were posted. -/
theorem parts_of_run (h : Run effect log s) : s.jobs.map Job.parts = postedJobs log := by
  have hlog : ∀ (log : List (Event Part)) (event : Event Part), postedJobs (log ++ [event]) =
      postedJobs log ++ postedJobs [event] := fun log event => List.filterMap_append
  induction h with
  | start => rfl
  | next _ hstep ih =>
    rw [hlog, ← ih]
    cases hstep with
    | posted parts => simp [postedJobs, Job.parts]
    | added hjobs hrest => simp [postedJobs, Job.parts, hjobs, hrest]
    | drained => simp [postedJobs, Job.parts, Job.cut, Function.comp_def]

/-- **Nothing is lost**: what was taken, what is held and what is still to be added is what was posted. -/
theorem posted_of_run (h : Run effect log s) :
    s.taken.sum + s.held + (s.jobs.map fun job => sumOf effect job.rest).sum =
      ((postedJobs log).map (sumOf effect)).sum := by
  have hjob : ∀ job : Job Part, sumOf effect job.parts =
      sumOf effect job.before + sumOf effect job.since + sumOf effect job.rest := fun job => by
    rw [Job.parts, sumOf_append, sumOf_append]
  rw [← parts_of_run h, taken_of_run h, held_of_run h, List.map_map]
  simp only [Function.comp_def, hjob, List.sum_map_add]

end Runs

end StDns.Lib.Drain
