import StDns.Lib.Decimal
import StDns.Lib.Drain
import StDns.Log.Dimensions
import Mathlib.Algebra.Group.Pi.Basic
import Mathlib.Algebra.Order.BigOperators.Group.List
import Mathlib.Data.List.AList

/-!
# The statistics of the measurements

A measurement is handed to a pool of threads, which add its metrics to the statistics under a lock: `perf` all at once,
`end` one after the other, the count last. The report takes the statistics, and writes a line for every group that has
a count. It writes nothing when its file does not open, and an id that it cannot read ends the process. In every run
what was reported, what is in the statistics and what the measurements have still to add is what was measured
(`metrics_conserved`), and where a report writes its lines, it leaves a group out iff all that this has is from
measurements that the report cuts in two (`left_out_iff`).
-/

namespace StDns.Log

open Lib Lib.Json Drain Utils

/-! ## The source -/

/-- A metric; one that is new has these values. -/
structure Metric where
  sum : UInt64 := 0
  min : UInt64 := 0xFFFFFFFFFFFFFFFF
  max : UInt64 := 0
  deriving DecidableEq

/-- `accumulate_metric`. -/
def accumulateMetric (metric : Metric) (value sample : UInt64) : Metric :=
  { sum := metric.sum + value * sample, min := min value metric.min, max := max value metric.max }

/-- The metrics of a group, by their names. -/
abbrev Metrics := AList fun _ : Bytes => Metric

/-- `STATISTICS`: the groups by the name and the id of their dimensions. -/
abbrev Statistics := AList fun _ : Bytes × Bytes => Metrics

structure Accumulation where
  metric : Bytes
  value : UInt64
  sample : UInt64 := 1

def Statistics.accumulate (statistics : Statistics) (key : Bytes × Bytes) (a : Accumulation) : Statistics :=
  let metrics := (statistics.lookup key).getD ∅
  statistics.insert key
    (metrics.insert a.metric (accumulateMetric ((metrics.lookup a.metric).getD {}) a.value a.sample))

/-- What is done under one lock. -/
structure Locked where
  key : Bytes × Bytes
  todo : List Accumulation

def Statistics.accumulateAll (statistics : Statistics) (locked : Locked) : Statistics :=
  locked.todo.foldl (fun statistics a => statistics.accumulate locked.key a) statistics

/-- One metric under a lock of its own. -/
def Locked.one (key : Bytes × Bytes) (m : Bytes × UInt64) : Locked :=
  { key := key, todo := [{ metric := m.1, value := m.2 }] }

def countName : Bytes := ascii "count"

/-- `add_metric`: the metric keeps its place. -/
def addMetric (metrics : List (Bytes × UInt64)) (name : Bytes) (value : UInt64) : List (Bytes × UInt64) :=
  if name ∈ metrics.map Prod.fst then metrics.map fun m => if m.1 = name then (name, value) else m
  else metrics ++ [(name, value)]

/-- What is posted: by `end` with the metrics that were added before, and by `perf` with a cost or with counts. -/
inductive Measurement where
  | ended (name id : Bytes) (added : List (Bytes × UInt64)) (cost : UInt64)
  | perf (name id : Bytes) (cost count sample : UInt64)
  | perfCounts (name id : Bytes) (counts : List (Bytes × UInt64))

/-- The metrics of an `end`. -/
def endMetrics (added : List (Bytes × UInt64)) (cost : UInt64) : List (Bytes × UInt64) :=
  addMetric (addMetric added (ascii "cost") cost) countName 1

/-- The closure, lock by lock. -/
def Measurement.closure : Measurement → List Locked
  | ended name id added cost => (endMetrics added cost).map (Locked.one (name, id))
  | perf name id cost count sample =>
    [{ key := (name, id), todo := [{ metric := countName, value := count, sample := sample },
      { metric := ascii "cost", value := cost, sample := sample }] }]
  | perfCounts name id counts =>
    [{ key := (name, id), todo := { metric := countName, value := 1 } ::
      counts.map fun count => { metric := count.1, value := count.2 } }]

/-- The metrics by name. -/
def Measurement.metricNames : Measurement → List Bytes
  | ended _ _ added cost => (endMetrics added cost).map Prod.fst
  | perf .. => [countName, ascii "cost"]
  | perfCounts _ _ counts => countName :: counts.map Prod.fst

/-- A name of a metric that is no path in a tree. -/
def PlainName (name : Bytes) : Prop := name ≠ [] ∧ point ∉ name

instance (name : Bytes) : Decidable (PlainName name) := inferInstanceAs (Decidable (_ ∧ _))

/-- A line of the report: the count, and the other metrics with their averages. -/
structure Line where
  count : UInt64
  metrics : List (Bytes × Metric × UInt64)

/-- `ptree::put_child` under a name that is no path. -/
def putChild (name : Bytes) (child : Json.Tree) : Json.Tree → Json.Tree
  | .node data children => .node data (children.alter name fun _ => child)

def Metric.tree (metric : Metric) (average : UInt64) : Json.Tree :=
  .node [] (.cons (ascii "sum") (leaf (decimal metric.sum.toNat)) (.cons (ascii "min") (leaf (decimal metric.min.toNat))
    (.cons (ascii "max") (leaf (decimal metric.max.toNat)) (.cons (ascii "avg") (leaf (decimal average.toNat)) .nil))))

/-- A line as a tree: the dimensions, the metrics, the count and the time. -/
def Line.tree (line : Line) (time : Bytes) : Json.Tree → Json.Tree
  | .node _ dimensions =>
    let metrics := line.metrics.foldl (fun tree m => putChild m.1 (m.2.1.tree m.2.2) tree) (.node [] dimensions)
    (metrics.set (decimal line.count.toNat) [countName]).set time [ascii "server_time"]

/-- The line of a group; nothing for one without a count. -/
def reportLine (metrics : Metrics) : Option Line :=
  let tCount := ((metrics.lookup countName).getD {}).sum
  if tCount = 0 then none else some
    { count := tCount
      metrics := (metrics.entries.filter fun metric => metric.1 ≠ countName).map fun metric =>
        (metric.1, metric.2, metric.2.sum / tCount) }

section Reporting

variable (w : Writer) (enc : Encoding)

/-- `report_apm_log_local` for one group: the line that it writes. Nothing when the id is not read back or the line is
not written as JSON, which nothing catches. -/
def reportGroup (time id : Bytes) (metrics : Metrics) : Option (Option Line) := do
  let dimensions ← reportDimensions enc id
  match reportLine metrics with
  | none => some none
  | some line => (toJson w (line.tree time dimensions)).map fun _ => some line

/-- What the file system does for a report: its file opens and takes what is written, or does not open, or an exception
comes before that, when the other files of the folder are counted and deleted. -/
inductive ReportFile where
  | opened
  | refused
  | threw
  deriving DecidableEq

/-- How a report ends: all its lines are written, or its file does not open, or an exception ends the process. -/
inductive Outcome where
  | written
  | noFile
  | ended
  deriving DecidableEq

/-- What a report took, and how it ended. -/
structure Report where
  taken : Statistics
  outcome : Outcome

/-- `report_apm_log_local`. -/
def reportApmLogLocal (statistics : Statistics) (file : ReportFile) (time : Bytes) : Report :=
  { taken := statistics
    outcome :=
      if statistics.entries = [] then .written
      else match file with
        | .threw => .ended
        | .refused => .noFile
        | .opened =>
          if statistics.entries.all fun group => (reportGroup w enc time group.1.2 group.2).isSome then .written
          else .ended }

end Reporting

/-! ## Runs -/

/-- The closures that were posted, the statistics, and the reports. -/
structure Apm where
  running : List (Job Locked) := []
  statistics : Statistics := ∅
  reports : List Report := []

/-- No report has ended the process. -/
def Apm.Alive (s : Apm) : Prop := ∀ report ∈ s.reports, report.outcome ≠ .ended

inductive ApmEvent where
  | posted (m : Measurement)
  | locked (locked : Locked)
  | reported (file : ReportFile) (time : Bytes)

/-- One step. The other threads may go on for a while when a report ends the process. -/
inductive ApmStep (w : Writer) (enc : Encoding) : Apm → ApmEvent → Apm → Prop
  | posted (s : Apm) (m : Measurement) : (∀ name ∈ m.metricNames, PlainName name) →
    ApmStep w enc s (.posted m) { s with running := s.running ++ [{ rest := m.closure }] }
  | locked (s : Apm) {before after : List (Job Locked)} {job : Job Locked} {locked : Locked} {rest : List Locked} :
    s.running = before ++ job :: after → job.rest = locked :: rest → ApmStep w enc s (.locked locked)
      { s with
        running := before ++ { job with since := job.since ++ [locked], rest := rest } :: after
        statistics := s.statistics.accumulateAll locked }
  | reported (s : Apm) (file : ReportFile) (time : Bytes) : s.Alive → ApmStep w enc s (.reported file time)
    { running := s.running.map Job.cut
      statistics := ∅
      reports := s.reports ++ [reportApmLogLocal w enc s.statistics file time] }

inductive ApmRun (w : Writer) (enc : Encoding) : List ApmEvent → Apm → Prop
  | start : ApmRun w enc [] {}
  | next {log : List ApmEvent} {s s' : Apm} {event : ApmEvent} :
    ApmRun w enc log s → ApmStep w enc s event s' → ApmRun w enc (log ++ [event]) s'

/-- The measurements of a run. -/
def measured (log : List ApmEvent) : List Measurement :=
  log.filterMap fun
    | .posted m => some m
    | _ => none

/-! ## Metrics as sums -/

section Sums

instance : Zero Metric := ⟨{}⟩

instance : Add Metric := ⟨fun a b => { sum := a.sum + b.sum, min := min a.min b.min, max := max a.max b.max }⟩

theorem zero_eq : (0 : Metric) = {} := rfl

theorem add_eq (a b : Metric) :
    a + b = { sum := a.sum + b.sum, min := min a.min b.min, max := max a.max b.max } := rfl

theorem toNat_min (a b : UInt64) : (min a b).toNat = min a.toNat b.toNat := by
  change (if a ≤ b then a else b).toNat = _
  by_cases h : a ≤ b
  · rw [if_pos h, Nat.min_eq_left (UInt64.le_iff_toNat_le.1 h)]
  · rw [if_neg h, Nat.min_eq_right (Nat.le_of_not_le fun hle => h (UInt64.le_iff_toNat_le.2 hle))]

theorem toNat_max (a b : UInt64) : (max a b).toNat = max a.toNat b.toNat := by
  change (if a ≤ b then b else a).toNat = _
  by_cases h : a ≤ b
  · rw [if_pos h, Nat.max_eq_right (UInt64.le_iff_toNat_le.1 h)]
  · rw [if_neg h, Nat.max_eq_left (Nat.le_of_not_le fun hle => h (UInt64.le_iff_toNat_le.2 hle))]

theorem Metric.ext_toNat {a b : Metric} (hsum : a.sum = b.sum) (hmin : a.min.toNat = b.min.toNat)
    (hmax : a.max.toNat = b.max.toNat) : a = b := by
  cases a
  cases b
  simp_all [UInt64.toNat_inj]

instance : AddCommMonoid Metric where
  add_assoc a b c := by
    refine Metric.ext_toNat (UInt64.add_assoc _ _ _) ?_ ?_
    · simp only [add_eq, toNat_min, Nat.min_assoc]
    · simp only [add_eq, toNat_max, Nat.max_assoc]
  zero_add a := by
    refine Metric.ext_toNat (UInt64.zero_add _) ?_ ?_
    · rw [add_eq, toNat_min]
      exact Nat.min_eq_right (Nat.le_of_lt_succ a.min.toNat_lt)
    · rw [add_eq, toNat_max]
      exact Nat.max_eq_right (Nat.zero_le _)
  add_zero a := by
    refine Metric.ext_toNat (UInt64.add_zero _) ?_ ?_
    · rw [add_eq, toNat_min]
      exact Nat.min_eq_left (Nat.le_of_lt_succ a.min.toNat_lt)
    · rw [add_eq, toNat_max]
      exact Nat.max_eq_left (Nat.zero_le _)
  add_comm a b := by
    refine Metric.ext_toNat (UInt64.add_comm _ _) ?_ ?_
    · simp only [add_eq, toNat_min, Nat.min_comm]
    · simp only [add_eq, toNat_max, Nat.max_comm]
  nsmul := nsmulRec

/-- What one value adds to its metric. -/
def Accumulation.amount (a : Accumulation) : Metric := { sum := a.value * a.sample, min := a.value, max := a.value }

theorem accumulateMetric_eq (metric : Metric) (a : Accumulation) :
    accumulateMetric metric a.value a.sample = metric + a.amount := by
  refine Metric.ext_toNat rfl ?_ ?_
  · rw [add_eq]
    simp only [accumulateMetric, Accumulation.amount, toNat_min, Nat.min_comm]
  · rw [add_eq]
    simp only [accumulateMetric, Accumulation.amount, toNat_max, Nat.max_comm]

end Sums

/-! ## Statistics as sums -/

section Statistics

variable {statistics : Statistics} {key : Bytes × Bytes}

/-- A metric of a group; one that is not there is new. -/
def Statistics.metric (statistics : Statistics) (k : (Bytes × Bytes) × Bytes) : Metric :=
  ((statistics.lookup k.1).bind fun metrics => metrics.lookup k.2).getD 0

/-- What is done under one lock adds to the metrics. -/
def Locked.effect (locked : Locked) (k : (Bytes × Bytes) × Bytes) : Metric :=
  (locked.todo.map fun a => if (locked.key, a.metric) = k then a.amount else 0).sum

theorem metric_empty : Statistics.metric ∅ = 0 := by
  funext k
  simp [Statistics.metric]

theorem metric_accumulate (key : Bytes × Bytes) (a : Accumulation) (k : (Bytes × Bytes) × Bytes) :
    (statistics.accumulate key a).metric k = statistics.metric k + if (key, a.metric) = k then a.amount else 0 := by
  obtain ⟨key', name⟩ := k
  simp only [Statistics.metric, Statistics.accumulate, Prod.mk.injEq]
  by_cases hkey : key = key'
  · subst hkey
    rw [AList.lookup_insert, Option.bind_some]
    by_cases hname : a.metric = name
    · subst hname
      rw [AList.lookup_insert, if_pos ⟨rfl, rfl⟩, Option.getD_some, accumulateMetric_eq]
      cases statistics.lookup key <;> rfl
    · rw [AList.lookup_insert_ne (Ne.symm hname), if_neg (fun h => hname h.2), add_zero]
      cases statistics.lookup key <;> simp
  · rw [AList.lookup_insert_ne (Ne.symm hkey), if_neg (fun h => hkey h.1), add_zero]

theorem metric_accumulateAll (locked : Locked) :
    (statistics.accumulateAll locked).metric = statistics.metric + locked.effect := by
  funext k
  rw [Pi.add_apply, Statistics.accumulateAll, Locked.effect]
  induction locked.todo generalizing statistics with
  | nil => simp
  | cons a todo ih => rw [List.foldl_cons, ih, metric_accumulate, List.map_cons, List.sum_cons, add_assoc]

end Statistics

/-! ## Runs as sums -/

section Runs

variable {w : Writer} {enc : Encoding} {log : List ApmEvent} {s s' : Apm} {event : ApmEvent}

def Apm.sums (s : Apm) : Drain.State Locked ((Bytes × Bytes) × Bytes → Metric) :=
  { jobs := s.running, held := s.statistics.metric, taken := s.reports.map fun report => report.taken.metric }

def ApmEvent.drain : ApmEvent → Drain.Event Locked
  | posted m => .posted m.closure
  | locked l => .added l
  | reported .. => .drained

theorem step_of_apmStep (h : ApmStep w enc s event s') : Drain.Step Locked.effect s.sums event.drain s'.sums := by
  cases h with
  | posted m => exact .posted _ _
  | locked hrunning hrest =>
    have hstep : Drain.Step Locked.effect s.sums (.added _) _ := .added s.sums hrunning hrest
    simpa only [Apm.sums, ApmEvent.drain, metric_accumulateAll] using hstep
  | reported file time =>
    have hstep : Drain.Step Locked.effect s.sums .drained _ := .drained s.sums
    simpa only [Apm.sums, ApmEvent.drain, metric_empty, List.map_append, List.map_singleton, reportApmLogLocal]
      using hstep

/-- **The statistics** are sums that are drained. -/
theorem run_of_apmRun (h : ApmRun w enc log s) : Drain.Run Locked.effect (log.map ApmEvent.drain) s.sums := by
  induction h with
  | start =>
    rw [Apm.sums, metric_empty]
    exact .start
  | next _ hstep ih =>
    rw [List.map_append]
    exact ih.next (step_of_apmStep hstep)

theorem postedJobs_drain (log : List ApmEvent) :
    postedJobs (log.map ApmEvent.drain) = (measured log).map Measurement.closure := by
  rw [postedJobs, measured, List.filterMap_map, List.map_filterMap]
  refine List.filterMap_congr fun event _ => ?_
  cases event <;> rfl

end Runs

/-! ## Counts -/

/-- What is added to the count of a group under one lock. -/
def Locked.countOf (locked : Locked) (key : Bytes × Bytes) : Nat :=
  if locked.key = key then
    (locked.todo.map fun a => if a.metric = countName then (a.value * a.sample).toNat else 0).sum
  else 0

/-- What a measurement adds to the count of a group. -/
def countIn (key : Bytes × Bytes) (parts : List Locked) : Nat := (parts.map fun locked => locked.countOf key).sum

/-- The measurement has a count, and counts under its last lock only. -/
def Measurement.Counts : Measurement → Prop
  | ended _ _ added _ => countName ∉ added.map Prod.fst
  | perf _ _ _ count sample => count * sample ≠ 0
  | perfCounts _ _ _ => True

/-- The parts are of one group, and only the last one counts. -/
def CountsLast (parts : List Locked) : Prop :=
  ∃ init last, parts = init ++ [last] ∧ (∀ locked ∈ init, locked.key = last.key ∧ ∀ key, locked.countOf key = 0) ∧
    0 < last.countOf last.key

section Counts

variable {w : Writer} {enc : Encoding} {log : List ApmEvent} {s : Apm} {key : Bytes × Bytes} {parts : List Locked}

theorem map_fst_addMetric {metrics : List (Bytes × UInt64)} {name : Bytes} {value : UInt64} :
    ∀ m ∈ addMetric metrics name value, m.1 = name ∨ m.1 ∈ metrics.map Prod.fst := by
  intro m hm
  unfold addMetric at hm
  split at hm
  · obtain ⟨m', hm', rfl⟩ := List.mem_map.1 hm
    split
    · exact .inl rfl
    · exact .inr (List.mem_map_of_mem hm')
  · rcases List.mem_append.1 hm with hm | hm
    · exact .inr (List.mem_map_of_mem hm)
    · exact .inl (by rw [List.mem_singleton.1 hm])

/-- The count comes last. -/
theorem endMetrics_eq {added : List (Bytes × UInt64)} (cost : UInt64) (h : countName ∉ added.map Prod.fst) :
    endMetrics added cost = addMetric added (ascii "cost") cost ++ [(countName, 1)] ∧
      ∀ m ∈ addMetric added (ascii "cost") cost, m.1 ≠ countName := by
  have hnot : ∀ m ∈ addMetric added (ascii "cost") cost, m.1 ≠ countName := by
    intro m hm heq
    rcases map_fst_addMetric m hm with hcost | hin
    · exact absurd (heq.symm.trans hcost) (by decide)
    · exact h (heq ▸ hin)
  refine ⟨if_neg fun hin => ?_, hnot⟩
  obtain ⟨m, hm, heq⟩ := List.mem_map.1 hin
  exact hnot m hm heq

theorem countsLast_closure {m : Measurement} (h : m.Counts) : CountsLast m.closure := by
  cases m with
  | ended name id added cost =>
    obtain ⟨heq, hnot⟩ := endMetrics_eq cost h
    refine ⟨(addMetric added (ascii "cost") cost).map (Locked.one (name, id)), Locked.one (name, id) (countName, 1), ?_,
      fun locked hlocked => ?_, ?_⟩
    · rw [Measurement.closure, heq, List.map_append, List.map_singleton]
    · obtain ⟨metric, hmetric, rfl⟩ := List.mem_map.1 hlocked
      refine ⟨rfl, fun key => ?_⟩
      simp [Locked.countOf, Locked.one, hnot metric hmetric]
    · simp [Locked.countOf, Locked.one]
  | perf name id cost count sample =>
    refine ⟨[], _, rfl, fun locked hlocked => absurd hlocked List.not_mem_nil, ?_⟩
    have hpos : 0 < (count * sample).toNat := Nat.pos_of_ne_zero fun h0 => h (UInt64.toNat_inj.1 h0)
    simp only [Locked.countOf, if_pos, List.map_cons, List.sum_cons]
    omega
  | perfCounts name id counts =>
    refine ⟨[], _, rfl, fun locked hlocked => absurd hlocked List.not_mem_nil, ?_⟩
    have hone : ((1 : UInt64) * 1).toNat = 1 := rfl
    simp only [Locked.countOf, if_pos, List.map_cons, List.sum_cons, hone]
    omega

/-- The count of some metrics together, in 64 bits. -/
theorem toNat_sum_sum (metrics : List Metric) :
    metrics.sum.sum.toNat = (metrics.map fun metric => metric.sum.toNat).sum % 2 ^ 64 := by
  induction metrics with
  | nil => rfl
  | cons metric metrics ih =>
    rw [List.sum_cons, add_eq, UInt64.toNat_add, ih, List.map_cons, List.sum_cons, Nat.add_mod_mod]

theorem sumOf_apply (parts : List Locked) (k : (Bytes × Bytes) × Bytes) :
    sumOf Locked.effect parts k = (parts.map fun locked => locked.effect k).sum := by
  induction parts with
  | nil => rfl
  | cons locked parts ih =>
    rw [List.map_cons, List.sum_cons, ← ih]
    rfl

/-- Sums of natural numbers that agree in 64 bits. -/
theorem sum_mod_congr {α : Type} {l : List α} {f g : α → Nat} (h : ∀ a ∈ l, f a % 2 ^ 64 = g a % 2 ^ 64) :
    (l.map f).sum % 2 ^ 64 = (l.map g).sum % 2 ^ 64 := by
  induction l with
  | nil => rfl
  | cons a l ih =>
    have ha := h a List.mem_cons_self
    have hl := ih fun b hb => h b (List.mem_cons_of_mem _ hb)
    rw [List.map_cons, List.map_cons, List.sum_cons, List.sum_cons, Nat.add_mod, ha, hl, ← Nat.add_mod]

theorem toNat_effect (locked : Locked) (key : Bytes × Bytes) :
    (locked.effect (key, countName)).sum.toNat = locked.countOf key % 2 ^ 64 := by
  rw [Locked.effect, toNat_sum_sum, List.map_map, Locked.countOf]
  by_cases hkey : locked.key = key
  · rw [if_pos hkey]
    refine sum_mod_congr fun a _ => ?_
    by_cases hname : a.metric = countName
    · simp [hkey, hname, Accumulation.amount]
    · simp [hname, zero_eq]
  · rw [if_neg hkey]
    have hzero : ∀ a ∈ locked.todo, (if (locked.key, a.metric) = (key, countName) then a.amount else 0).sum.toNat = 0 :=
      fun a _ => by simp [hkey, zero_eq]
    rw [List.sum_eq_zero fun x hx => ?_]
    obtain ⟨a, ha, rfl⟩ := List.mem_map.1 hx
    exact hzero a ha

theorem toNat_sumOf (parts : List Locked) (key : Bytes × Bytes) :
    (sumOf Locked.effect parts (key, countName)).sum.toNat = countIn key parts % 2 ^ 64 := by
  rw [sumOf_apply, toNat_sum_sum, List.map_map, countIn]
  exact sum_mod_congr fun locked _ => by rw [Function.comp_apply, toNat_effect, Nat.mod_mod]

theorem countIn_append (parts parts' : List Locked) :
    countIn key (parts ++ parts') = countIn key parts + countIn key parts' := by
  rw [countIn, List.map_append, List.sum_append]
  rfl

/-- A sum at a group and a metric. -/
theorem sum_apply (sums : List ((Bytes × Bytes) × Bytes → Metric)) (k : (Bytes × Bytes) × Bytes) :
    sums.sum k = (sums.map fun f => f k).sum := by
  induction sums with
  | nil => rfl
  | cons f sums ih => rw [List.sum_cons, Pi.add_apply, ih, List.map_cons, List.sum_cons]

/-- The jobs of a run. -/
theorem parts_of_apmRun (h : ApmRun w enc log s) :
    s.running.map Job.parts = (measured log).map Measurement.closure := by
  rw [← postedJobs_drain]
  exact parts_of_run (run_of_apmRun h)

/-- **The count of a group** is what the closures have added since the last report. -/
theorem toNat_count (h : ApmRun w enc log s) (key : Bytes × Bytes) :
    (s.statistics.metric (key, countName)).sum.toNat =
      (s.running.map fun job => countIn key job.since).sum % 2 ^ 64 := by
  have hheld := congrFun (held_of_run (run_of_apmRun h)) (key, countName)
  change s.statistics.metric _ = _ at hheld
  rw [hheld, sum_apply, List.map_map, toNat_sum_sum, List.map_map]
  exact sum_mod_congr fun job _ => by
    simp only [Function.comp_apply]
    rw [toNat_sumOf, Nat.mod_mod]

/-- A closure that has done something for a group since the last report has counted there iff it is at its end. -/
theorem countIn_since {job : Job Locked} (h : CountsLast job.parts) (key : Bytes × Bytes) :
    countIn key job.since = 0 ↔ ((∃ locked ∈ job.since, locked.key = key) → job.rest ≠ []) := by
  obtain ⟨init, last, heq, hinit, hlast⟩ := h
  have hmem : ∀ locked ∈ job.since, locked ∈ init ∨ locked = last := fun locked hlocked => by
    have hin : locked ∈ job.parts := List.mem_append_left _ (List.mem_append_right _ hlocked)
    rw [heq, List.mem_append, List.mem_singleton] at hin
    exact hin
  have hkeys : ∀ locked ∈ job.since, locked.key = last.key := fun locked hlocked =>
    (hmem locked hlocked).elim (fun hin => (hinit locked hin).1) fun h => h ▸ rfl
  rcases List.eq_nil_or_concat job.rest with hrest | ⟨rest, x, hrest⟩
  · rcases List.eq_nil_or_concat job.since with hsince | ⟨since, x, hsince⟩
    · simp [hsince, countIn]
    · -- the last part is the last of those that were done
      have hx : x = last := by
        rw [Job.parts, hrest, List.append_nil, hsince, List.concat_eq_append, ← List.append_assoc] at heq
        exact List.head_eq_of_cons_eq (List.append_inj' heq rfl).2
      subst hx
      have hcount : countIn key job.since = countIn key since + x.countOf key := by
        rw [hsince, List.concat_eq_append, countIn_append]
        simp [countIn]
      by_cases hkey : x.key = key
      · subst hkey
        have hin : x ∈ job.since := by simp [hsince]
        refine iff_of_false (by omega) fun himp => himp ⟨x, hin, rfl⟩ hrest
      · have hother : ∀ locked ∈ job.since, locked.key ≠ key := fun locked hlocked hthis =>
          hkey ((hkeys locked hlocked).symm.trans hthis)
        refine iff_of_true ?_ fun hsome => ?_
        · rw [countIn]
          refine List.sum_eq_zero fun n hn => ?_
          obtain ⟨locked, hlocked, rfl⟩ := List.mem_map.1 hn
          exact if_neg (hother locked hlocked)
        · obtain ⟨locked, hlocked, hthis⟩ := hsome
          exact absurd hthis (hother locked hlocked)
  · -- the last part is still to be done
    refine iff_of_true ?_ fun _ => by simp [hrest]
    rw [Job.parts, hrest, List.concat_eq_append, ← List.append_assoc] at heq
    have hsub := (List.append_inj' heq rfl).1
    rw [countIn]
    refine List.sum_eq_zero fun n hn => ?_
    obtain ⟨locked, hlocked, rfl⟩ := List.mem_map.1 hn
    refine (hinit locked ?_).2 key
    rw [← hsub]
    exact List.mem_append_left _ (List.mem_append_right _ hlocked)

end Counts

/-! ## What the reports write -/

/-- A metric of a line. -/
def Line.metric (line : Line) (name : Bytes) : Metric :=
  ((line.metrics.find? fun m => m.1 = name).map fun m => m.2.1).getD 0

/-- The line of a group in the file of a report. What of a report that ends the process is in its file is not known, and
none of it counts. -/
def Report.line? (report : Report) (key : Bytes × Bytes) : Option Line :=
  if report.outcome = .written then (report.taken.lookup key).bind reportLine else none

/-- What a report writes of a metric. -/
def Report.written (report : Report) (key : Bytes × Bytes) (name : Bytes) : Metric :=
  match report.line? key with
  | some line => line.metric name
  | none => 0

/-- What it leaves out. -/
def Report.leftOut (report : Report) (key : Bytes × Bytes) (name : Bytes) : Metric :=
  match report.line? key with
  | some _ => 0
  | none => report.taken.metric (key, name)

section Reports

variable {w : Writer} {enc : Encoding} {key : Bytes × Bytes} {name : Bytes} {statistics : Statistics}

theorem find_entries (count : UInt64) (hname : name ≠ countName) (entries : List (Sigma fun _ : Bytes => Metric)) :
    ((((entries.filter fun metric => metric.1 ≠ countName).map fun metric =>
      (metric.1, metric.2, metric.2.sum / count)).find? fun m => m.1 = name).map fun m => m.2.1) =
        entries.dlookup name := by
  induction entries with
  | nil => rfl
  | cons metric entries ih =>
    obtain ⟨n, metric⟩ := metric
    by_cases hn : n = name
    · subst hn
      simp [hname]
    · rw [List.dlookup_cons_ne _ _ (Ne.symm hn), ← ih]
      by_cases hcount : n = countName
      · simp [hcount]
      · simp [hcount, hn]

/-- A line has the metrics of its group. -/
theorem line_metric {metrics : Metrics} {line : Line} (h : reportLine metrics = some line) (hname : name ≠ countName) :
    line.metric name = (metrics.lookup name).getD 0 := by
  rw [reportLine] at h
  split at h
  · cases h
  · cases h
    rw [Line.metric, find_entries _ hname]
    rfl

/-- **A report** writes what it took, or leaves it out. -/
theorem metric_eq (report : Report) (key : Bytes × Bytes) (hname : name ≠ countName) :
    report.taken.metric (key, name) = report.written key name + report.leftOut key name := by
  rw [Report.written, Report.leftOut]
  cases hline : report.line? key with
  | none => exact (zero_add _).symm
  | some line =>
    rw [Report.line?] at hline
    obtain ⟨-, hline⟩ := Option.ite_none_right_eq_some.1 hline
    obtain ⟨metrics, hmetrics, hline⟩ := Option.bind_eq_some_iff.1 hline
    simp only [add_zero]
    rw [line_metric hline hname, Statistics.metric, hmetrics]
    rfl

theorem reportLine_eq_none_iff : (statistics.lookup key).bind reportLine = none ↔
    (statistics.metric (key, countName)).sum.toNat = 0 := by
  rw [Statistics.metric]
  cases statistics.lookup key with
  | none => exact iff_of_true rfl rfl
  | some metrics =>
    simp only [Option.bind_some, reportLine]
    split
    · rename_i hzero
      exact iff_of_true rfl (congrArg UInt64.toNat hzero)
    · rename_i hne
      exact iff_of_false (by simp) fun hzero => hne (UInt64.toNat_inj.1 hzero)

/-- A report that takes something writes its lines iff its file opens and no group ends it. -/
theorem outcome_written_iff {file : ReportFile} {time : Bytes} (hsome : statistics.entries ≠ []) :
    (reportApmLogLocal w enc statistics file time).outcome = .written ↔
      file = .opened ∧ ∀ group ∈ statistics.entries, reportGroup w enc time group.1.2 group.2 ≠ none := by
  simp only [reportApmLogLocal, if_neg hsome]
  cases file with
  | opened =>
    simp only [ite_eq_left_iff, reduceCtorEq, imp_false, not_not, List.all_eq_true, Option.isSome_iff_ne_none, true_and]
  | refused => exact iff_of_false nofun nofun
  | threw => exact iff_of_false nofun nofun

/-- A report leaves a group out iff it does not write its lines, or the group has no count. -/
theorem line?_eq_none_iff {file : ReportFile} {time : Bytes} :
    (reportApmLogLocal w enc statistics file time).line? key = none ↔
      file ≠ .opened ∨ (∃ group ∈ statistics.entries, reportGroup w enc time group.1.2 group.2 = none) ∨
        (statistics.lookup key).bind reportLine = none := by
  rw [Report.line?]
  by_cases hsome : statistics.entries = []
  · -- there is no group
    have hempty : statistics = ∅ := AList.ext hsome
    have hnone : (statistics.lookup key).bind reportLine = none := by rw [hempty, AList.lookup_empty, Option.bind_none]
    exact iff_of_true (ite_eq_right_iff.2 fun _ => hnone) (.inr (.inr hnone))
  by_cases hwritten : (reportApmLogLocal w enc statistics file time).outcome = .written
  · obtain ⟨hopened, hgroups⟩ := (outcome_written_iff hsome).1 hwritten
    rw [if_pos hwritten]
    refine ⟨fun hnone => .inr (.inr hnone), fun hcases => ?_⟩
    rcases hcases with hfile | ⟨group, hgroup, hended⟩ | hnone
    · exact absurd hopened hfile
    · exact absurd hended (hgroups group hgroup)
    · exact hnone
  · rw [if_neg hwritten]
    refine iff_of_true rfl ?_
    rw [outcome_written_iff hsome, not_and_or] at hwritten
    rcases hwritten with hfile | hgroups
    · exact .inl hfile
    · push Not at hgroups
      exact .inr (.inl hgroups)

end Reports

/-- **Conserved**: in every run what the reports wrote of a metric, what they left out, what is in the statistics and
what the closures have still to add are together what was measured. -/
theorem metrics_conserved (w : Writer) (enc : Encoding) (log : List ApmEvent) (s : Apm) (h : ApmRun w enc log s)
    (key : Bytes × Bytes) (name : Bytes) (hname : name ≠ countName) :
    (s.reports.map fun report => report.written key name).sum +
      (s.reports.map fun report => report.leftOut key name).sum + s.statistics.metric (key, name) +
        (s.running.map fun job => sumOf Locked.effect job.rest (key, name)).sum =
          ((measured log).map fun m => sumOf Locked.effect m.closure (key, name)).sum := by
  have hall := congrFun (posted_of_run (run_of_apmRun h)) (key, name)
  rw [postedJobs_drain] at hall
  simp only [Apm.sums, Pi.add_apply, sum_apply, List.map_map] at hall
  rw [← List.sum_map_add, List.map_congr_left fun report _ => (metric_eq report key hname).symm]
  exact hall

/-- A measurement that is cut in two by a report, and one that is not. -/
def oneCut : List ApmEvent :=
  [.posted (.ended [110] [123, 125] [] 5), .posted (.perf [110] [123, 125] 7 1 1),
    .locked (.one ([110], [123, 125]) (ascii "cost", 5)),
    .locked { key := ([110], [123, 125])
              todo := [{ metric := countName, value := 1 }, { metric := ascii "cost", value := 7 }] },
    .reported .opened [], .locked (.one ([110], [123, 125]) (countName, 1))]

theorem run_half : ∃ s, ApmRun boostWriter utf8 (oneCut.take 3) s ∧
    ∀ job ∈ s.running, (∃ locked ∈ job.since, locked.key = ([110], [123, 125])) → job.rest ≠ [] := by
  have hended := (@ApmRun.start boostWriter utf8).next (.posted {} (.ended [110] [123, 125] [] 5) (by decide))
  have hperf := hended.next (.posted _ (.perf [110] [123, 125] 7 1 1) (by decide))
  refine ⟨_, hperf.next (.locked _ (show _ = [] ++ _ :: [_] from rfl) rfl), fun job hjob => ?_⟩
  simp only [List.nil_append, List.mem_cons, List.not_mem_nil, or_false] at hjob
  rcases hjob with rfl | rfl
  · exact fun _ => List.cons_ne_nil _ _
  · rintro ⟨locked, hlocked, -⟩
    cases hlocked

theorem run_cut : ∃ s, ApmRun boostWriter utf8 oneCut s := by
  have halive : Apm.Alive {} := fun report hreport => absurd hreport List.not_mem_nil
  have hended := (@ApmRun.start boostWriter utf8).next (.posted {} (.ended [110] [123, 125] [] 5) (by decide))
  have hperf := hended.next (.posted _ (.perf [110] [123, 125] 7 1 1) (by decide))
  have hcost := hperf.next (.locked _ (show _ = [] ++ _ :: [_] from rfl) rfl)
  have hcounted := hcost.next (.locked _ (show _ = [_] ++ _ :: [] from rfl) rfl)
  have hreported := hcounted.next (.reported _ .opened [] halive)
  exact ⟨_, hreported.next (.locked _ (show _ = [] ++ _ :: [_] from rfl) rfl)⟩

theorem metrics_conserved_at : ∃ s, ApmRun boostWriter utf8 oneCut s ∧
    (s.reports.map fun report => report.written ([110], [123, 125]) (ascii "cost")).sum +
      (s.reports.map fun report => report.leftOut ([110], [123, 125]) (ascii "cost")).sum +
        s.statistics.metric (([110], [123, 125]), ascii "cost") +
          (s.running.map fun job => sumOf Locked.effect job.rest (([110], [123, 125]), ascii "cost")).sum =
      { sum := 12, min := 5, max := 7 } := by
  obtain ⟨s, hrun⟩ := run_cut
  refine ⟨s, hrun, (metrics_conserved boostWriter utf8 oneCut s hrun ([110], [123, 125]) (ascii "cost") ?_).trans ?_⟩
  · decide
  · decide

/-- **Left out**: when every measurement counts and the counts of a group stay below 2^64, a report leaves the group out
iff its file does not open, or an exception ends it and the process, or every closure that has added to the group since
the last report is in the middle. -/
theorem left_out_iff (w : Writer) (enc : Encoding) (log : List ApmEvent) (s : Apm) (h : ApmRun w enc log s)
    (hcounts : ∀ m ∈ measured log, m.Counts) (key : Bytes × Bytes)
    (hfit : ((measured log).map fun m => countIn key m.closure).sum < 2 ^ 64) (file : ReportFile) (time : Bytes) :
    (reportApmLogLocal w enc s.statistics file time).line? key = none ↔
      file ≠ .opened ∨
      (∃ group ∈ s.statistics.entries, reportGroup w enc time group.1.2 group.2 = none) ∨
      ∀ job ∈ s.running, (∃ locked ∈ job.since, locked.key = key) → job.rest ≠ [] := by
  have hparts := parts_of_apmRun h
  have hlast : ∀ job ∈ s.running, CountsLast job.parts := by
    intro job hjob
    have hin : job.parts ∈ (measured log).map Measurement.closure := hparts ▸ List.mem_map_of_mem hjob
    obtain ⟨m, hm, heq⟩ := List.mem_map.1 hin
    exact heq ▸ countsLast_closure (hcounts m hm)
  have hle : (s.running.map fun job => countIn key job.since).sum < 2 ^ 64 := by
    refine Nat.lt_of_le_of_lt ?_ hfit
    calc (s.running.map fun job => countIn key job.since).sum
        ≤ (s.running.map fun job => countIn key job.parts).sum := by
          refine List.sum_le_sum fun job _ => ?_
          rw [Job.parts, countIn_append, countIn_append]
          omega
      _ = ((s.running.map Job.parts).map (countIn key)).sum := by rw [List.map_map]; rfl
      _ = ((measured log).map fun m => countIn key m.closure).sum := by rw [hparts, List.map_map]; rfl
  have hcount : (s.statistics.lookup key).bind reportLine = none ↔
      ∀ job ∈ s.running, (∃ locked ∈ job.since, locked.key = key) → job.rest ≠ [] := by
    rw [reportLine_eq_none_iff, toNat_count h, Nat.mod_eq_of_lt hle, List.sum_eq_zero_iff]
    constructor
    · exact fun hzero job hjob => (countIn_since (hlast job hjob) key).1 (hzero _ (List.mem_map_of_mem hjob))
    · intro hmiddle n hn
      obtain ⟨job, hjob, rfl⟩ := List.mem_map.1 hn
      exact (countIn_since (hlast job hjob) key).2 (hmiddle job hjob)
  rw [line?_eq_none_iff, hcount]

theorem left_out_iff_at : ∃ s, ApmRun boostWriter utf8 (oneCut.take 3) s ∧
    (reportApmLogLocal boostWriter utf8 s.statistics .opened []).line? ([110], [123, 125]) = none := by
  obtain ⟨s, hrun, hmiddle⟩ := run_half
  refine ⟨s, hrun, (left_out_iff boostWriter utf8 _ s hrun ?_ _ (by decide) .opened []).2 (.inr (.inr hmiddle))⟩
  intro m hm
  have hcases : m = .ended [110] [123, 125] [] 5 ∨ m = .perf [110] [123, 125] 7 1 1 := by
    simpa [measured, oneCut] using hm
  rcases hcases with rfl | rfl
  · exact List.not_mem_nil
  · exact (by decide : (1 : UInt64) * 1 ≠ 0)

end StDns.Log
