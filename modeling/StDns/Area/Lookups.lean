import StDns.Area.NetCaches
import Mathlib.Data.Finset.Erase
import Mathlib.Data.Finset.Insert
import Mathlib.Data.List.Count

/-!
# Lookups over the net

`async_load_ip_info_from_net` posts a closure to the thread of the manager. It puts the address into `ips`, unless it is
there, and waits for a timer that posts the lookup; the lookup takes the address out at its end. The limiter gives each
lookup the time that its timer is for. In every run an address is in `ips` iff one lookup of it is on its way, and the
times are apart by what the limiter adds (`lookups_spaced`).
-/

namespace StDns.Area

open Lib

/-! ## The closures -/

/-- The constant `NET_QPS`. -/
def netQps : Nat := 3

/-- A closure that the thread has not run yet: the one of a call, or a lookup. -/
inductive Posted where
  | call (ip : UInt32)
  | lookup (ip : UInt32)
  deriving DecidableEq

/-- The lookup that runs, and whether it is skipped because the area is in the cache. -/
structure Running where
  ip : UInt32
  skipped : Bool
  deriving DecidableEq

/-- What the calls and the thread share; times are milliseconds. -/
structure Lookups where
  now : Nat
  lastLoadIpInfoTime : Nat
  ips : Finset UInt32 := ∅
  posted : List Posted := []
  timers : List UInt32 := []
  running : Option Running := none
  netCaches : NetCaches := ∅

namespace Lookups

/-- The next `last_load_ip_info_time`. -/
def nextTime (s : Lookups) : Nat :=
  if s.lastLoadIpInfoTime ≤ s.now then s.now + 1000 / netQps else s.lastLoadIpInfoTime + 1000 / netQps

/-- The closure of a call; `posted` is what is left besides. -/
def handle (s : Lookups) (ip : UInt32) (posted : List Posted) : Lookups :=
  if ip ∈ s.ips then { s with posted := posted }
  else
    let time := s.nextTime
    let s := { s with ips := insert ip s.ips, lastLoadIpInfoTime := time }
    if time > s.now then { s with posted := posted, timers := s.timers ++ [ip] }
    else { s with posted := posted ++ [.lookup ip] }

/-- A lookup begins: the cache is looked at. -/
def begin (s : Lookups) (ip : UInt32) (posted : List Posted) : Lookups :=
  { s with posted := posted, running := some { ip := ip, skipped := (s.netCaches.lookup ip).getD [] ≠ [] } }

/-- A lookup ends; `areaCode` is what `load_ip_info` found, and is empty when it failed. -/
def finish (s : Lookups) (running : Running) (areaCode : Bytes) : Lookups :=
  { s with
    running := none
    ips := s.ips.erase running.ip
    netCaches :=
      if running.skipped = true ∨ areaCode = [] then s.netCaches else s.netCaches.insert running.ip areaCode }

end Lookups

/-! ## Runs -/

inductive LookupEvent where
  | passed
  | synced
  | called (ip : UInt32)
  | admitted (ip : UInt32) (time : Nat)
  | dropped (ip : UInt32)
  | expired (ip : UInt32)
  | begun (ip : UInt32)
  | finished (ip : UInt32)
  deriving DecidableEq

/-- Time passes, the cache is replaced, or an address is asked for, at any time; one of the closures or handlers that
are due runs, whichever, when none is running; or the lookup that is running ends. -/
inductive LookupStep : Lookups → LookupEvent → Lookups → Prop
  | passed (s : Lookups) {now : Nat} : s.now ≤ now → LookupStep s .passed { s with now := now }
  | synced (s : Lookups) (netCaches : NetCaches) : LookupStep s .synced { s with netCaches := netCaches }
  | called (s : Lookups) (ip : UInt32) : LookupStep s (.called ip) { s with posted := s.posted ++ [.call ip] }
  | admitted (s : Lookups) {before after : List Posted} {ip : UInt32} : s.running = none →
    s.posted = before ++ .call ip :: after → ip ∉ s.ips →
    LookupStep s (.admitted ip s.nextTime) (s.handle ip (before ++ after))
  | dropped (s : Lookups) {before after : List Posted} {ip : UInt32} : s.running = none →
    s.posted = before ++ .call ip :: after → ip ∈ s.ips → LookupStep s (.dropped ip) (s.handle ip (before ++ after))
  | expired (s : Lookups) {before after : List UInt32} {ip : UInt32} : s.running = none →
    s.timers = before ++ ip :: after →
    LookupStep s (.expired ip) { s with timers := before ++ after, posted := s.posted ++ [.lookup ip] }
  | begun (s : Lookups) {before after : List Posted} {ip : UInt32} : s.running = none →
    s.posted = before ++ .lookup ip :: after → LookupStep s (.begun ip) (s.begin ip (before ++ after))
  | finished (s : Lookups) {running : Running} (areaCode : Bytes) : s.running = some running →
    LookupStep s (.finished running.ip) (s.finish running areaCode)

/-- The runs of a manager that is made at some time. -/
inductive LookupRun (made : Nat) : List LookupEvent → Lookups → Prop
  | start : LookupRun made [] { now := made, lastLoadIpInfoTime := made }
  | next {log : List LookupEvent} {s s' : Lookups} {event : LookupEvent} : LookupRun made log s →
    LookupStep s event s' → LookupRun made (log ++ [event]) s'

/-- The lookups of an address that wait for their timer, are posted or run. -/
def Lookups.underway (s : Lookups) (ip : UInt32) : Nat :=
  s.timers.count ip + s.posted.count (.lookup ip) + (s.running.filter (·.ip = ip)).toList.length

/-- The time that the limiter gives a lookup. -/
def LookupEvent.time? : LookupEvent → Option Nat
  | .admitted _ time => some time
  | _ => none

/-- The times that the lookups are given, in order. -/
def times (log : List LookupEvent) : List Nat := log.filterMap LookupEvent.time?

/-! ## What a run keeps -/

section Runs

variable {made : Nat} {log : List LookupEvent} {s s' : Lookups} {event : LookupEvent} {ip : UInt32}

/-- The time is always in the future. -/
theorem nextTime_gt (s : Lookups) : s.now < s.nextTime := by
  unfold Lookups.nextTime netQps
  split <;> omega

theorem nextTime_ge (s : Lookups) : s.lastLoadIpInfoTime + 1000 / netQps ≤ s.nextTime := by
  unfold Lookups.nextTime
  split
  · exact Nat.add_le_add_right ‹_› _
  · exact Nat.le_refl _

/-- An address that is not in `ips` gets a timer. -/
theorem handle_new (hip : ip ∉ s.ips) (posted : List Posted) : s.handle ip posted = { s with
    ips := insert ip s.ips
    lastLoadIpInfoTime := s.nextTime
    posted := posted
    timers := s.timers ++ [ip] } := by
  rw [Lookups.handle, if_neg hip]
  exact if_pos (nextTime_gt s)

theorem handle_old (hip : ip ∈ s.ips) (posted : List Posted) : s.handle ip posted = { s with posted := posted } :=
  if_pos hip

/-- The limiter is at the last time that was given, or before. -/
theorem time_step (hstep : LookupStep s event s') :
    s.lastLoadIpInfoTime ≤ s'.lastLoadIpInfoTime ∧ ∀ time, event.time? = some time →
      s.lastLoadIpInfoTime + 1000 / netQps ≤ time ∧ time = s'.lastLoadIpInfoTime := by
  cases hstep with
  | admitted _ _ hip =>
    rw [handle_new hip]
    refine ⟨(Nat.le_add_right _ _).trans (nextTime_ge s), ?_⟩
    rintro time ⟨⟩
    exact ⟨nextTime_ge s, rfl⟩
  | dropped _ _ hip =>
    rw [handle_old hip]
    exact ⟨Nat.le_refl _, nofun⟩
  | passed | synced | called | expired | begun | finished => exact ⟨Nat.le_refl _, nofun⟩

/-- The times are apart, and the limiter is behind none of them. -/
theorem times_of_run (h : LookupRun made log s) : (times log).Pairwise (fun a b => a + 1000 / netQps ≤ b) ∧
    ∀ time ∈ times log, time ≤ s.lastLoadIpInfoTime := by
  induction h with
  | start => exact ⟨List.Pairwise.nil, nofun⟩
  | @next log s s' event _ hstep ih =>
    obtain ⟨hpairs, hlast⟩ := ih
    obtain ⟨hmono, htime⟩ := time_step hstep
    rw [times, List.filterMap_append]
    cases hevent : event.time? with
    | none =>
      simp only [List.filterMap_cons, hevent, List.filterMap_nil, List.append_nil]
      exact ⟨hpairs, fun time hmem => (hlast time hmem).trans hmono⟩
    | some time =>
      obtain ⟨hgap, hnow⟩ := htime time hevent
      simp only [List.filterMap_cons, hevent, List.filterMap_nil]
      constructor
      · rw [List.pairwise_append]
        refine ⟨hpairs, List.pairwise_singleton _ _, fun a ha b hb => ?_⟩
        rw [List.mem_singleton.1 hb]
        exact (Nat.add_le_add_right (hlast a ha) _).trans hgap
      · intro a ha
        rcases List.mem_append.1 ha with ha | ha
        · exact (hlast a ha).trans hmono
        · rw [List.mem_singleton.1 ha, hnow]

/-- One lookup of each address in `ips` is on its way, and none of the others. -/
def Once (s : Lookups) : Prop := ∀ ip, s.underway ip = if ip ∈ s.ips then 1 else 0

/-- A closure of a call that goes is no lookup. -/
theorem count_lookup_call {before after : List Posted} {i : UInt32} (h : s.posted = before ++ .call i :: after) :
    s.posted.count (.lookup ip) = (before ++ after).count (.lookup ip) := by
  rw [h, List.count_append, List.count_append, List.count_cons_of_ne (by simp)]

theorem Once.admitted (h : Once s) {before after : List Posted} (hposted : s.posted = before ++ .call ip :: after)
    (hip : ip ∉ s.ips) : Once (s.handle ip (before ++ after)) := by
  intro ip'
  have hold := h ip'
  rw [Lookups.underway, count_lookup_call hposted] at hold
  rw [handle_new hip]
  simp only [Lookups.underway, List.count_append, List.count_singleton, Finset.mem_insert, beq_iff_eq] at hold ⊢
  by_cases hsame : ip' = ip
  · subst hsame
    rw [if_neg hip] at hold
    simp only [if_true, true_or]
    omega
  · simp only [hsame, Ne.symm hsame, if_false, false_or]
    omega

theorem Once.dropped (h : Once s) {before after : List Posted} (hposted : s.posted = before ++ .call ip :: after)
    (hip : ip ∈ s.ips) : Once (s.handle ip (before ++ after)) := by
  intro ip'
  have hold := h ip'
  rw [Lookups.underway, count_lookup_call hposted] at hold
  rw [handle_old hip]
  exact hold

theorem Once.expired (h : Once s) {before after : List UInt32} (htimers : s.timers = before ++ ip :: after) :
    Once { s with timers := before ++ after, posted := s.posted ++ [.lookup ip] } := by
  intro ip'
  have hold := h ip'
  simp only [Lookups.underway, htimers, List.count_append, List.count_cons, List.count_nil, beq_iff_eq,
    Posted.lookup.injEq] at hold ⊢
  omega

theorem Once.begun (h : Once s) (hidle : s.running = none) {before after : List Posted}
    (hposted : s.posted = before ++ .lookup ip :: after) : Once (s.begin ip (before ++ after)) := by
  intro ip'
  refine Eq.trans ?_ (h ip')
  simp only [Lookups.begin, Lookups.underway, hposted, hidle, List.count_append, List.count_cons, beq_iff_eq,
    Posted.lookup.injEq, Option.filter_none, Option.toList_none, List.length_nil, Option.filter_some,
    decide_eq_true_eq]
  by_cases hsame : ip = ip'
  · simp only [hsame, if_true, Option.toList_some, List.length_singleton]
    omega
  · simp only [hsame, if_false, Option.toList_none, List.length_nil]
    omega

theorem Once.finished (h : Once s) {running : Running} (hrunning : s.running = some running) (areaCode : Bytes) :
    Once (s.finish running areaCode) := by
  intro ip'
  have hold := h ip'
  simp only [Lookups.finish, Lookups.underway, hrunning, Option.filter_none, Option.toList_none, List.length_nil,
    Option.filter_some, decide_eq_true_eq, Finset.mem_erase] at hold ⊢
  by_cases hsame : running.ip = ip'
  · simp only [hsame, if_true, Option.toList_some, List.length_singleton, ne_eq, not_true_eq_false, false_and,
      if_false] at hold ⊢
    split at hold <;> omega
  · simp only [hsame, Ne.symm hsame, if_false, Option.toList_none, List.length_nil, ne_eq, not_false_eq_true,
      true_and] at hold ⊢
    exact hold

theorem Once.step (h : Once s) (hstep : LookupStep s event s') : Once s' := by
  cases hstep with
  | passed | synced => exact h
  | called i =>
    intro ip
    have hold := h ip
    rw [Lookups.underway] at hold ⊢
    rwa [List.count_append, List.count_singleton, if_neg (by simp), Nat.add_zero]
  | admitted _ hposted hip => exact h.admitted hposted hip
  | dropped _ hposted hip => exact h.dropped hposted hip
  | expired _ htimers => exact h.expired htimers
  | begun hidle hposted => exact h.begun hidle hposted
  | finished areaCode hrunning => exact h.finished hrunning areaCode

theorem once_of_run (h : LookupRun made log s) : Once s := by
  induction h with
  | start => exact fun _ => rfl
  | next _ hstep ih => exact ih.step hstep

end Runs

/-- **Every run**: an address is in `ips` iff a lookup of it is on its way, which is then the only one, and the times
that lookups are given increase by at least what the limiter adds. -/
theorem lookups_spaced (made : Nat) (log : List LookupEvent) (s : Lookups) (h : LookupRun made log s) :
    (∀ ip, s.underway ip = if ip ∈ s.ips then 1 else 0) ∧
      (times log).Pairwise fun a b => a < b ∧ a + 1000 / netQps ≤ b := by
  refine ⟨once_of_run h, (times_of_run h).1.imp fun hgap => ⟨?_, hgap⟩⟩
  exact Nat.lt_of_lt_of_le (Nat.lt_add_of_pos_right (by decide)) hgap

/-- Two addresses are asked for at once, and one of them again while the lookups wait. -/
theorem lookups_spaced_at : ∃ (log : List LookupEvent) (s : Lookups), times log = [1333, 1666] ∧
    (∀ ip, s.underway ip = if ip ∈ s.ips then 1 else 0) ∧
      (times log).Pairwise fun a b => a < b ∧ a + 1000 / netQps ≤ b := by
  have asked : LookupRun 1000 _ _ := ((LookupRun.start.next (.called _ 1)).next (.called _ 2)).next (.called _ 1)
  have first := asked.next (@LookupStep.admitted _ [] [.call 2, .call 1] 1 rfl rfl (by decide))
  have second := first.next (@LookupStep.admitted _ [] [.call 1] 2 rfl rfl (by decide))
  have again := second.next (@LookupStep.dropped _ [] [] 1 rfl rfl (by decide))
  exact ⟨_, _, rfl, lookups_spaced 1000 _ _ again⟩

end StDns.Area
