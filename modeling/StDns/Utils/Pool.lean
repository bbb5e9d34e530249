import Mathlib.Algebra.BigOperators.Group.Finset.Basic
import Mathlib.Algebra.Order.Group.Multiset
import Mathlib.Tactic.Abel

/-!
# The memory pools

`pmalloc` takes a chunk of the pool for the size that is asked, `pfree` puts a chunk into the pool for the size it is
given, and two counters tell what has been taken and what has been put back. `leak_size` is the size of the chunks that
are held, after every operation of a run, iff each `pfree` puts back a chunk that is held, into the pool it is of; then
no chunk is given twice, and each has the room that was asked for (`leakSize_exact_iff`).
-/

namespace StDns.Utils

/-! ## The source -/

/-- The sizes of the chunks, pool by pool. -/
def chunkSizes : List Nat := [8, 1024, 2048, 4096, 16384]

/-- The branch of `pmalloc` and of `pfree`; nothing when they throw. -/
def chunkSize (size : Nat) : Option Nat := chunkSizes.find? fun c => size ≤ c

/-- A chunk: where it is, and how much memory there is. -/
structure Chunk where
  address : Nat
  room : Nat
  deriving DecidableEq

structure Pools where
  free : Nat → List Chunk := fun _ => []
  made : Nat := 0
  freeNum : UInt64 := 0
  mallocNum : UInt64 := 0

/-- `leak_size`. -/
def Pools.leakSize (s : Pools) : UInt64 := s.mallocNum - s.freeNum

inductive PoolEvent where
  | malloc (size : Nat) (chunk : Chunk) (capacity : Nat)
  | free (chunk : Chunk) (size : Nat)
  | threw (size : Nat)

/-- `pmalloc` gives a free chunk of the pool, or one that the pool makes; `pfree` takes what it is given. -/
inductive PoolStep : Pools → PoolEvent → Pools → Prop
  | reused (s : Pools) {size c : Nat} {before after : List Chunk} {chunk : Chunk} : chunkSize size = some c →
    s.free c = before ++ chunk :: after →
    PoolStep s (.malloc size chunk c)
      { s with free := Function.update s.free c (before ++ after), mallocNum := s.mallocNum + UInt64.ofNat c }
  | made (s : Pools) {size c : Nat} : chunkSize size = some c →
    PoolStep s (.malloc size ⟨s.made, c⟩ c)
      { s with made := s.made + 1, mallocNum := s.mallocNum + UInt64.ofNat c }
  | freed (s : Pools) {size c : Nat} {chunk : Chunk} : chunkSize size = some c →
    PoolStep s (.free chunk size)
      { s with free := Function.update s.free c (chunk :: s.free c), freeNum := s.freeNum + UInt64.ofNat c }
  | threw (s : Pools) {size : Nat} : chunkSize size = none → PoolStep s (.threw size) s

inductive PoolRun : List PoolEvent → Pools → Prop
  | start : PoolRun [] {}
  | next {log : List PoolEvent} {s s' : Pools} {event : PoolEvent} : PoolRun log s → PoolStep s event s' →
    PoolRun (log ++ [event]) s'

/-! ## What is held -/

/-- The chunks that are held after an operation. -/
def PoolEvent.held (chunks : List Chunk) : PoolEvent → List Chunk
  | malloc _ chunk _ => chunk :: chunks
  | free chunk _ => chunks.erase chunk
  | threw _ => chunks

/-- The chunks that have been given and not been put back. -/
def held (log : List PoolEvent) : List Chunk := log.foldl PoolEvent.held []

/-- The size of the chunks that are held. -/
def heldSize (log : List PoolEvent) : Nat := ((held log).map Chunk.room).sum

/-- A chunk is put back that is held, into its own pool. -/
def PoolEvent.Suits (chunks : List Chunk) : PoolEvent → Prop
  | free chunk size => chunk ∈ chunks ∧ chunkSize size = some chunk.room
  | malloc .. | threw _ => True

def Suitable (log : List PoolEvent) : Prop :=
  ∀ before event after, log = before ++ event :: after → event.Suits (held before)

/-- The chunks that are in the pools. -/
def Pools.chunks (s : Pools) : Multiset Chunk := ∑ c ∈ chunkSizes.toFinset, (s.free c : Multiset Chunk)

section Runs

variable {log : List PoolEvent} {s s' : Pools} {event : PoolEvent} {chunk : Chunk}
  {size c : Nat}

theorem held_snoc : held (log ++ [event]) = event.held (held log) := by
  rw [held, List.foldl_append]
  rfl

theorem suitable_snoc : Suitable (log ++ [event]) ↔ Suitable log ∧ event.Suits (held log) := by
  constructor
  · refine fun h => ⟨fun before event' after heq => ?_, h log event [] rfl⟩
    exact h before event' (after ++ [event]) (by rw [heq, List.append_assoc, List.cons_append])
  · rintro ⟨hlog, hevent⟩ before event' after heq
    rcases List.eq_nil_or_concat after with rfl | ⟨init, last, rfl⟩
    · obtain ⟨rfl, hlast⟩ := List.append_inj' heq rfl
      cases hlast
      exact hevent
    · rw [List.concat_eq_append, ← List.cons_append, ← List.append_assoc] at heq
      exact hlog before event' init (List.append_inj' heq rfl).1

theorem Suitable.part {part : List PoolEvent} (h : Suitable log) (hpart : part <+: log) : Suitable part := by
  obtain ⟨rest, rfl⟩ := hpart
  intro before event after heq
  exact h before event (after ++ rest) (by rw [heq, List.append_assoc, List.cons_append])

theorem chunkSize_mem (h : chunkSize size = some c) : c ∈ chunkSizes := List.mem_of_find?_eq_some h

theorem le_chunkSize (h : chunkSize size = some c) : size ≤ c := by
  have hfits := List.find?_some h
  exact of_decide_eq_true hfits

/-- What `pmalloc` calls the capacity of a chunk is a size of the same pool. -/
theorem chunkSize_self (h : c ∈ chunkSizes) : chunkSize c = some c := by
  revert c
  decide

theorem ofNat_chunkSize_inj {c' : Nat} (h : c ∈ chunkSizes) (h' : c' ∈ chunkSizes)
    (heq : UInt64.ofNat c = UInt64.ofNat c') : c = c' := by
  have hall : ∀ c ∈ chunkSizes, ∀ c' ∈ chunkSizes, UInt64.ofNat c = UInt64.ofNat c' → c = c' := by decide
  exact hall c h c' h' heq

theorem ofNat_chunkSize_ne_zero (h : c ∈ chunkSizes) : UInt64.ofNat c ≠ 0 := by
  revert c
  decide

/-! ## The invariant -/

/-- One pool is changed. -/
theorem chunks_update (hc : c ∈ chunkSizes) (chunks : List Chunk)
    (hfree : s'.free = Function.update s.free c chunks) :
    s'.chunks + (s.free c : Multiset Chunk) = s.chunks + (chunks : Multiset Chunk) := by
  have hmem : c ∈ chunkSizes.toFinset := List.mem_toFinset.2 hc
  have hrest : ∀ c' ∈ chunkSizes.toFinset.erase c, (s'.free c' : Multiset Chunk) = (s.free c' : Multiset Chunk) :=
    fun c' hc' => by rw [hfree, Function.update_of_ne (Finset.ne_of_mem_erase hc')]
  rw [Pools.chunks, Pools.chunks, ← Finset.add_sum_erase _ _ hmem,
    ← Finset.add_sum_erase _ (fun c => (s.free c : Multiset Chunk)) hmem, Finset.sum_congr rfl hrest, hfree,
    Function.update_self]
  abel

/-- The chunks that there are. -/
def allChunks (log : List PoolEvent) (s : Pools) : Multiset Chunk := (held log : Multiset Chunk) + s.chunks

/-- What a run keeps while every operation suits: no chunk is twice in the hands of callers and in the pools, and each
is in its pool. -/
structure Sound (log : List PoolEvent) (s : Pools) : Prop where
  apart : ((allChunks log s).map Chunk.address).Nodup
  made : ∀ chunk ∈ allChunks log s, chunk.address < s.made
  rooms : ∀ c, ∀ chunk ∈ s.free c, chunk.room = c
  sizes : ∀ chunk ∈ held log, chunk.room ∈ chunkSizes
  leak : s.leakSize = UInt64.ofNat (heldSize log)

theorem Sound.start : Sound [] {} where
  apart := by simp [allChunks, held, Pools.chunks]
  made := by simp [allChunks, held, Pools.chunks]
  rooms := by simp
  sizes := by simp [held]
  leak := by decide

theorem heldSize_malloc {capacity : Nat} :
    heldSize (log ++ [.malloc size chunk capacity]) = chunk.room + heldSize log := by
  rw [heldSize, held_snoc]
  rfl

theorem heldSize_free (size : Nat) (h : chunk ∈ held log) :
    heldSize log = chunk.room + heldSize (log ++ [.free chunk size]) := by
  rw [heldSize, heldSize, held_snoc, ← List.sum_cons, ← List.map_cons]
  exact ((List.perm_cons_erase h).map _).sum_eq

theorem heldSize_free_of_notMem (h : chunk ∉ held log) : heldSize (log ++ [.free chunk size]) = heldSize log := by
  rw [heldSize, held_snoc]
  exact congrArg (fun l => (l.map Chunk.room).sum) (List.erase_of_not_mem h)

/-- A chunk goes from the pool to the caller. -/
theorem allChunks_reused {before after : List Chunk} {capacity : Nat} (hc : c ∈ chunkSizes)
    (hfree : s.free c = before ++ chunk :: after) (hupdate : s'.free = Function.update s.free c (before ++ after)) :
    allChunks (log ++ [.malloc size chunk capacity]) s' = allChunks log s := by
  have hchunks := chunks_update hc (before ++ after) hupdate
  have hperm : (s.free c : Multiset Chunk) = chunk ::ₘ ((before ++ after : List Chunk) : Multiset Chunk) := by
    rw [hfree, Multiset.cons_coe, Multiset.coe_eq_coe]
    exact List.perm_middle
  rw [hperm, Multiset.add_cons, ← Multiset.cons_add] at hchunks
  rw [allChunks, allChunks, held_snoc, ← add_right_cancel hchunks, Multiset.add_cons, ← Multiset.cons_add]
  rfl

/-- A chunk goes from the caller to the pool. -/
theorem allChunks_freed (hc : c ∈ chunkSizes) (hheld : chunk ∈ held log)
    (hupdate : s'.free = Function.update s.free c (chunk :: s.free c)) :
    allChunks (log ++ [.free chunk size]) s' = allChunks log s := by
  have hchunks := chunks_update hc (chunk :: s.free c) hupdate
  rw [← Multiset.cons_coe, Multiset.add_cons, ← Multiset.cons_add] at hchunks
  have herase : (held log : Multiset Chunk) = chunk ::ₘ ((held log).erase chunk : Multiset Chunk) := by
    rw [Multiset.cons_coe, Multiset.coe_eq_coe]
    exact List.perm_cons_erase hheld
  rw [allChunks, allChunks, held_snoc, add_right_cancel hchunks, herase, Multiset.add_cons, ← Multiset.cons_add]
  rfl

/-- The pool makes a chunk. -/
theorem allChunks_made {capacity : Nat} (hfree : s'.free = s.free) :
    allChunks (log ++ [.malloc size chunk capacity]) s' = chunk ::ₘ allChunks log s := by
  rw [allChunks, allChunks, held_snoc, Pools.chunks, hfree, ← Multiset.cons_add]
  rfl

theorem rooms_update {chunks : List Chunk} (h : ∀ c, ∀ chunk ∈ s.free c, chunk.room = c)
    (hchunks : ∀ chunk ∈ chunks, chunk.room = c) :
    ∀ c', ∀ chunk ∈ Function.update s.free c chunks c', chunk.room = c' := by
  intro c' chunk hchunk
  by_cases hc' : c' = c
  · subst hc'
    rw [Function.update_self] at hchunk
    exact hchunks chunk hchunk
  · rw [Function.update_of_ne hc'] at hchunk
    exact h c' chunk hchunk

/-- What `pmalloc` adds to its counter is what the caller holds more. -/
theorem leakSize_malloc {capacity : Nat} (h : s.leakSize = UInt64.ofNat (heldSize log)) (hroom : chunk.room = c)
    (hmalloc : s'.mallocNum = s.mallocNum + UInt64.ofNat c) (hfree : s'.freeNum = s.freeNum) :
    s'.leakSize = UInt64.ofNat (heldSize (log ++ [.malloc size chunk capacity])) := by
  rw [heldSize_malloc, hroom, UInt64.ofNat_add, ← h, Pools.leakSize, Pools.leakSize, hmalloc, hfree]
  grind

theorem sizes_malloc {capacity : Nat} (h : ∀ chunk ∈ held log, chunk.room ∈ chunkSizes)
    (hchunk : chunk.room ∈ chunkSizes) :
    ∀ chunk' ∈ held (log ++ [.malloc size chunk capacity]), chunk'.room ∈ chunkSizes := by
  intro chunk' hchunk'
  rw [held_snoc] at hchunk'
  rcases List.mem_cons.1 hchunk' with rfl | hheld
  · exact hchunk
  · exact h chunk' hheld

/-- A free chunk is given. -/
theorem Sound.reused (h : Sound log s) {before after : List Chunk} (hsize : chunkSize size = some c)
    (hfree : s.free c = before ++ chunk :: after) :
    Sound (log ++ [.malloc size chunk c])
      { s with free := Function.update s.free c (before ++ after), mallocNum := s.mallocNum + UInt64.ofNat c } := by
  have hc := chunkSize_mem hsize
  have hthere : ∀ chunk' ∈ chunk :: (before ++ after), chunk'.room = c := fun chunk' hchunk' =>
    h.rooms c chunk' (hfree ▸ List.perm_middle.symm.mem_iff.1 hchunk')
  have hroom := hthere chunk List.mem_cons_self
  refine ⟨?_, ?_, ?_, sizes_malloc h.sizes (hroom ▸ hc), leakSize_malloc h.leak hroom rfl rfl⟩
  · rw [allChunks_reused hc hfree rfl]
    exact h.apart
  · rw [allChunks_reused hc hfree rfl]
    exact h.made
  · exact rooms_update h.rooms fun chunk' hchunk' => hthere chunk' (List.mem_cons_of_mem _ hchunk')

/-- A new chunk is given. -/
theorem Sound.fresh (h : Sound log s) (hsize : chunkSize size = some c) :
    Sound (log ++ [.malloc size ⟨s.made, c⟩ c])
      { s with made := s.made + 1, mallocNum := s.mallocNum + UInt64.ofNat c } := by
  have hall : allChunks (log ++ [.malloc size ⟨s.made, c⟩ c])
      { s with made := s.made + 1, mallocNum := s.mallocNum + UInt64.ofNat c } = ⟨s.made, c⟩ ::ₘ allChunks log s :=
    allChunks_made rfl
  refine ⟨?_, ?_, h.rooms, sizes_malloc h.sizes (chunkSize_mem hsize), leakSize_malloc h.leak rfl rfl rfl⟩
  · rw [hall, Multiset.map_cons, Multiset.nodup_cons]
    refine ⟨fun hmem => ?_, h.apart⟩
    obtain ⟨chunk, hchunk, heq⟩ := Multiset.mem_map.1 hmem
    exact Nat.ne_of_lt (h.made chunk hchunk) heq
  · rw [hall]
    intro chunk hchunk
    rcases Multiset.mem_cons.1 hchunk with rfl | hchunk
    · exact Nat.lt_succ_self _
    · exact Nat.lt_succ_of_lt (h.made chunk hchunk)

/-- A chunk is put back. -/
theorem Sound.freed (h : Sound log s) (hsize : chunkSize size = some c) (hheld : chunk ∈ held log)
    (hroom : c = chunk.room) :
    Sound (log ++ [.free chunk size])
      { s with free := Function.update s.free c (chunk :: s.free c), freeNum := s.freeNum + UInt64.ofNat c } := by
  have hc := chunkSize_mem hsize
  refine ⟨?_, ?_, ?_, fun chunk' hchunk' => ?_, ?_⟩
  · rw [allChunks_freed hc hheld rfl]
    exact h.apart
  · rw [allChunks_freed hc hheld rfl]
    exact h.made
  · refine rooms_update h.rooms fun chunk' hchunk' => ?_
    rcases List.mem_cons.1 hchunk' with rfl | hchunk'
    · exact hroom.symm
    · exact h.rooms c chunk' hchunk'
  · rw [held_snoc] at hchunk'
    exact h.sizes chunk' (List.mem_of_mem_erase hchunk')
  · have hleak := h.leak
    rw [heldSize_free size hheld, ← hroom, UInt64.ofNat_add] at hleak
    have hbefore : s.mallocNum - s.freeNum = _ := hleak
    show s.mallocNum - (s.freeNum + UInt64.ofNat c) = _
    grind

/-- A call that throws changes nothing. -/
theorem Sound.threw (h : Sound log s) : Sound (log ++ [.threw size]) s := by
  have hheld : held (log ++ [.threw size]) = held log := held_snoc
  constructor
  · rw [allChunks, hheld]
    exact h.apart
  · rw [allChunks, hheld]
    exact h.made
  · exact h.rooms
  · rw [hheld]
    exact h.sizes
  · rw [heldSize, hheld]
    exact h.leak

/-- **One operation** that suits keeps the invariant. -/
theorem Sound.step (h : Sound log s) (hsuits : event.Suits (held log)) (hstep : PoolStep s event s') :
    Sound (log ++ [event]) s' := by
  cases hstep with
  | reused hsize hfree => exact h.reused hsize hfree
  | made hsize => exact h.fresh hsize
  | freed hsize =>
    obtain ⟨hheld, hroom⟩ := hsuits
    rw [hsize, Option.some.injEq] at hroom
    exact h.freed hsize hheld hroom
  | threw hsize => exact h.threw

/-- An operation that does not suit breaks the account. -/
theorem suits_of_leakSize (h : Sound log s) (hstep : PoolStep s event s')
    (hleak : s'.leakSize = UInt64.ofNat (heldSize (log ++ [event]))) : event.Suits (held log) := by
  cases hstep with
  | reused => trivial
  | made => trivial
  | threw => trivial
  | @freed size c chunk hsize =>
    have hc := chunkSize_mem hsize
    have hbefore : s.mallocNum - s.freeNum = UInt64.ofNat (heldSize log) := h.leak
    have hafter : s.mallocNum - (s.freeNum + UInt64.ofNat c) =
      UInt64.ofNat (heldSize (log ++ [.free chunk size])) := hleak
    by_cases hheld : chunk ∈ held log
    · refine ⟨hheld, ?_⟩
      rw [heldSize_free size hheld, UInt64.ofNat_add] at hbefore
      have hsame : UInt64.ofNat c = UInt64.ofNat chunk.room := by grind
      rw [hsize, ofNat_chunkSize_inj hc (h.sizes chunk hheld) hsame]
    · rw [heldSize_free_of_notMem hheld] at hafter
      exact absurd (by grind) (ofNat_chunkSize_ne_zero hc)

theorem sound_of_run (h : PoolRun log s) (hsuits : Suitable log) : Sound log s := by
  induction h with
  | start => exact .start
  | next _ hstep ih =>
    obtain ⟨hlog, hevent⟩ := suitable_snoc.1 hsuits
    exact (ih hlog).step hevent hstep

theorem PoolRun.snoc (h : PoolRun (log ++ [event]) s') : ∃ s, PoolRun log s ∧ PoolStep s event s' := by
  generalize heq : log ++ [event] = log' at h
  cases h with
  | start => simp at heq
  | next hrun hstep =>
    obtain ⟨rfl, hevent⟩ := List.append_inj' heq rfl
    cases hevent
    exact ⟨_, hrun, hstep⟩

/-- The run of a part of a log. -/
theorem PoolRun.part {part : List PoolEvent} (h : PoolRun log s) (hpart : part <+: log) : ∃ s', PoolRun part s' := by
  obtain ⟨after, rfl⟩ := hpart
  induction after using List.reverseRecOn generalizing s with
  | nil => exact ⟨s, by rwa [List.append_nil] at h⟩
  | append_singleton after event ih =>
    rw [← List.append_assoc] at h
    obtain ⟨mid, hmid, -⟩ := h.snoc
    exact ih hmid

theorem suitable_of_leakSize (h : PoolRun log s) (hleak : ∀ part s', part <+: log → PoolRun part s' →
    s'.leakSize = UInt64.ofNat (heldSize part)) : Suitable log := by
  induction h with
  | start => exact fun before event after heq => by simp at heq
  | @next log s s' event hrun hstep ih =>
    have hlog := ih fun part s' hpart => hleak part s' (hpart.trans (List.prefix_append _ _))
    refine suitable_snoc.2 ⟨hlog, suits_of_leakSize (sound_of_run hrun hlog) hstep ?_⟩
    exact hleak _ _ (List.prefix_refl _) (hrun.next hstep)

/-- No chunk is held twice. -/
theorem Sound.nodup (h : Sound log s) : ((held log).map Chunk.address).Nodup := by
  rw [← Multiset.coe_nodup, ← Multiset.map_coe]
  exact Multiset.nodup_of_le (Multiset.map_le_map (Multiset.le_add_right _ _)) h.apart

theorem chunkSize_of_malloc {capacity : Nat} (hstep : PoolStep s (.malloc size chunk capacity) s') :
    chunkSize size = some capacity := by
  cases hstep with
  | reused hsize => exact hsize
  | made hsize => exact hsize

/-- What `pmalloc` gives has the room that was asked for, and nobody holds it. -/
theorem Sound.malloc (h : Sound log s) {capacity : Nat} (hstep : PoolStep s (.malloc size chunk capacity) s') :
    size ≤ chunk.room ∧ capacity = chunk.room ∧ ∀ chunk' ∈ held log, chunk'.address ≠ chunk.address := by
  have hsuits : (PoolEvent.malloc size chunk capacity).Suits (held log) := trivial
  have hafter := h.step hsuits hstep
  have hnodup := hafter.nodup
  rw [held_snoc] at hnodup
  have hnotMem := (List.nodup_cons.1 hnodup).1
  have hroom : chunk.room = capacity := by
    cases hstep with
    | reused hsize hfree => exact h.rooms _ _ (by rw [hfree]; exact List.mem_append_right _ List.mem_cons_self)
    | made hsize => rfl
  refine ⟨?_, hroom.symm, fun chunk' hchunk' heq => hnotMem ?_⟩
  · rw [hroom]
    exact le_chunkSize (chunkSize_of_malloc hstep)
  · exact List.mem_map.2 ⟨chunk', hchunk', heq⟩

end Runs

/-- **The account of the pools**: in every run `leak_size` is the size of the chunks that are held, after every part of
it, iff each chunk that is put back is held and goes into its own pool; and then no chunk is held twice, and each that
is given has the room that was asked for and is held by nobody. -/
theorem leakSize_exact_iff (log : List PoolEvent) (s : Pools) (h : PoolRun log s) :
    (Suitable log ↔ ∀ part s', part <+: log → PoolRun part s' → s'.leakSize = UInt64.ofNat (heldSize part)) ∧
    (Suitable log → ((held log).map Chunk.address).Nodup ∧
      ∀ before size chunk capacity after, log = before ++ .malloc size chunk capacity :: after →
        size ≤ chunk.room ∧ capacity = chunk.room ∧ ∀ chunk' ∈ held before, chunk'.address ≠ chunk.address) := by
  refine ⟨⟨fun hsuits part s' hpart hrun => (sound_of_run hrun (hsuits.part hpart)).leak, suitable_of_leakSize h⟩,
    fun hsuits => ⟨(sound_of_run h hsuits).nodup, fun before size chunk capacity after heq => ?_⟩⟩
  have hpart : before ++ [.malloc size chunk capacity] <+: log :=
    ⟨after, by rw [heq, List.append_assoc, List.singleton_append]⟩
  obtain ⟨s', hrun⟩ := h.part hpart
  obtain ⟨mid, hmid, hstep⟩ := hrun.snoc
  exact (sound_of_run hmid (hsuits.part ((List.prefix_append _ _).trans hpart))).malloc hstep

/-- A chunk of 1024 bytes is given, put back and given again. -/
def reuse : List PoolEvent :=
  [.malloc 512 ⟨0, 1024⟩ 1024, .free ⟨0, 1024⟩ 1024, .malloc 1000 ⟨0, 1024⟩ 1024]

theorem run_reuse : ∃ s, PoolRun reuse s := by
  have hgiven := PoolRun.start.next (.made _ (show chunkSize 512 = some 1024 from rfl))
  have hfreed := hgiven.next (@PoolStep.freed _ 1024 1024 ⟨0, 1024⟩ rfl)
  exact ⟨_, hfreed.next (.reused _ (show chunkSize 1000 = some 1024 from rfl) (show _ = [] ++ _ :: [] from rfl))⟩

theorem leakSize_exact_iff_at : ∃ s, PoolRun reuse s ∧ s.leakSize = 1024 := by
  obtain ⟨s, hrun⟩ := run_reuse
  have hsuits : Suitable reuse := by
    rw [show reuse = (([] ++ [_]) ++ [_]) ++ [_] from rfl]
    refine suitable_snoc.2 ⟨suitable_snoc.2 ⟨suitable_snoc.2 ⟨?_, trivial⟩, ?_⟩, trivial⟩
    · exact fun before event after heq => by simp at heq
    · exact (by decide : Chunk.mk 0 1024 ∈ [Chunk.mk 0 1024] ∧ chunkSize 1024 = some 1024)
  exact ⟨s, hrun, ((leakSize_exact_iff reuse s hrun).1.1 hsuits) reuse s (List.prefix_refl _) hrun⟩

end StDns.Utils
