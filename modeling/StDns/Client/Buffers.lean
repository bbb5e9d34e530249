import Mathlib.Algebra.Order.BigOperators.Group.Finset
import StDns.Client.Lifetimes
import StDns.Utils.Pool

/-!
# The buffers of all calls

The calls of the client run side by side and take the memory of their messages and buffers from the pools, which the
sessions of the server use as well. As long as no timer's handler runs before the first operation of its call is
started, in every order of what they do each buffer goes back into the pool it is from, no two buffers that are live
share memory, and `leak_size` is the size of the buffers that are live and of what the others hold; so it is the latter
when all calls have ended (`buffers_of_calls`).
-/

namespace StDns.Client

open Lib Lib.Async Ledger Utils

/-! ## The calls -/

/-- A call of the client; that of `udp_dns` is one whose datagram is sent at once. -/
inductive Call where
  | tcpDns (stray : Bytes → Nat → List Nat) (timeout id : Nat)
  | tcpTlsDns (stray : Bytes → Nat → List Nat) (timeout id : Nat)
  | udpDns (stray : Bytes → Nat → List Nat) (timeout id : Nat)
  | forwardUdp (timeout : Nat)

/-- `forward_udp` has handed a response on. -/
def HandsOn (timeout : Nat) (log : List (Event UdpStage UdpStage.Value)) : Prop :=
  ∃ event ∈ log, ∃ datagram, event.result (forwardUdpCall timeout) = some (some datagram)

/-- All of `forward_udp`, and the end of the session that has the response, after `before`. -/
def forwardUdpRun (timeout : Nat) (early before after : List (Event UdpStage UdpStage.Value)) : List (Act Resource) :=
  callActs forwardUdpArmed forwardUdpStarted (forwardUdpActs timeout) early before ++
    .free .response :: after.flatMap (forwardUdpActs timeout)

/-- What a call does in a run in which the handler of its timer has not run before the first operation is started. -/
def Call.Does : Call → List (Act Resource) → Prop
  | tcpDns stray timeout id, acts => ∃ early log s, CallRun (tcpDnsCall stray timeout id) early log s ∧
    .timedOut ∉ early ∧ acts = callActs streamArmed streamStarted (tcpDnsActs timeout) early log
  | tcpTlsDns stray timeout id, acts => ∃ early log s, CallRun (tcpTlsDnsCall stray timeout id) early log s ∧
    .timedOut ∉ early ∧ acts = callActs streamArmed streamStarted (tcpTlsDnsActs timeout) early log
  | udpDns stray timeout id, acts => ∃ early during after s,
    CallRun (udpDnsCall stray timeout id) early (during ++ after) s ∧ .timedOut ∉ early ∧
      acts = udpDnsRun timeout true early during after
  | forwardUdp timeout, acts => ∃ early before after s, CallRun (forwardUdpCall timeout) early (before ++ after) s ∧
    .timedOut ∉ early ∧
      (acts = callActs forwardUdpArmed forwardUdpStarted (forwardUdpActs timeout) early (before ++ after) ∨
        HandsOn timeout before ∧ acts = forwardUdpRun timeout early before after)

/-- What a call does in such a run after which it is at rest; over TLS the shutdown has come back, and a session that
was handed a response has ended. -/
def Call.Ends : Call → List (Act Resource) → Prop
  | tcpDns stray timeout id, acts => ∃ early log s, CallRun (tcpDnsCall stray timeout id) early log s ∧
    .timedOut ∉ early ∧ QueueRest (tcpDnsCall stray timeout id) s ∧
      acts = callActs streamArmed streamStarted (tcpDnsActs timeout) early log
  | tcpTlsDns stray timeout id, acts => ∃ early log s, CallRun (tcpTlsDnsCall stray timeout id) early log s ∧
    .timedOut ∉ early ∧ QueueQuiet (tcpTlsDnsCall stray timeout id) s ∧ .shutDown ∈ log ∧
      acts = callActs streamArmed streamStarted (tcpTlsDnsActs timeout) early log
  | udpDns stray timeout id, acts => ∃ early during after s,
    CallRun (udpDnsCall stray timeout id) early (during ++ after) s ∧ .timedOut ∉ early ∧
      QueueRest (udpDnsCall stray timeout id) s ∧ acts = udpDnsRun timeout true early during after
  | forwardUdp timeout, acts => ∃ early before after s, CallRun (forwardUdpCall timeout) early (before ++ after) s ∧
    .timedOut ∉ early ∧ QueueRest (forwardUdpCall timeout) s ∧
      (¬HandsOn timeout (before ++ after) ∧
          acts = callActs forwardUdpArmed forwardUdpStarted (forwardUdpActs timeout) early (before ++ after) ∨
        HandsOn timeout before ∧ acts = forwardUdpRun timeout early before after)

/-- What is asked of `pmalloc`: the request over a stream has two bytes for its length, that of `forward_udp` is not its
own. -/
def Call.asked : Call → Resource → Option Nat
  | tcpDns .., .request | tcpTlsDns .., .request => some 1026
  | udpDns .., .request => some 1024
  | _, .dataBytes => some 2048
  | _, .lengthBytes => some 2
  | _, .response => some 1024
  | _, _ => none

/-- The calls with the memory they get from the pools; what `pfree` is called with is what `pmalloc` gave. The chunks
that the others hold have come from `pmalloc` too, and go back as they came. -/
inductive Served (calls : Nat → Call) : List (Nat × Act Resource) → List PoolEvent →
    (Nat × Resource → Option (Chunk × Nat)) → Multiset Chunk → Prop
  | start : Served calls [] [] (fun _ => none) 0
  | alloc {log : List (Nat × Act Resource)} {events : List PoolEvent} {memory : Nat × Resource → Option (Chunk × Nat)}
    {others : Multiset Chunk} {i size capacity : Nat} {r : Resource} {chunk : Chunk} :
    Served calls log events memory others → (calls i).asked r = some size →
    Served calls (log ++ [(i, .alloc r)]) (events ++ [.malloc size chunk capacity])
      (Function.update memory (i, r) (some (chunk, capacity))) others
  | free {log : List (Nat × Act Resource)} {events : List PoolEvent} {memory : Nat × Resource → Option (Chunk × Nat)}
    {others : Multiset Chunk} {i size capacity : Nat} {r : Resource} {chunk : Chunk} :
    Served calls log events memory others → (calls i).asked r = some size → memory (i, r) = some (chunk, capacity) →
    Served calls (log ++ [(i, .free r)]) (events ++ [.free chunk capacity]) memory others
  | other {log : List (Nat × Act Resource)} {events : List PoolEvent} {memory : Nat × Resource → Option (Chunk × Nat)}
    {others : Multiset Chunk} {i : Nat} {act : Act Resource} : Served calls log events memory others →
    (calls i).asked act.resource = none ∨ (∃ r, act = .use r) →
    Served calls (log ++ [(i, act)]) events memory others
  | taken {log : List (Nat × Act Resource)} {events : List PoolEvent} {memory : Nat × Resource → Option (Chunk × Nat)}
    {others : Multiset Chunk} {size capacity : Nat} {chunk : Chunk} : Served calls log events memory others →
    Served calls log (events ++ [.malloc size chunk capacity]) memory (chunk ::ₘ others)
  | given {log : List (Nat × Act Resource)} {events : List PoolEvent} {memory : Nat × Resource → Option (Chunk × Nat)}
    {others : Multiset Chunk} {size : Nat} {chunk : Chunk} : Served calls log events memory others →
    chunk ∈ others → chunkSize size = some chunk.room →
    Served calls log (events ++ [.free chunk size]) memory (others.erase chunk)

/-! ## A call alone -/

section Forward

variable {timeout : Nat} {early before after : List (Event UdpStage UdpStage.Value)}
  {s : Queued UdpStage UdpStage.Value (Option Datagram)}

theorem resource_ne_response (event : Event UdpStage UdpStage.Value) (h : event.OfTimer) :
    ∀ act ∈ forwardUdpActs timeout event, act.resource ≠ .response := by
  cases event <;> first | exact absurd h id | simp [forwardUdpActs, Act.resource]

/-- What is done when the response has been handed on is not about it. -/
theorem all_forwardUdpRun (h : CallRun (forwardUdpCall timeout) early (before ++ after) s) (htimer : .timedOut ∉ early)
    (hhands : HandsOn timeout before) : all (forwardUdpRun timeout early before after) ∅ =
      some (((forwardUdpFootprint timeout).liveIn s.toState).erase .response) := by
  obtain ⟨event, hevent, datagram, hresult⟩ := hhands
  obtain ⟨mid, hmid⟩ := h.part
  have hbefore := (forwardUdpFootprint timeout).all_of_callRun hmid htimer
  have hall := (forwardUdpFootprint timeout).all_of_callRun h htimer
  rw [Footprint.ofRun, callActs, List.flatMap_append, ← List.append_assoc] at hall
  refine all_freed hbefore ?_ (fun act hact hresponse => ?_) hall
  · obtain ⟨hresults, -⟩ := hmid.completed htimer hevent hresult
    rw [Footprint.liveIn, hresults]
    exact Finset.mem_union_right _ (Finset.mem_singleton_self _)
  · obtain ⟨later, hlater, hact⟩ := List.mem_flatMap.1 hact
    exact resource_ne_response later (h.ofTimer htimer hevent hresult later hlater) act hact hresponse

end Forward

theorem Call.Does.safe {call : Call} {acts : List (Act Resource)} (h : call.Does acts) : Safe acts := by
  cases call with
  | tcpDns stray timeout id =>
    obtain ⟨early, log, s, hrun, htimer, rfl⟩ := h
    exact (tcpDnsFootprint stray timeout id).safe_of_callRun hrun htimer
  | tcpTlsDns stray timeout id =>
    obtain ⟨early, log, s, hrun, htimer, rfl⟩ := h
    exact (tcpTlsDnsFootprint stray timeout id).safe_of_callRun hrun htimer
  | udpDns stray timeout id =>
    obtain ⟨early, during, after, s, hrun, htimer, rfl⟩ := h
    rw [Safe, all_udpDnsRun hrun htimer (.inl rfl)]
    rfl
  | forwardUdp timeout =>
    obtain ⟨early, before, after, s, hrun, htimer, rfl | ⟨hhands, rfl⟩⟩ := h
    · exact (forwardUdpFootprint timeout).safe_of_callRun hrun htimer
    · rw [Safe, all_forwardUdpRun hrun htimer hhands]
      rfl

/-- Only a timer may be left of a call. -/
theorem Call.Ends.live {call : Call} {acts : List (Act Resource)} (h : call.Ends acts) :
    ∃ live, all acts ∅ = some live ∧ ∀ r ∈ live, r = .timer := by
  have hnothing : ∀ {acts : List (Act Resource)}, FreesAll acts →
      ∃ live, all acts ∅ = some live ∧ ∀ r ∈ live, r = .timer :=
    fun hfrees => ⟨∅, freesAll_iff.1 hfrees, fun r hr => by simp at hr⟩
  cases call with
  | tcpDns stray timeout id =>
    obtain ⟨early, log, s, hrun, htimer, hrest, rfl⟩ := h
    exact hnothing (tcp_freesAll hrun htimer hrest)
  | tcpTlsDns stray timeout id =>
    obtain ⟨early, log, s, hrun, htimer, hquiet, hdown, rfl⟩ := h
    exact hnothing ((tls_freesAll_iff hrun htimer hquiet).2 hdown)
  | udpDns stray timeout id =>
    obtain ⟨early, during, after, s, hrun, htimer, hrest, rfl⟩ := h
    exact hnothing (udp_freesAll hrun htimer (.inl rfl) hrest)
  | forwardUdp timeout =>
    obtain ⟨early, before, after, s, hrun, htimer, hrest, hacts⟩ := h
    have hall := (forwardUdpFootprint timeout).all_of_rest hrun htimer hrest
    rcases hacts with ⟨hnone, rfl⟩ | ⟨⟨event, hevent, datagram, hresult⟩, rfl⟩
    · refine ⟨_, hall, fun r hr => ?_⟩
      have hresults := results_of_run (run_of_queueRun (queueRun_of_callRun hrun htimer))
      cases hhead : s.results.head? with
      | none =>
        rw [hhead] at hr
        exact Finset.mem_singleton.1 hr
      | some result =>
        rw [hhead] at hr
        cases result with
        | none => cases hr
        | some datagram =>
          -- a response that was handed on is the result of a handler
          refine absurd ?_ hnone
          have hmem := List.mem_of_head? hhead
          rw [hresults] at hmem
          obtain ⟨event, hevent, hresult⟩ := List.mem_filterMap.1 hmem
          refine ⟨event, (hrun.mem_iff htimer fun heq => ?_).1 hevent, datagram, hresult⟩
          rw [heq] at hresult
          cases hresult
    · rw [all_forwardUdpRun hrun htimer ⟨event, hevent, datagram, hresult⟩]
      have hlive := (forwardUdpFootprint timeout).all_of_callRun hrun htimer
      obtain ⟨hresults, -⟩ := hrun.completed htimer (List.mem_append_left _ hevent) hresult
      rw [hall, hresults, Option.some.injEq] at hlive
      rw [← hlive]
      refine ⟨_, rfl, fun r hr => ?_⟩
      change r ∈ (udpLive false false none ∪ {.response}).erase .response at hr
      revert hr
      cases r <;> decide

/-! ## The pools beside the calls -/

section Memory

variable {calls : Nat → Call} {log : List (Nat × Act Resource)} {events : List PoolEvent}
  {memory : Nat × Resource → Option (Chunk × Nat)} {others : Multiset Chunk} {s s' : Pools}
  {live : Finset (Nat × Resource)}
  {x : Nat × Resource} {chunk : Chunk} {size capacity : Nat}

/-- What is asked for a resource of one of the calls. -/
def askedOf (calls : Nat → Call) (x : Nat × Resource) : Option Nat := (calls x.1).asked x.2

/-- The resources with memory from the pools. -/
def pooled (calls : Nat → Call) (live : Finset (Nat × Resource)) : Finset (Nat × Resource) :=
  live.filter fun x => (askedOf calls x).isSome

/-- The chunk of a resource. -/
def chunkOf (memory : Nat × Resource → Option (Chunk × Nat)) (x : Nat × Resource) : Multiset Chunk :=
  (memory x).elim 0 fun given => {given.1}

/-- What is kept: the chunks that are held are those of the live resources, each of its pool, and those of the
others. -/
structure Placed (calls : Nat → Call) (live : Finset (Nat × Resource)) (events : List PoolEvent)
    (memory : Nat × Resource → Option (Chunk × Nat)) (others : Multiset Chunk) : Prop where
  suits : Suitable events
  held : (held events : Multiset Chunk) = ∑ x ∈ pooled calls live, chunkOf memory x + others
  placed : ∀ x ∈ live, ∀ size, askedOf calls x = some size →
    ∃ chunk, memory x = some (chunk, chunk.room) ∧ chunkSize size = some chunk.room

theorem mem_pooled : x ∈ pooled calls live ↔ x ∈ live ∧ (askedOf calls x).isSome = true := Finset.mem_filter

theorem chunkOf_some (h : memory x = some (chunk, capacity)) : chunkOf memory x = {chunk} := by
  rw [chunkOf, h]
  rfl

theorem placed_start : Placed calls ∅ [] (fun _ => none) 0 where
  suits before event after heq := by simp at heq
  held := rfl
  placed x hx := by simp at hx

/-- A buffer is allocated. -/
theorem Placed.alloc (h : Placed calls live events memory others) (hrun : PoolRun events s)
    (hstep : PoolStep s (.malloc size chunk capacity) s') (hx : x ∉ live) (hasked : askedOf calls x = some size) :
    Placed calls (insert x live) (events ++ [.malloc size chunk capacity])
      (Function.update memory x (some (chunk, capacity))) others := by
  obtain ⟨-, hcapacity, -⟩ := (sound_of_run hrun h.suits).malloc hstep
  have hsize := chunkSize_of_malloc hstep
  subst hcapacity
  have hothers : ∀ y ∈ live, Function.update memory x (some (chunk, chunk.room)) y = memory y := fun y hy =>
    Function.update_of_ne (fun heq : y = x => hx (heq ▸ hy)) _ _
  constructor
  · exact suitable_snoc.2 ⟨h.suits, trivial⟩
  · have hinsert : pooled calls (insert x live) = insert x (pooled calls live) := by
      rw [pooled, Finset.filter_insert, if_pos (by rw [hasked]; rfl)]
      rfl
    rw [hinsert, Finset.sum_insert fun hmem => hx (mem_pooled.1 hmem).1, chunkOf_some (Function.update_self ..),
      held_snoc, add_assoc, Multiset.singleton_add]
    have hsame : ∑ y ∈ pooled calls live, chunkOf (Function.update memory x (some (chunk, chunk.room))) y =
        ∑ y ∈ pooled calls live, chunkOf memory y :=
      Finset.sum_congr rfl fun y hy => by rw [chunkOf, chunkOf, hothers y (mem_pooled.1 hy).1]
    rw [hsame, ← h.held]
    rfl
  · intro y hy size' hsize'
    rcases Finset.mem_insert.1 hy with rfl | hy
    · rw [hasked, Option.some.injEq] at hsize'
      subst hsize'
      exact ⟨chunk, Function.update_self .., hsize⟩
    · rw [hothers y hy]
      exact h.placed y hy size' hsize'

/-- A buffer is freed. -/
theorem Placed.free (h : Placed calls live events memory others) (hx : x ∈ live) (hasked : askedOf calls x = some size)
    (hmemory : memory x = some (chunk, capacity)) :
    Placed calls (live.erase x) (events ++ [.free chunk capacity]) memory others := by
  obtain ⟨chunk', hgiven, hsize⟩ := h.placed x hx size hasked
  rw [hmemory] at hgiven
  cases hgiven
  have hpooled : x ∈ pooled calls live := mem_pooled.2 ⟨hx, by rw [hasked]; rfl⟩
  have hsum := h.held
  rw [← Finset.add_sum_erase _ _ hpooled, chunkOf_some hmemory, add_assoc, Multiset.singleton_add] at hsum
  have hheld : chunk ∈ Utils.held events := by
    rw [← Multiset.mem_coe, hsum]
    exact Multiset.mem_cons_self _ _
  constructor
  · exact suitable_snoc.2 ⟨h.suits, hheld, chunkSize_self (chunkSize_mem hsize)⟩
  · have herase : pooled calls (live.erase x) = (pooled calls live).erase x := Finset.filter_erase ..
    have hperm : (Utils.held events : Multiset Chunk) =
        chunk ::ₘ ((Utils.held events).erase chunk : Multiset Chunk) := by
      rw [Multiset.cons_coe, Multiset.coe_eq_coe]
      exact List.perm_cons_erase hheld
    rw [herase, held_snoc]
    exact (Multiset.cons_inj_right chunk).1 (hperm.symm.trans hsum)
  · exact fun y hy => h.placed y (Finset.mem_of_mem_erase hy)

/-- What has no memory from the pools. -/
theorem Placed.other {live' : Finset (Nat × Resource)} (h : Placed calls live events memory others)
    (hsame : ∀ y, (askedOf calls y).isSome = true → (y ∈ live' ↔ y ∈ live)) :
    Placed calls live' events memory others := by
  constructor
  · exact h.suits
  · have hpooled : pooled calls live' = pooled calls live := by
      ext y
      rw [mem_pooled, mem_pooled]
      exact ⟨fun hy => ⟨(hsame y hy.2).1 hy.1, hy.2⟩, fun hy => ⟨(hsame y hy.2).2 hy.1, hy.2⟩⟩
    rw [hpooled]
    exact h.held
  · exact fun y hy size hsize => h.placed y ((hsame y (by rw [hsize]; rfl)).1 hy) size hsize

/-- Another user of the pools takes a chunk. -/
theorem Placed.taken (h : Placed calls live events memory others) :
    Placed calls live (events ++ [.malloc size chunk capacity]) memory (chunk ::ₘ others) := by
  refine ⟨suitable_snoc.2 ⟨h.suits, trivial⟩, ?_, h.placed⟩
  rw [held_snoc, Multiset.add_cons, ← h.held]
  rfl

/-- And gives it back. -/
theorem Placed.given (h : Placed calls live events memory others) (hchunk : chunk ∈ others)
    (hsize : chunkSize size = some chunk.room) :
    Placed calls live (events ++ [.free chunk size]) memory (others.erase chunk) := by
  have hheld : chunk ∈ Utils.held events := by
    rw [← Multiset.mem_coe, h.held]
    exact Multiset.mem_add.2 (.inr hchunk)
  refine ⟨suitable_snoc.2 ⟨h.suits, hheld, hsize⟩, ?_, h.placed⟩
  rw [held_snoc]
  change ((Utils.held events).erase chunk : Multiset Chunk) = _
  rw [← Multiset.coe_erase, h.held, Multiset.erase_add_right_pos _ hchunk]

/-- An act changes what is live only for its own resource. -/
theorem live_of_other {live' : Finset (Nat × Resource)} {i : Nat} {act : Act Resource}
    (hother : (calls i).asked act.resource = none ∨ ∃ r, act = .use r) (hon : (act.of i).on live = some live')
    (y : Nat × Resource) (hy : (askedOf calls y).isSome = true) : y ∈ live' ↔ y ∈ live := by
  have hne : ∀ r, (calls i).asked r = none → y ≠ (i, r) := fun r hnone heq => by
    subst heq
    rw [askedOf, hnone] at hy
    cases hy
  cases act with
  | alloc r =>
    rw [Act.of, Act.on] at hon
    split at hon
    · cases hon
    · cases hon
      rw [Finset.mem_insert, or_iff_right (hne r (hother.resolve_right (by simp)))]
  | use r =>
    rw [Act.of, Act.on] at hon
    split at hon
    · cases hon
      rfl
    · cases hon
  | free r =>
    rw [Act.of, Act.on] at hon
    split at hon
    · cases hon
      rw [Finset.mem_erase, and_iff_right (hne r (hother.resolve_right (by simp)))]
    · cases hon

/-- The last act of all. -/
theorem on_of_joint {i : Nat} {act : Act Resource} (h : all (joint (log ++ [(i, act)])) ∅ = some live) :
    ∃ mid, all (joint log) ∅ = some mid ∧ (act.of i).on mid = some live := by
  rw [joint_snoc, all_append] at h
  obtain ⟨mid, hmid, hlast⟩ := Option.bind_eq_some_iff.1 h
  rw [all_cons] at hlast
  obtain ⟨live', hon, hnil⟩ := Option.bind_eq_some_iff.1 hlast
  cases hnil
  exact ⟨mid, hmid, hon⟩

/-- **Placed** in every run. -/
theorem placed_of_served (h : Served calls log events memory others) (hrun : PoolRun events s)
    (hall : all (joint log) ∅ = some live) : Placed calls live events memory others := by
  induction h generalizing s live with
  | start =>
    cases hall
    exact placed_start
  | alloc _ hasked ih =>
    obtain ⟨mid, hmid, hon⟩ := on_of_joint hall
    obtain ⟨before, hbefore, hstep⟩ := hrun.snoc
    rw [Act.of, Act.on] at hon
    split at hon
    · cases hon
    · rename_i hnew
      cases hon
      exact (ih hbefore hmid).alloc hbefore hstep hnew hasked
  | free _ hasked hmemory ih =>
    obtain ⟨mid, hmid, hon⟩ := on_of_joint hall
    obtain ⟨before, hbefore, hstep⟩ := hrun.snoc
    rw [Act.of, Act.on] at hon
    split at hon
    · rename_i hlive
      cases hon
      exact (ih hbefore hmid).free hlive hasked hmemory
    · cases hon
  | other _ hother ih =>
    obtain ⟨mid, hmid, hon⟩ := on_of_joint hall
    exact (ih hrun hmid).other (live_of_other hother hon)
  | taken _ ih =>
    obtain ⟨before, hbefore, -⟩ := hrun.snoc
    exact (ih hbefore hall).taken
  | given _ hheld hsize ih =>
    obtain ⟨before, hbefore, -⟩ := hrun.snoc
    exact (ih hbefore hall).given hheld hsize

/-- The size of the chunk of a resource. -/
def sizeOf (calls : Nat → Call) (x : Nat × Resource) : Nat := ((askedOf calls x).bind chunkSize).getD 0

/-- What is held is what is live. -/
theorem Placed.heldSize_eq (h : Placed calls live events memory others) :
    heldSize events = ∑ x ∈ live, sizeOf calls x + (others.map Chunk.room).sum := by
  have hheld : heldSize events = (((Utils.held events : Multiset Chunk)).map Chunk.room).sum := by
    rw [Multiset.map_coe, Multiset.sum_coe]
    rfl
  have hmap : ((∑ x ∈ pooled calls live, chunkOf memory x).map Chunk.room).sum =
      ∑ x ∈ pooled calls live, ((chunkOf memory x).map Chunk.room).sum :=
    map_sum (Multiset.sumAddMonoidHom.comp (Multiset.mapAddMonoidHom Chunk.room)) _ _
  have heach : ∀ x ∈ pooled calls live, ((chunkOf memory x).map Chunk.room).sum = sizeOf calls x := fun x hx => by
    obtain ⟨hlive, hsome⟩ := mem_pooled.1 hx
    obtain ⟨size, hsize⟩ := Option.isSome_iff_exists.1 hsome
    obtain ⟨chunk, hgiven, hchunk⟩ := h.placed x hlive size hsize
    rw [chunkOf_some hgiven, Multiset.map_singleton, Multiset.sum_singleton, sizeOf, hsize, Option.bind_some, hchunk]
    rfl
  rw [hheld, h.held, Multiset.map_add, Multiset.sum_add, hmap, Finset.sum_congr rfl heach]
  refine congrArg (· + _) (Finset.sum_subset (Finset.filter_subset _ _) fun x hlive hx => ?_)
  cases hasked : askedOf calls x with
  | none =>
    rw [sizeOf, hasked]
    rfl
  | some size => exact absurd (mem_pooled.2 ⟨hlive, by rw [hasked]; rfl⟩) hx

/-- No two live resources share memory. -/
theorem Placed.apart (h : Placed calls live events memory others) (hrun : PoolRun events s) {y : Nat × Resource}
    {chunk' : Chunk} {capacity' : Nat} (hx : x ∈ pooled calls live) (hy : y ∈ pooled calls live) (hne : y ≠ x)
    (hmemory : memory x = some (chunk, capacity)) (hmemory' : memory y = some (chunk', capacity')) :
    chunk'.address ≠ chunk.address := by
  have hnodup := (sound_of_run hrun h.suits).nodup
  rw [← Multiset.coe_nodup, ← Multiset.map_coe, h.held] at hnodup
  have hle : ∑ z ∈ {y, x}, chunkOf memory z ≤ ∑ z ∈ pooled calls live, chunkOf memory z + others := by
    refine le_trans (Finset.sum_le_sum_of_subset fun z hz => ?_) (Multiset.le_add_right _ _)
    rcases Finset.mem_insert.1 hz with rfl | hz
    · exact hy
    · exact (Finset.mem_singleton.1 hz) ▸ hx
  rw [Finset.sum_pair hne, chunkOf_some hmemory, chunkOf_some hmemory', Multiset.singleton_add] at hle
  have hpair := Multiset.nodup_of_le (Multiset.map_le_map hle) hnodup
  rw [Multiset.map_cons, Multiset.map_singleton, Multiset.nodup_cons] at hpair
  exact fun heq => hpair.1 (Multiset.mem_singleton.2 heq)

/-- And none with what the others hold. -/
theorem Placed.apart_others (h : Placed calls live events memory others) (hrun : PoolRun events s) {chunk' : Chunk}
    (hx : x ∈ pooled calls live) (hmemory : memory x = some (chunk, capacity)) (hchunk' : chunk' ∈ others) :
    chunk'.address ≠ chunk.address := by
  have hnodup := (sound_of_run hrun h.suits).nodup
  rw [← Multiset.coe_nodup, ← Multiset.map_coe, h.held, ← Finset.add_sum_erase _ _ hx, chunkOf_some hmemory, add_assoc,
    Multiset.singleton_add, Multiset.map_cons, Multiset.nodup_cons] at hnodup
  refine fun heq => hnodup.1 (Multiset.mem_map.2 ⟨chunk', ?_, heq⟩)
  exact Multiset.mem_add.2 (.inr hchunk')

end Memory

/-- **Buffers**: however the calls of the client run side by side, with other users of the pools that give back what
they took, every buffer goes back into the pool it is from, each live buffer has the room that was asked for and memory
of its own, and `leak_size` is the size of the live buffers and of what the others hold: only the latter when all calls
have ended. -/
theorem buffers_of_calls (calls : Nat → Call) (log : List (Nat × Act Resource)) (events : List PoolEvent)
    (memory : Nat × Resource → Option (Chunk × Nat)) (others : Multiset Chunk) (s : Pools)
    (hcalls : ∀ i, ∃ acts, (calls i).Does acts ∧ actsOf i log <+: acts)
    (hserved : Served calls log events memory others) (hrun : PoolRun events s) :
    ∃ live, all (joint log) ∅ = some live ∧ Suitable events ∧
      (∀ x ∈ live, ∀ size, askedOf calls x = some size → ∃ chunk, memory x = some (chunk, chunk.room) ∧
        size ≤ chunk.room ∧ (∀ y ∈ live, y ≠ x → (askedOf calls y).isSome = true →
          ∀ chunk' capacity, memory y = some (chunk', capacity) → chunk'.address ≠ chunk.address) ∧
        ∀ chunk' ∈ others, chunk'.address ≠ chunk.address) ∧
      s.leakSize = UInt64.ofNat (∑ x ∈ live, sizeOf calls x + (others.map Chunk.room).sum) ∧
      ((∀ i, actsOf i log = [] ∨ (calls i).Ends (actsOf i log)) →
        s.leakSize = UInt64.ofNat (others.map Chunk.room).sum) := by
  have hsafe : ∀ i, Safe (actsOf i log) := fun i => by
    obtain ⟨acts, hdoes, rest, rfl⟩ := hcalls i
    exact hdoes.safe.of_append
  obtain ⟨live, hlive, heach⟩ := all_joint hsafe
  have hplaced := placed_of_served hserved hrun hlive
  have hleak := (sound_of_run hrun hplaced.suits).leak
  rw [hplaced.heldSize_eq] at hleak
  refine ⟨live, hlive, hplaced.suits, fun x hx size hsize => ?_, hleak, fun hends => ?_⟩
  · obtain ⟨chunk, hgiven, hchunk⟩ := hplaced.placed x hx size hsize
    have hpooled : x ∈ pooled calls live := mem_pooled.2 ⟨hx, by rw [hsize]; rfl⟩
    refine ⟨chunk, hgiven, le_chunkSize hchunk, fun y hy hne hasked chunk' capacity hmemory => ?_,
      fun chunk' hchunk' => hplaced.apart_others hrun hpooled hgiven hchunk'⟩
    exact hplaced.apart hrun hpooled (mem_pooled.2 ⟨hy, hasked⟩) hne hgiven hmemory
  · -- a timer has no memory from the pools
    have hzero : ∀ x ∈ live, sizeOf calls x = 0 := fun x hx => by
      obtain ⟨i, r⟩ := x
      have htimer : r = .timer := by
        rcases hends i with hnil | hend
        · rw [heach i ∅ (by rw [hnil]; rfl) r] at hx
          simp at hx
        · obtain ⟨mine, hmine, honly⟩ := hend.live
          exact honly r ((heach i mine hmine r).1 hx)
      subst htimer
      rw [sizeOf, askedOf]
      cases calls i <;> rfl
    rw [hleak, Finset.sum_eq_zero hzero, zero_add]

/-- Calls of `udp_dns`. -/
def datagrams (_ : Nat) : Call := .udpDns (fun _ _ => []) 100 7

/-- What one of them does when its send fails. -/
def failedSend : List (Act Resource) :=
  udpDnsRun 100 true [] [.returned .send .error] [.handled .send .error 0, .timedOut, .released]

theorem ends_failedSend (i : Nat) : (datagrams i).Ends failedSend := by
  have hstart : CallRun (udpDnsCall (fun _ _ => []) 100 7) [] [] { operation := .started .send } := .start .start
  have hreturned := hstart.next (.returned .error rfl)
  have hhandled := hreturned.next (.handled 0 rfl rfl)
  have htimedOut := hhandled.next (.closing rfl rfl rfl (show Operation.Closes _ [.release] from rfl))
  refine ⟨[], [_], [_, _, _], _, htimedOut.next (.released rfl rfl), by simp, fun event s' hstep => ?_, rfl⟩
  cases hstep <;> contradiction

/-- A session has its request, and the send of a call fails. -/
theorem run_failedSend : ∃ events memory s, PoolRun events s ∧
    Served datagrams (failedSend.map fun act => (0, act)) events memory {⟨0, 1024⟩} := by
  have hsize : chunkSize 1024 = some 1024 := rfl
  have hmade := (PoolRun.start.next (.made _ hsize)).next (.made _ hsize)
  have htaken := @Served.taken datagrams _ _ _ _ 1024 1024 ⟨0, 1024⟩ .start
  have hsocket := @Served.other datagrams _ _ _ _ 0 (.alloc .socket) htaken (.inl rfl)
  have hrequest := @Served.alloc datagrams _ _ _ _ 0 1024 1024 .request ⟨1, 1024⟩ hsocket rfl
  have htimer := @Served.other datagrams _ _ _ _ 0 (.alloc .timer) hrequest (.inl rfl)
  have harmed := @Served.other datagrams _ _ _ _ 0 (.use .timer) htimer (.inl rfl)
  have hstarted := @Served.other datagrams _ _ _ _ 0 (.use .socket) harmed (.inl rfl)
  have hsent := @Served.other datagrams _ _ _ _ 0 (.use .request) hstarted (.inr ⟨_, rfl⟩)
  have hfreed := @Served.free datagrams _ _ _ _ 0 1024 1024 .request ⟨1, 1024⟩ hsent rfl (Function.update_self ..)
  have hended := @Served.other datagrams _ _ _ _ 0 (.free .timer) hfreed (.inl rfl)
  have htimedOut := @Served.other datagrams _ _ _ _ 0 (.use .socket) hended (.inl rfl)
  have hreleased := @Served.other datagrams _ _ _ _ 0 (.free .socket) htimedOut (.inl rfl)
  exact ⟨_, _, _, hmade.next (@PoolStep.freed _ 1024 1024 ⟨1, 1024⟩ hsize), hreleased⟩

theorem buffers_of_calls_at : ∃ events memory s, PoolRun events s ∧
    Served datagrams (failedSend.map fun act => (0, act)) events memory {⟨0, 1024⟩} ∧ s.leakSize = 1024 := by
  obtain ⟨events, memory, s, hrun, hserved⟩ := run_failedSend
  refine ⟨events, memory, s, hrun, hserved, ?_⟩
  have hacts : ∀ i, actsOf i (failedSend.map fun act => (0, act)) = if i = 0 then failedSend else [] := by
    intro i
    by_cases hi : i = 0
    · subst hi
      rfl
    · simp [actsOf, hi, Ne.symm hi]
  have hcalls : ∀ i, ∃ acts, (datagrams i).Does acts ∧ actsOf i (failedSend.map fun act => (0, act)) <+: acts := by
    intro i
    obtain ⟨early, during, after, s, hcall, htimer, -, heq⟩ := ends_failedSend i
    refine ⟨failedSend, ⟨early, during, after, s, hcall, htimer, heq⟩, ?_⟩
    rw [hacts]
    split
    · exact List.prefix_refl _
    · exact List.nil_prefix
  obtain ⟨live, -, -, -, -, hended⟩ := buffers_of_calls datagrams _ events memory _ s hcalls hserved hrun
  refine hended fun i => ?_
  rw [hacts]
  split
  · exact .inr (ends_failedSend i)
  · exact .inl rfl

end StDns.Client
