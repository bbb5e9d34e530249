import StDns.Server.ConfigLoad
import StDns.Server.Sync
import StDns.Task.Queue

/-!
# Servers kept apart

The id of a server is made of its address and its port, and is its identity everywhere else: in the keys of the tasks
and in the entries of the records. Servers that differ only in the type share it, and then one of them is never asked
while a task for the other is in the queue, and what it gives goes to the other's entry. `Apart` is the condition on the
servers under which that does not happen (`kept_apart_iff`).
-/

namespace StDns.Server

open Lib Protocol Proto Store TaskQueue

/-! ## Ids -/

/-- An address as it stands in an id. -/
def idIp (ip : Bytes) : Bytes := ip.map fun c => if c = dot then underscore else c

theorem id_eq (server : RemoteDnsServer) : server.id = idIp server.ip ++ underscore :: intText server.port := rfl

theorem underscore_notMem_intText (n : Int) : underscore ∉ intText n := by
  have hdigits : underscore ∉ natText n.natAbs := fun h => absurd (isDigit_of_mem_decimal h) (by decide)
  unfold intText
  split
  · exact fun h => hdigits ((List.mem_cons.1 h).resolve_left (by decide))
  · exact hdigits

theorem intText_injective : Function.Injective intText := by
  intro a b h
  have hminus : ∀ n m, (45 : UInt8) :: natText n ≠ natText m := by
    intro n m h
    have hmem : (45 : UInt8) ∈ decimal m := by
      rw [← natText_eq, ← h]
      exact List.mem_cons_self
    exact absurd (isDigit_of_mem_decimal hmem) (by decide)
  unfold intText at h
  split at h
  · split at h
    · have := decimal_injective (List.cons.inj h).2
      omega
    · exact absurd h (hminus _ _)
  · split at h
    · exact absurd h.symm (hminus _ _)
    · have := decimal_injective h
      omega

/-- Texts with a mark and none behind it. -/
theorem append_mark_inj {mark : UInt8} {a b p q : Bytes} (hp : mark ∉ p) (hq : mark ∉ q) :
    a ++ mark :: p = b ++ mark :: q ↔ a = b ∧ p = q := by
  constructor
  · intro h
    rcases List.append_eq_append_iff.1 h with ⟨c, hb, hc⟩ | ⟨c, ha, hc⟩
    · cases c with
      | nil => exact ⟨by rw [hb, List.append_nil], (List.cons.inj hc).2⟩
      | cons d c =>
        refine absurd ?_ hp
        rw [(List.cons.inj hc).2]
        exact List.mem_append_right _ List.mem_cons_self
    · cases c with
      | nil => exact ⟨by rw [ha, List.append_nil], (List.cons.inj hc).2.symm⟩
      | cons d c =>
        refine absurd ?_ hq
        rw [(List.cons.inj hc).2]
        exact List.mem_append_right _ List.mem_cons_self
  · rintro ⟨rfl, rfl⟩
    rfl

/-- An id that ends in another. -/
theorem id_eq_append_iff {s t : RemoteDnsServer} {front : Bytes} :
    s.id = front ++ t.id ↔ idIp s.ip = front ++ idIp t.ip ∧ s.port = t.port := by
  rw [id_eq, id_eq, ← List.append_assoc,
    append_mark_inj (underscore_notMem_intText _) (underscore_notMem_intText _), intText_injective.eq_iff]

theorem id_eq_slash_iff {s t : RemoteDnsServer} {w : Bytes} :
    s.id = w ++ slash :: t.id ↔ idIp s.ip = w ++ slash :: idIp t.ip ∧ s.port = t.port := by
  rw [List.append_cons w slash t.id, List.append_cons w slash (idIp t.ip)]
  exact id_eq_append_iff

theorem id_inj {s t : RemoteDnsServer} : s.id = t.id ↔ idIp s.ip = idIp t.ip ∧ s.port = t.port := by
  rw [← List.nil_append t.id, id_eq_append_iff, List.nil_append]

/-! ## Keys of tasks -/

/-- The key of a task for the server. -/
def syncPk (host : Bytes) (server : RemoteDnsServer) : Bytes := host ++ slash :: server.id

/-- Two tasks with one key: the hosts and the ids are the same, or one id ends in the other behind a slash. -/
theorem syncPk_eq {host host' : Bytes} {s t : RemoteDnsServer} (h : syncPk host s = syncPk host' t) :
    (host = host' ∧ s.id = t.id) ∨ (∃ w, host' = host ++ slash :: w ∧ s.id = w ++ slash :: t.id) ∨
      ∃ w, host = host' ++ slash :: w ∧ t.id = w ++ slash :: s.id := by
  rcases List.append_eq_append_iff.1 h with ⟨c, hhost, hc⟩ | ⟨c, hhost, hc⟩
  · cases c with
    | nil => exact .inl ⟨by rw [hhost, List.append_nil], (List.cons.inj hc).2⟩
    | cons d w =>
      obtain ⟨rfl, hid⟩ := List.cons.inj hc
      exact .inr (.inl ⟨w, hhost, hid⟩)
  · cases c with
    | nil => exact .inl ⟨by rw [hhost, List.append_nil], (List.cons.inj hc).2.symm⟩
    | cons d w =>
      obtain ⟨rfl, hid⟩ := List.cons.inj hc
      exact .inr (.inr ⟨w, hhost, hid⟩)

/-! ## What is kept apart -/

section Apart

variable (P : Protobuf) (regexMatch : Bytes → Bytes → Option Bool) (config : Config)

/-- The server is selected for the host. -/
def Selected (host : Bytes) (server : RemoteDnsServer) : Prop :=
  ∃ selected, selectServers regexMatch host config.servers = some selected ∧ server ∈ selected

/-- The `priority_task` that is made of a task. -/
def SyncTask.toPriorityTask (task : SyncTask) (id : Nat) : PriorityTask (Bytes × RemoteDnsServer) :=
  { input := (task.host, task.server), priority := task.priority.toUInt64, id := id, pk := task.pk }

/-- All tasks that are made are to ask selected servers. -/
def SyncTasks (made : Nat → PriorityTask (Bytes × RemoteDnsServer)) : Prop :=
  ∀ id, ∃ host server priority, Selected regexMatch config host server ∧
    made id = (syncTask host server priority).toPriorityTask id

/-- What the one server gives goes to its entry and leaves that of the other. -/
def OwnEntry (s t : RemoteDnsServer) : Prop :=
  ∀ now (m : Manager) host ips expire,
    (m.added P now host ips s.id expire).map.lookup s.id = some (Manager.newRecord now ips expire) ∧
      (m.added P now host ips s.id expire).map.lookup t.id = (m.records P now host).map.lookup t.id

/-- A task for the host and the server of `input` is in the queue. -/
def Live (q : Queue (Bytes × RemoteDnsServer)) (input : Bytes × RemoteDnsServer) : Prop :=
  ∃ id task, q.tasks.lookup id = some task ∧ task.input = input

/-- The servers of the chain are kept apart: they have different ids; in every run of the queue a task for a selected
server is in the queue once it has been submitted, and is refused only when one for the same host and server is there;
and each server has an entry of its own. -/
structure KeptApart : Prop where
  ids : config.servers.Pairwise fun s t => s.id ≠ t.id
  tasks : ∀ made, SyncTasks regexMatch config made → ∀ state, Reachable made 100 100 state → ∀ id,
    Live (state.queue.submit (made id)).2 (made id).input ∧
      ((state.queue.submit (made id)).1 = false → Live state.queue (made id).input)
  entries : config.servers.Pairwise fun s t => OwnEntry P s t ∧ OwnEntry P t s

/-- No two servers have the same port and, but for dots and underscores, the same address; and no address with a slash
in it brings the tasks of two hosts under one key. -/
structure Apart : Prop where
  addresses : config.servers.Pairwise fun s t => ¬(idIp s.ip = idIp t.ip ∧ s.port = t.port)
  slashes : ∀ host w s t, Selected regexMatch config host s → Selected regexMatch config (host ++ slash :: w) t →
    ¬(idIp s.ip = w ++ slash :: idIp t.ip ∧ s.port = t.port)

end Apart

section KeptApart

variable {P : Protobuf} {regexMatch : Bytes → Bytes → Option Bool} {config : Config}

theorem ownEntry_iff {s t : RemoteDnsServer} : OwnEntry P s t ↔ s.id ≠ t.id := by
  constructor
  · intro h hid
    -- a manager without records has no entry for the other server
    obtain ⟨hown, hother⟩ := h 0 {} [] [] 0
    rw [← hid, hown] at hother
    cases hother
  · intro hid now m host ips expire
    exact ⟨AList.lookup_insert _, AList.lookup_insert_ne hid.symm⟩

theorem Selected.mem {host : Bytes} {server : RemoteDnsServer} (h : Selected regexMatch config host server) :
    server ∈ config.servers := by
  obtain ⟨selected, hselect, hs⟩ := h
  exact (mem_selectServers hselect hs).1

/-- Servers with one id are one server. -/
theorem Apart.eq_of_id {s t : RemoteDnsServer} (h : Apart regexMatch config) (hs : s ∈ config.servers)
    (ht : t ∈ config.servers) (hid : s.id = t.id) : s = t := by
  by_contra hne
  have hsymm : Std.Symm fun s t : RemoteDnsServer => ¬(idIp s.ip = idIp t.ip ∧ s.port = t.port) :=
    ⟨fun s t hst hts => hst ⟨hts.1.symm, hts.2.symm⟩⟩
  exact h.addresses.forall hs ht hne (id_inj.1 hid)

/-- Tasks are numbered as they are made. -/
theorem SyncTasks.id {made : Nat → PriorityTask (Bytes × RemoteDnsServer)} (h : SyncTasks regexMatch config made)
    (id : Nat) : (made id).id = id := by
  obtain ⟨host, server, priority, -, hid⟩ := h id
  rw [hid]
  rfl

/-- A refused task has one for the same host and server in the queue. -/
theorem Apart.refused (h : Apart regexMatch config) {made : Nat → PriorityTask (Bytes × RemoteDnsServer)}
    (hmade : SyncTasks regexMatch config made) {state : State (Bytes × RemoteDnsServer)}
    (hreach : Reachable made 100 100 state) {id : Nat} (hrefused : (state.queue.submit (made id)).1 = false) :
    Live state.queue (made id).input := by
  obtain ⟨i, task, hi, hmadeAs, hpk⟩ := key_live hmade.id hreach hrefused
  refine ⟨i, task, hi, ?_⟩
  obtain ⟨host, s, priority, hs, hnew⟩ := hmade id
  obtain ⟨host', t, priority', ht, hold⟩ := hmade i
  rw [hmadeAs.pk] at hpk
  rw [hmadeAs.input]
  rw [hnew, hold] at hpk ⊢
  rcases syncPk_eq (show syncPk host s = syncPk host' t from hpk.symm) with ⟨rfl, hid⟩ | ⟨w, rfl, hid⟩ | ⟨w, rfl, hid⟩
  · obtain rfl := h.eq_of_id hs.mem ht.mem hid
    rfl
  · exact absurd (id_eq_slash_iff.1 hid) (h.slashes _ _ _ _ hs ht)
  · exact absurd (id_eq_slash_iff.1 hid) (h.slashes _ _ _ _ ht hs)

/-- A submitted task has one for its host and server in the queue, refused or not. -/
theorem Apart.submitted (h : Apart regexMatch config) {made : Nat → PriorityTask (Bytes × RemoteDnsServer)}
    (hmade : SyncTasks regexMatch config made) {state : State (Bytes × RemoteDnsServer)}
    (hreach : Reachable made 100 100 state) (id : Nat) :
    Live (state.queue.submit (made id)).2 (made id).input := by
  rcases submit_cases state.queue (made id) with ⟨heq, -⟩ | ⟨hok, -⟩
  · rw [heq]
    exact h.refused hmade hreach (by rw [heq])
  · obtain ⟨task, htask, has⟩ := live_submit hmade.id (keyed_of_reachable hmade.id hreach) id hok
    exact ⟨id, task, htask, has.input⟩

/-- The first of two tasks, and for every later id the second. -/
def twoTasks (first second : SyncTask) (id : Nat) : PriorityTask (Bytes × RemoteDnsServer) :=
  if id = 0 then first.toPriorityTask id else second.toPriorityTask id

/-- Two tasks with one key, one after the other: the second is refused, and only the first is in the queue. -/
theorem twoTasks_refused {first second : SyncTask} (hpk : first.pk = second.pk) (hne : first.pk ≠ []) :
    ∃ state, Reachable (twoTasks first second) 100 100 state ∧
      (state.queue.submit (twoTasks first second 1)).1 = false ∧
      ∀ i task, state.queue.tasks.lookup i = some task → task.input = (first.host, first.server) := by
  let start : State (Bytes × RemoteDnsServer) := { queue := { maxQps := 100, maxRunning := 100 } }
  have hfirst : start.queue.submit (twoTasks first second 0) = (true, { start.queue with
      taskPks := {first.pk}
      tasks := Queue.emplace ∅ (first.toPriorityTask 0)
      pQueue := [(0, first.priority.toUInt64)] }) := by
    rw [twoTasks, if_pos rfl, Queue.submit, if_neg (show (first.toPriorityTask 0).pk ≠ [] from hne),
      if_pos (Finset.notMem_empty _)]
    rfl
  refine ⟨{ start with queue := (start.queue.submit (twoTasks first second 0)).2 }, .tail .refl (.submit start 0), ?_⟩
  rw [hfirst]
  constructor
  · have hsecond : (twoTasks first second 1).pk = first.pk := hpk.symm
    rw [Queue.submit, hsecond, if_neg hne, if_neg (not_not.2 (Finset.mem_singleton_self _))]
  · intro i task hi
    rw [lookup_emplace] at hi
    split at hi
    · cases hi
      rfl
    · rw [AList.lookup_empty] at hi
      cases hi

/-- No slash in an address brings two hosts under one key. -/
theorem KeptApart.slashes (h : KeptApart P regexMatch config) {host w : Bytes} {s t : RemoteDnsServer}
    (hs : Selected regexMatch config host s) (ht : Selected regexMatch config (host ++ slash :: w) t) :
    s.id ≠ w ++ slash :: t.id := by
  intro hid
  let first := syncTask host s maxPriority
  let second := syncTask (host ++ slash :: w) t maxPriority
  have hpk : first.pk = second.pk := by
    show host ++ slash :: s.id = (host ++ slash :: w) ++ slash :: t.id
    rw [hid, List.append_assoc, List.cons_append]
  obtain ⟨state, hreach, hrefused, honly⟩ := twoTasks_refused hpk (List.append_ne_nil_of_right_ne_nil _ (by simp))
  have hmade : SyncTasks regexMatch config (twoTasks first second) := by
    intro id
    by_cases h0 : id = 0
    · exact ⟨host, s, maxPriority, hs, if_pos h0⟩
    · exact ⟨host ++ slash :: w, t, maxPriority, ht, if_neg h0⟩
  obtain ⟨i, task, hi, hinput⟩ := (h.tasks _ hmade state hreach 1).2 hrefused
  rw [honly i task hi] at hinput
  -- the two hosts would be the same
  have hlen : host.length = (host ++ slash :: w).length := congrArg (fun input => input.1.length) hinput
  rw [List.length_append, List.length_cons] at hlen
  omega

/-- **Keeping apart**, in every run of the queue: it is the condition on the servers. -/
theorem kept_apart_iff (P : Protobuf) (regexMatch : Bytes → Bytes → Option Bool) : ∀ tree config,
    Config.load tree = some config → (KeptApart P regexMatch config ↔ Apart regexMatch config) := by
  intro tree config _
  constructor
  · intro hkept
    refine ⟨hkept.ids.imp fun hid hsame => hid (id_inj.2 hsame), ?_⟩
    exact fun host w s t hs ht hsame => hkept.slashes hs ht (id_eq_slash_iff.2 hsame)
  · intro hapart
    have hids : config.servers.Pairwise fun s t => s.id ≠ t.id :=
      hapart.addresses.imp fun hsame hid => hsame (id_inj.1 hid)
    refine ⟨hids, fun made hmade state hreach id => ⟨hapart.submitted hmade hreach id, ?_⟩, ?_⟩
    · exact fun hrefused => hapart.refused hmade hreach hrefused
    · exact hids.imp fun hid => ⟨ownEntry_iff.2 hid, ownEntry_iff.2 hid.symm⟩

end KeptApart

/-- An address without underscores, from what an id has of it. -/
theorem map_idIp {ip : Bytes} (h : underscore ∉ ip) :
    (idIp ip).map (fun c => if c = underscore then dot else c) = ip := by
  induction ip with
  | nil => rfl
  | cons c ip ih =>
    have hc : c ≠ underscore := fun hc => h (hc ▸ List.mem_cons_self)
    have hrest := ih fun hmem => h (List.mem_cons_of_mem _ hmem)
    rw [idIp, List.map_cons, List.map_cons]
    congr 1
    by_cases hdot : c = dot
    · rw [if_pos hdot, if_pos rfl, hdot]
    · rw [if_neg hdot, if_neg hc]

/-- With addresses of digits and dots it is enough that no two servers have the same address and port. -/
theorem apart_of_digits {regexMatch : Bytes → Bytes → Option Bool} {config : Config}
    (hdigits : ∀ server ∈ config.servers, ∀ c ∈ server.ip, isDigit c = true ∨ c = dot)
    (hne : config.servers.Pairwise fun s t => ¬(s.ip = t.ip ∧ s.port = t.port)) : Apart regexMatch config := by
  have hplain : ∀ server ∈ config.servers, underscore ∉ server.ip := by
    intro server hs hmem
    rcases hdigits server hs _ hmem with h | h
    · exact absurd h (by decide)
    · exact absurd h (by decide)
  constructor
  · refine hne.imp_of_mem fun hs ht hst hsame => hst ⟨?_, hsame.2⟩
    rw [← map_idIp (hplain _ hs), ← map_idIp (hplain _ ht), hsame.1]
  · rintro host w s t hs - ⟨hsame, -⟩
    have hmem : slash ∈ idIp s.ip := by
      rw [hsame]
      exact List.mem_append_right _ List.mem_cons_self
    obtain ⟨c, hc, hslash⟩ := List.mem_map.1 hmem
    rcases hdigits s hs.mem c hc with h | rfl
    · split at hslash
      · exact absurd hslash (by decide)
      · exact absurd h (by rw [hslash]; decide)
    · exact absurd hslash (by decide)

/-- The address `8.8.8.8` over TCP on port 53 and over TLS on port 853. -/
def tcpAndTls : ConfigTree :=
  { servers := some [{ ip := some [56, 46, 56, 46, 56, 46, 56], type := some tcpText },
      { ip := some [56, 46, 56, 46, 56, 46, 56], port := some 853, type := some tcpSslText }] }

/-- The servers that are loaded from it. -/
def tcpAndTlsServers : Config :=
  { servers := [{ ip := [56, 46, 56, 46, 56, 46, 56], port := 53, type := .tcp },
      { ip := [56, 46, 56, 46, 56, 46, 56], port := 853, type := .tcpSsl }]
    dnsCacheExpire := 600 }

theorem kept_apart_iff_at :
    Config.load tcpAndTls = some tcpAndTlsServers ∧ KeptApart wire (fun _ _ => none) tcpAndTlsServers := by
  have hload : Config.load tcpAndTls = some tcpAndTlsServers := rfl
  refine ⟨hload, (kept_apart_iff wire (fun _ _ => none) tcpAndTls tcpAndTlsServers hload).2 (apart_of_digits ?_ ?_)⟩
  · simp [tcpAndTlsServers, isDigit, dot]
  · decide

/-- Servers that differ only in the type have one id. -/
theorem not_kept_apart : ¬∀ (P : Protobuf) (regexMatch : Bytes → Bytes → Option Bool) (tree : ConfigTree)
    (config : Config), Config.load tree = some config → KeptApart P regexMatch config := by
  intro h
  have hids := (h wire (fun _ _ => none) udpAndTcp _ rfl).ids
  exact (List.pairwise_cons.1 hids).1 _ List.mem_cons_self rfl

end StDns.Server
