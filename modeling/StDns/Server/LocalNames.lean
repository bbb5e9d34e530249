import StDns.Server.Sync

/-!
# Where local names go

The upstream servers that an accepted request is sent to, by itself or by the tasks submitted for it. `select_servers`
leaves out servers without the area `LAN` for names under `lan` and `arpa`; a request of another type than A and AAAA is
forwarded without it. So such a name goes to servers of that area only iff the type is one of the two or the first
server over UDP has it, or has an address that `make_address_v4` does not take (`local_only_iff`).
-/

namespace StDns.Server

open Lib Protocol Proto Store

/-- The servers that the request of a session and the tasks submitted for it are for; nothing when the processing fails
before. -/
def upstreams (P : Protobuf) (o : Outside) (config : Config) (now : Nat) (m : Manager) (r : UdpRequest) :
    Option (List RemoteDnsServer) :=
  match getQueryType r with
  | .ok queryType =>
    if queryType = QueryType.a then
      (runQuery P o config now m r.getHost).map fun run => run.tasks.map fun task => task.server
    else if queryType = QueryType.aaaa then some []
    else some (forwardServer config).toList
  | .error _ => none

/-- Those of them that something is sent to: `make_address_v4` throws before that on an address it does not take. -/
def contacted (P : Protobuf) (o : Outside) (config : Config) (now : Nat) (m : Manager) (r : UdpRequest) :
    Option (List RemoteDnsServer) :=
  (upstreams P o config now m r).map fun servers => servers.filter fun server => o.Usable server

/-- All servers that the request is sent to have the area `LAN`. -/
def LocalOnly (P : Protobuf) (o : Outside) (config : Config) (now : Nat) (m : Manager) (r : UdpRequest) : Prop :=
  ∀ servers, contacted P o config now m r = some servers → ∀ server ∈ servers, lan ∈ server.areas

/-- The host ends in `.lan` or `.arpa`, in whatever letters. -/
def LocalName (host : Bytes) : Prop :=
  ∃ stem label, host = stem ++ dot :: label ∧ (label.map upper = lan ∨ label.map upper = arpa)

section Local

variable {P : Protobuf} {o : Outside} {config : Config} {now : Nat} {m : Manager} {host : Bytes}

theorem LocalName.isLocal (h : LocalName host) : isLocal host = true := by
  obtain ⟨stem, label, rfl, hlabel⟩ := h
  have hdot : dot ∉ label := by
    intro hmem
    have hup : upper dot ∈ label.map upper := List.mem_map_of_mem hmem
    rcases hlabel with h | h <;> rw [h] at hup <;> exact absurd hup (by decide)
  simpa [Server.isLocal, getFIDomain_append hdot] using hlabel

theorem server_of_mem_syncTasks {task : SyncTask} : ∀ {servers : List RemoteDnsServer} {priority : UInt32},
    task ∈ syncTasks host servers priority → task.server ∈ servers
  | s :: servers, priority, h => by
    rcases List.mem_cons.1 h with rfl | h
    · exact List.mem_cons_self
    · exact List.mem_cons_of_mem _ (server_of_mem_syncTasks h)

/-- Whatever tasks a run submits, they are for selected servers. -/
theorem runQuery_selected {run : QueryRun} (h : runQuery P o config now m host = some run) {task : SyncTask}
    (htask : task ∈ run.tasks) : ∃ servers, selectServers o.regexMatch host config.servers = some servers ∧
      task.server ∈ servers := by
  rcases runQuery_cases h with ⟨-, hnone⟩ | ⟨servers, m', hselect, -, ⟨-, -, htasks⟩ | ⟨-, -, htasks⟩⟩
  · rw [hnone] at htask
    cases htask
  · rw [htasks] at htask
    exact ⟨servers, hselect, server_of_mem_syncTasks htask⟩
  · rw [htasks] at htask
    split at htask
    · exact ⟨servers, hselect, server_of_mem_syncTasks htask⟩
    · exact ⟨servers, hselect, (List.mem_filter.1 (server_of_mem_syncTasks htask)).1⟩

/-- The tasks for a local name go to servers with the area `LAN`. -/
theorem runQuery_local {run : QueryRun} (h : runQuery P o config now m host = some run) (hlocal : LocalName host)
    {task : SyncTask} (htask : task ∈ run.tasks) : lan ∈ task.server.areas := by
  obtain ⟨servers, hselect, hmem⟩ := runQuery_selected h htask
  exact (mem_selectServers hselect hmem).2 hlocal.isLocal

end Local

/-- A datagram with one question of type PTR, for the name `a.Lan`. -/
def lanPointer : Bytes := [0, 7, 1, 0, 0, 1, 0, 0, 0, 0, 0, 0, 1, 97, 3, 76, 97, 110, 0, 0, 12, 0, 1]

/-- **Local names**: an accepted request for a name under `lan` or `arpa` is sent to servers with the area `LAN` only
iff its type is A or AAAA, or the first server over UDP, if there is one with a usable address, has that area. -/
theorem local_only_iff (P : Protobuf) (o : Outside) (config : Config) (now : Nat) (m : Manager) (d tail : Bytes)
    (r : UdpRequest) (h : UdpRequest.parse (d ++ tail) d.length = some r) (hv : r.valid = true)
    (hlocal : LocalName r.getHost) :
    LocalOnly P o config now m r ↔ getQueryType r = .ok QueryType.a ∨ getQueryType r = .ok QueryType.aaaa ∨
      ∀ server, forwardServer config = some server → o.Usable server → lan ∈ server.areas := by
  obtain ⟨-, zone, query, -, hz, -, hq, -⟩ := accepted_parts h hv
  have htype := getQueryType_eq hz hq
  unfold LocalOnly contacted upstreams
  simp only [htype, Except.ok.injEq]
  by_cases ha : query.queryType = QueryType.a
  · simp only [ha, if_true, true_or, iff_true]
    intro servers hservers server hmem
    obtain ⟨_, hall, rfl⟩ := Option.map_eq_some_iff.1 hservers
    obtain ⟨run, hrun, rfl⟩ := Option.map_eq_some_iff.1 hall
    obtain ⟨task, htask, rfl⟩ := List.mem_map.1 (List.mem_filter.1 hmem).1
    exact runQuery_local hrun hlocal htask
  by_cases haaaa : query.queryType = QueryType.aaaa
  · simp only [haaaa, if_true, true_or, or_true, iff_true]
    rintro servers hservers server hmem
    cases hservers
    cases hmem
  · simp only [ha, haaaa, if_false, false_or, Option.map_some, Option.some.injEq, forall_eq', List.mem_filter,
      Option.mem_toList, decide_eq_true_iff, and_imp]

theorem local_only_iff_at : ∃ r, UdpRequest.parse (lanPointer ++ [0]) lanPointer.length = some r ∧
    (LocalOnly wire (plainOutside fun _ _ => true) oneServer 0 {} r ↔ getQueryType r = .ok QueryType.a ∨
      getQueryType r = .ok QueryType.aaaa ∨ ∀ server, forwardServer oneServer = some server →
        (plainOutside fun _ _ => true).Usable server → lan ∈ server.areas) := by
  let parsed := UdpRequest.parse (lanPointer ++ [0]) lanPointer.length
  have hp : parsed.any (fun r => r.valid && decide (r.getHost = [97, 46, 76, 97, 110])) = true := by decide
  obtain ⟨r, hr, hp⟩ := (Option.any_eq_true _ _).1 hp
  rw [Bool.and_eq_true, decide_eq_true_eq] at hp
  exact ⟨r, hr, local_only_iff wire (plainOutside fun _ _ => true) oneServer 0 {} lanPointer [0] r hr hp.1
    ⟨[97], [76, 97, 110], hp.2, .inl (by decide)⟩⟩

/-- The request for the name `a.Lan` is forwarded to a server that has no area. -/
theorem not_local_only : ¬∀ (P : Protobuf) (o : Outside) (config : Config) (now : Nat) (m : Manager) (d tail : Bytes)
    (r : UdpRequest), UdpRequest.parse (d ++ tail) d.length = some r → r.valid = true → LocalName r.getHost →
    LocalOnly P o config now m r := by
  intro h
  let parsed := UdpRequest.parse (lanPointer ++ [0]) lanPointer.length
  have hp : parsed.any (fun r => r.valid && decide (r.getHost = [97, 46, 76, 97, 110]) &&
      decide (contacted wire (plainOutside fun _ _ => true) oneServer 0 {} r = some oneServer.servers)) = true := by
    decide +kernel
  obtain ⟨r, hr, hp⟩ := (Option.any_eq_true _ _).1 hp
  rw [Bool.and_eq_true, Bool.and_eq_true, decide_eq_true_eq, decide_eq_true_eq] at hp
  obtain ⟨⟨hv, hhost⟩, hsent⟩ := hp
  have honly := h wire (plainOutside fun _ _ => true) oneServer 0 {} lanPointer [0] r hr hv
    ⟨[97], [76, 97, 110], hhost, .inl (by decide)⟩ _ hsent _ List.mem_cons_self
  exact absurd honly (by decide)

end StDns.Server
