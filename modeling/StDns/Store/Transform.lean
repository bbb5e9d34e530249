import StDns.Protocol.Answer
import StDns.Server.Config
import StDns.Store.Proto
import Mathlib.Data.List.Sort

/-!
# The record of a name

`dns_record_manager::transform` makes one record from those that the selected servers gave for a name. All addresses are
sorted, those that match the areas of their server first, and then by the order of the servers; the record takes the
matching addresses of the first server that has one, or all when none matches (`transform_spec`). How `std::sort` orders
equal elements, what `std::shuffle` does and which addresses are in an area is left to an `Outside`.
-/

namespace StDns.Store

open Lib Protocol Proto Server

/-! ## Addresses and their order -/

/-- `dns_ip_record`. -/
structure DnsIpRecord where
  ip : UInt32
  matchArea : Bool
  forbid : Bool
  expire : Bool
  expireTime : Nat
  server : Bytes
  serverOrder : UInt8
  deriving DecidableEq

/-- `dns_ip_record::compare`. -/
def DnsIpRecord.compare (a b : DnsIpRecord) : Bool :=
  if a.matchArea ≠ b.matchArea then a.matchArea
  else if a.forbid ≠ b.forbid then b.forbid
  else a.serverOrder < b.serverOrder

/-- The place that `compare` gives: matching before others, allowed before forbidden, then by the server. -/
def DnsIpRecord.rank (a : DnsIpRecord) : Nat :=
  (if a.matchArea then 0 else 512) + (if a.forbid then 256 else 0) + a.serverOrder.toNat

theorem DnsIpRecord.compare_iff (a b : DnsIpRecord) : a.compare b = true ↔ a.rank < b.rank := by
  have ha := a.serverOrder.toNat_lt
  have hb := b.serverOrder.toNat_lt
  unfold compare rank
  cases a.matchArea <;> cases b.matchArea <;> cases a.forbid <;> cases b.forbid <;>
    simp [UInt8.lt_iff_toNat_lt] <;> omega

/-- What the code leaves to its surroundings: regular expressions, the reading of addresses, areas, and the choices of
the standard library. -/
structure Outside where
  regexMatch : Bytes → Bytes → Option Bool
  makeAddressV4 : Bytes → Option UInt32
  isAreaIp : List Bytes → UInt32 → Bool
  sort : List DnsIpRecord → List DnsIpRecord
  sort_perm : ∀ items, (sort items).Perm items
  sort_sorted : ∀ items, (sort items).Pairwise fun a b => ¬b.compare a = true
  shuffle : List UInt32 → List UInt32
  shuffle_perm : ∀ ips, (shuffle ips).Perm ips

/-- The address of the server is one for `make_address_v4`, which otherwise throws before anything is sent. -/
def Outside.Usable (o : Outside) (server : RemoteDnsServer) : Prop := (o.makeAddressV4 server.ip).isSome = true

instance (o : Outside) (server : RemoteDnsServer) : Decidable (o.Usable server) :=
  inferInstanceAs (Decidable (_ = true))

/-! ## `transform` -/

/-- An address that a server gave at place `order`. -/
def ipRecord (o : Outside) (now : Nat) (server : RemoteDnsServer) (tRecord : Record) (order : UInt8) (ip : UInt32) :
    DnsIpRecord :=
  { ip := ip
    forbid := false
    server := server.id
    expire := tRecord.expire.toNat < now / 1000
    matchArea := o.isAreaIp server.areas ip
    expireTime := tRecord.expire.toNat
    serverOrder := order }

/-- The loop over the servers; `order` is `server_order` before it. -/
def collect (o : Outside) (now : Nat) (map : ServerMap) : List RemoteDnsServer → UInt8 → List DnsIpRecord
  | [], _ => []
  | server :: servers, order =>
    let serverOrder := order + 1
    let items :=
      match map.lookup server.id with
      | some tRecord => tRecord.ips.map (ipRecord o now server tRecord serverOrder)
      | none => []
    items ++ collect o now map servers serverOrder

/-- The variables of the loops that fill the record; an address is kept with the item it was taken from. -/
structure Picking where
  picked : List DnsIpRecord := []
  server : Bytes := []
  trustedIpCount : UInt32 := 0
  totalIpCount : UInt32 := 0

/-- The addresses of the record. -/
def Picking.ips (p : Picking) : List UInt32 := p.picked.map fun item => item.ip

/-- A round of the first loop: matching addresses of one server only, the one that the first of them is from. -/
def Picking.trusted (p : Picking) (item : DnsIpRecord) : Picking :=
  if item.matchArea ∧ ¬item.forbid then
    if p.server ≠ [] ∧ item.server ≠ p.server then p
    else if item.ip ∈ p.ips then p
    else
      { picked := p.picked ++ [item]
        server := item.server
        trustedIpCount := p.trustedIpCount + 1
        totalIpCount := p.totalIpCount + 1 }
  else { p with totalIpCount := p.totalIpCount + 1 }

/-- A round of the second loop: any address. -/
def Picking.any (p : Picking) (item : DnsIpRecord) : Picking :=
  if item.ip ∈ p.ips then p else { p with picked := p.picked ++ [item] }

/-- Both loops over the sorted addresses. -/
def pick (ipRecords : List DnsIpRecord) : Picking :=
  let p := ipRecords.foldl Picking.trusted {}
  if p.ips = [] then ipRecords.foldl Picking.any p else p

/-- The record of the sorted addresses of a name. -/
def recordOf (o : Outside) (domain : Bytes) (servers : List Bytes) (ipRecords : List DnsIpRecord) : DnsRecord :=
  let p := pick ipRecords
  let record : DnsRecord :=
    { ips := (o.shuffle p.ips).map UInt32.toNat
      domain := domain
      servers := servers
      trustedIpCount := p.trustedIpCount
      totalIpCount := p.totalIpCount }
  match ipRecords.head? with
  | some first =>
    { record with
      matchArea := first.matchArea, expireTime := first.expireTime, server := first.server, expire := first.expire }
  | none => record

/-- The ids of the servers that gave an address, each once. -/
def serversOf (ipRecords : List DnsIpRecord) : List Bytes :=
  ipRecords.foldl (fun servers item => servers.insert item.server) []

/-- `dns_record_manager::transform` at the time `now`, in milliseconds; nothing when the selection fails. -/
def transform (o : Outside) (config : Config) (now : Nat) (records : Records) : Option DnsRecord := do
  let servers ← selectServers o.regexMatch records.domain config.servers
  let ipRecords := collect o now records.map servers 0
  return recordOf o records.domain (serversOf ipRecords) (o.sort ipRecords)

/-! ## What the loops take -/

/-- Items taken one by one when their address is not there yet. -/
def takeNew (picked items : List DnsIpRecord) : List DnsIpRecord :=
  items.foldl (fun picked item => if item.ip ∈ picked.map (fun x => x.ip) then picked else picked ++ [item]) picked

/-- The first loop takes an item for the server `s`. -/
def Takes (s : Bytes) (item : DnsIpRecord) : Bool := item.matchArea && !item.forbid && item.server = s

section Picks

variable {s : Bytes} {items picked : List DnsIpRecord} {first : DnsIpRecord}

theorem takeNew_cons (picked : List DnsIpRecord) (item : DnsIpRecord) (items : List DnsIpRecord) :
    takeNew picked (item :: items) =
      takeNew (if item.ip ∈ picked.map (fun x => x.ip) then picked else picked ++ [item]) items := rfl

theorem mem_of_mem_takeNew {item : DnsIpRecord} (h : item ∈ takeNew picked items) : item ∈ picked ∨ item ∈ items := by
  induction items generalizing picked with
  | nil => exact .inl h
  | cons x items ih =>
    rw [takeNew_cons] at h
    rcases ih h with hmem | hmem
    · split at hmem
      · exact .inl hmem
      · rcases List.mem_append.1 hmem with hmem | hmem
        · exact .inl hmem
        · exact .inr (List.mem_cons.2 (.inl (List.mem_singleton.1 hmem)))
    · exact .inr (List.mem_cons_of_mem _ hmem)

/-- The addresses taken are those that were there and all others once. -/
theorem mem_ips_takeNew {ip : UInt32} : ip ∈ (takeNew picked items).map (fun x => x.ip) ↔
    ip ∈ picked.map (fun x => x.ip) ∨ ip ∈ items.map (fun x => x.ip) := by
  induction items generalizing picked with
  | nil => simp [takeNew]
  | cons x items ih =>
    rw [takeNew_cons, ih, List.map_cons, List.mem_cons]
    split
    · rename_i hx
      constructor
      · exact Or.imp_right .inr
      · rintro (h | rfl | h)
        · exact .inl h
        · exact .inl hx
        · exact .inr h
    · rw [List.map_append, List.mem_append, List.map_singleton, List.mem_singleton, or_assoc]

theorem nodup_takeNew (items : List DnsIpRecord) (h : (picked.map fun x => x.ip).Nodup) :
    ((takeNew picked items).map fun x => x.ip).Nodup := by
  induction items generalizing picked with
  | nil => exact h
  | cons x items ih =>
    rw [takeNew_cons]
    apply ih
    split
    · exact h
    · rename_i hx
      rw [List.map_append, List.map_singleton]
      exact List.nodup_append.2 ⟨h, List.nodup_singleton _, fun a ha b hb e => hx (List.mem_singleton.1 hb ▸ e ▸ ha)⟩

/-- The second loop takes all addresses. -/
theorem foldl_any (items : List DnsIpRecord) (p : Picking) :
    (items.foldl Picking.any p).picked = takeNew p.picked items := by
  induction items generalizing p with
  | nil => rfl
  | cons x items ih =>
    rw [List.foldl_cons, ih, takeNew_cons]
    congr 1
    unfold Picking.any Picking.ips
    split <;> rfl

/-- The first loop, once it has a server, takes the matching addresses of that server. -/
theorem foldl_trusted (hs : s ≠ []) (items : List DnsIpRecord) {p : Picking} (hp : p.server = s) :
    (items.foldl Picking.trusted p).picked = takeNew p.picked (items.filter (Takes s)) := by
  induction items generalizing p with
  | nil => rfl
  | cons x items ih =>
    rw [List.foldl_cons]
    by_cases hx : Takes s x = true
    · rw [List.filter_cons_of_pos hx, takeNew_cons]
      simp only [Takes, Bool.and_eq_true, Bool.not_eq_true', decide_eq_true_eq] at hx
      obtain ⟨⟨hmatch, hforbid⟩, hserver⟩ := hx
      have hround : p.trusted x = if x.ip ∈ p.ips then p else
          { picked := p.picked ++ [x], server := x.server, trustedIpCount := p.trustedIpCount + 1,
            totalIpCount := p.totalIpCount + 1 } := by
        rw [Picking.trusted, if_pos ⟨hmatch, by simp [hforbid]⟩, if_neg (by simp [hserver, hp])]
      rw [hround, Picking.ips]
      split
      · exact ih hp
      · exact ih hserver
    · rw [List.filter_cons_of_neg hx]
      have hround : (p.trusted x).picked = p.picked ∧ (p.trusted x).server = s := by
        unfold Picking.trusted
        split
        · rename_i hmatch
          rw [if_pos]
          · exact ⟨rfl, hp⟩
          · refine ⟨by rw [hp]; exact hs, fun e => hx ?_⟩
            simp [Takes, hmatch.1, hmatch.2, e, hp]
        · exact ⟨rfl, hp⟩
      rw [ih hround.2, hround.1]

/-- Without matching addresses the first loop takes nothing. -/
theorem foldl_trusted_none (h : ∀ item ∈ items, item.matchArea = false) (p : Picking) :
    (items.foldl Picking.trusted p).picked = p.picked := by
  induction items generalizing p with
  | nil => rfl
  | cons x items ih =>
    obtain ⟨hx, hitems⟩ := List.forall_mem_cons.1 h
    rw [List.foldl_cons, ih hitems, Picking.trusted, if_neg (by simp [hx])]

/-- The first loop when the first item matches. -/
theorem foldl_trusted_first (hmatch : first.matchArea = true) (hforbid : first.forbid = false)
    (hs : first.server ≠ []) : ((first :: items).foldl Picking.trusted {}).picked =
      takeNew [first] (items.filter (Takes first.server)) := by
  have hround : ({} : Picking).trusted first = ⟨[first], first.server, 0 + 1, 0 + 1⟩ := by
    rw [Picking.trusted, if_pos ⟨hmatch, by simp [hforbid]⟩, if_neg (by simp), if_neg (by simp [Picking.ips])]
    rfl
  rw [List.foldl_cons, hround]
  exact foldl_trusted hs items rfl

/-- Then the second loop is left out. -/
theorem pick_of_match (hmatch : first.matchArea = true) (hforbid : first.forbid = false) (hs : first.server ≠ []) :
    pick (first :: items) = (first :: items).foldl Picking.trusted {} := by
  have hne : ((first :: items).foldl Picking.trusted {}).ips ≠ [] := by
    refine List.ne_nil_of_mem (a := first.ip) ?_
    rw [Picking.ips, foldl_trusted_first hmatch hforbid hs, mem_ips_takeNew]
    exact .inl List.mem_cons_self
  rw [pick, if_neg hne]

/-- **Matching addresses** of the server of the first item are taken, when the first item matches. -/
theorem picked_of_match (hmatch : first.matchArea = true) (hforbid : first.forbid = false) (hs : first.server ≠ []) :
    (pick (first :: items)).picked = takeNew [first] (items.filter (Takes first.server)) := by
  rw [pick_of_match hmatch hforbid hs, foldl_trusted_first hmatch hforbid hs]

/-- **All addresses** are taken when none matches. -/
theorem picked_of_none (h : ∀ item ∈ items, item.matchArea = false) : (pick items).picked = takeNew [] items := by
  have hpicked := foldl_trusted_none h {}
  have hnil : (items.foldl Picking.trusted {}).ips = [] := by rw [Picking.ips, hpicked]; rfl
  rw [pick, if_pos hnil, foldl_any, hpicked]

end Picks

/-! ## The collected addresses -/

/-- The server gave the address for the name. -/
def Gave (map : ServerMap) (server : RemoteDnsServer) (ip : UInt32) : Prop :=
  ∃ entry, map.lookup server.id = some entry ∧ ip ∈ entry.ips

/-- The server gave the address, and it is in the server's areas. -/
def GaveMatching (o : Outside) (map : ServerMap) (server : RemoteDnsServer) (ip : UInt32) : Prop :=
  Gave map server ip ∧ o.isAreaIp server.areas ip = true

section Collected

variable {o : Outside} {now : Nat} {map : ServerMap} {item : DnsIpRecord}

/-- An item is an address that some server gave, with the number of that server. -/
theorem mem_collect : ∀ {servers : List RemoteDnsServer} {order : UInt8}, item ∈ collect o now map servers order ↔
    ∃ before server after entry, servers = before ++ server :: after ∧ map.lookup server.id = some entry ∧
      ∃ ip ∈ entry.ips, item = ipRecord o now server entry (order + UInt8.ofNat (before.length + 1)) ip
  | [], order => by simp [collect]
  | server :: servers, order => by
    have hnext : ∀ k : Nat, order + 1 + UInt8.ofNat (k + 1) = order + UInt8.ofNat (k + 1 + 1) := by
      intro k
      rw [UInt8.ofNat_add (k + 1) 1, UInt8.add_assoc, UInt8.add_comm 1]
      rfl
    rw [collect, List.mem_append, mem_collect]
    constructor
    · rintro (h | ⟨before, s, after, entry, rfl, hentry, ip, hip, rfl⟩)
      · cases hentry : map.lookup server.id with
        | none => simp [hentry] at h
        | some entry =>
          simp only [hentry, List.mem_map] at h
          obtain ⟨ip, hip, rfl⟩ := h
          exact ⟨[], server, servers, entry, rfl, hentry, ip, hip, rfl⟩
      · exact ⟨server :: before, s, after, entry, rfl, hentry, ip, hip, by rw [hnext]; rfl⟩
    · rintro ⟨before, s, after, entry, hservers, hentry, ip, hip, rfl⟩
      cases before with
      | nil =>
        obtain ⟨rfl, rfl⟩ := List.cons.inj hservers
        left
        simp only [hentry, List.mem_map]
        exact ⟨ip, hip, rfl⟩
      | cons _ before =>
        obtain ⟨rfl, rfl⟩ := List.cons.inj hservers
        exact .inr ⟨before, s, after, entry, rfl, hentry, ip, hip, by rw [hnext]; rfl⟩

variable (o now) in
/-- Every address that a server gave is collected. -/
theorem exists_item {servers : List RemoteDnsServer} {server : RemoteDnsServer} {ip : UInt32} (hs : server ∈ servers)
    (h : Gave map server ip) : ∃ item ∈ collect o now map servers 0, item.ip = ip ∧ item.server = server.id ∧
      item.matchArea = o.isAreaIp server.areas ip ∧ item.forbid = false := by
  obtain ⟨before, after, rfl⟩ := List.append_of_mem hs
  obtain ⟨entry, hentry, hip⟩ := h
  exact ⟨_, mem_collect.2 ⟨before, server, after, entry, rfl, hentry, ip, hip, rfl⟩, rfl, rfl, rfl, rfl⟩

/-- Every collected item is an address that a server gave. -/
theorem item_given {servers : List RemoteDnsServer} (h : item ∈ collect o now map servers 0) : ∃ server ∈ servers,
    ∃ entry, map.lookup server.id = some entry ∧ item.ip ∈ entry.ips ∧ item.server = server.id ∧
      item.matchArea = o.isAreaIp server.areas item.ip ∧ item.forbid = false ∧ item.expireTime = entry.expire.toNat ∧
      item.expire = decide (entry.expire.toNat < now / 1000) := by
  obtain ⟨before, server, after, entry, rfl, hentry, ip, hip, rfl⟩ := mem_collect.1 h
  exact ⟨server, List.mem_append_right _ List.mem_cons_self, entry, hentry, hip, rfl, rfl, rfl, rfl, rfl⟩

theorem mem_serversOf {items : List DnsIpRecord} {id : Bytes} :
    id ∈ serversOf items ↔ ∃ item ∈ items, item.server = id := by
  have run : ∀ (items : List DnsIpRecord) (servers : List Bytes),
      id ∈ items.foldl (fun servers item => servers.insert item.server) servers ↔
        id ∈ servers ∨ ∃ item ∈ items, item.server = id := by
    intro items
    induction items with
    | nil => simp
    | cons x items ih =>
      intro servers
      rw [List.foldl_cons, ih, List.mem_insert_iff, List.exists_mem_cons_iff, or_assoc, or_left_comm, eq_comm]
  rw [serversOf, run]
  simp

/-- The first of the sorted items has the least rank. -/
theorem head_sorted {items rest : List DnsIpRecord} {first : DnsIpRecord} (h : o.sort items = first :: rest) :
    first ∈ items ∧ ∀ item ∈ items, first.rank ≤ item.rank := by
  have hperm := o.sort_perm items
  have hsorted := o.sort_sorted items
  rw [h] at hperm hsorted
  refine ⟨hperm.subset List.mem_cons_self, fun item hitem => ?_⟩
  rcases List.mem_cons.1 (hperm.symm.subset hitem) with rfl | hrest
  · exact Nat.le_refl _
  · have hnot := List.rel_of_pairwise_cons hsorted hrest
    rw [DnsIpRecord.compare_iff] at hnot
    exact Nat.le_of_not_lt hnot

end Collected

/-! ## The record -/

section Merging

variable {o : Outside} {now : Nat} {map : ServerMap} {servers : List RemoteDnsServer} {domain : Bytes}
  {ids : List Bytes} {first : DnsIpRecord} {rest : List DnsIpRecord}

theorem recordOf_ips (items : List DnsIpRecord) :
    (recordOf o domain ids items).ips = (o.shuffle (pick items).ips).map UInt32.toNat := by
  unfold recordOf
  split <;> rfl

theorem recordOf_servers (items : List DnsIpRecord) : (recordOf o domain ids items).servers = ids := by
  unfold recordOf
  split <;> rfl

theorem mem_sorted {items : List DnsIpRecord} (item : DnsIpRecord) : item ∈ o.sort items ↔ item ∈ items :=
  (o.sort_perm items).mem_iff

theorem mem_recordOf_ips {items : List DnsIpRecord} {n : Nat} :
    n ∈ (recordOf o domain ids items).ips ↔ ∃ item ∈ (pick items).picked, item.ip.toNat = n := by
  rw [recordOf_ips, List.mem_map]
  constructor
  · rintro ⟨ip, hip, rfl⟩
    obtain ⟨item, hitem, rfl⟩ := List.mem_map.1 ((o.shuffle_perm _).mem_iff.1 hip)
    exact ⟨item, hitem, rfl⟩
  · rintro ⟨item, hitem, rfl⟩
    exact ⟨item.ip, (o.shuffle_perm _).mem_iff.2 (List.mem_map_of_mem hitem), rfl⟩

/-- No address is taken twice. -/
theorem nodup_pick (items : List DnsIpRecord) : (pick items).ips.Nodup := by
  have trusted : ∀ (items : List DnsIpRecord) (p : Picking), p.ips.Nodup →
      (items.foldl Picking.trusted p).ips.Nodup := by
    intro items
    induction items with
    | nil => exact fun _ hp => hp
    | cons x items ih =>
      intro p hp
      apply ih
      unfold Picking.trusted
      split_ifs with hmatch hserver hnew
      · exact hp
      · exact hp
      · have hone : takeNew p.picked [x] = p.picked ++ [x] := if_neg hnew
        have hnodup := nodup_takeNew [x] hp
        rw [hone] at hnodup
        exact hnodup
      · exact hp
  have h := trusted items {} List.nodup_nil
  simp only [pick]
  split_ifs
  · rw [Picking.ips, foldl_any]
    exact nodup_takeNew items h
  · exact h

/-- When the first item matches, what is taken are the matching addresses of its server. -/
theorem pick_matching (first : DnsIpRecord) (rest : List DnsIpRecord) (hmatch : first.matchArea = true)
    (hforbid : first.forbid = false) (hs : first.server ≠ []) :
    (∀ item ∈ (pick (first :: rest)).picked, item ∈ first :: rest ∧ Takes first.server item = true) ∧
      ∀ item ∈ first :: rest, Takes first.server item = true →
        ∃ x ∈ (pick (first :: rest)).picked, x.ip = item.ip := by
  have hfirst : Takes first.server first = true := by simp [Takes, hmatch, hforbid]
  rw [picked_of_match hmatch hforbid hs]
  constructor
  · intro item hitem
    rcases mem_of_mem_takeNew hitem with h | h
    · obtain rfl := List.mem_singleton.1 h
      exact ⟨List.mem_cons_self, hfirst⟩
    · obtain ⟨hrest, htakes⟩ := List.mem_filter.1 h
      exact ⟨List.mem_cons_of_mem _ hrest, htakes⟩
  · intro item hitem htakes
    refine List.mem_map.1 (mem_ips_takeNew.2 ?_)
    rcases List.mem_cons.1 hitem with rfl | hrest
    · exact .inl List.mem_cons_self
    · exact .inr (List.mem_map_of_mem (List.mem_filter.2 ⟨hrest, htakes⟩))

/-- When no item matches, all addresses are taken. -/
theorem pick_others (items : List DnsIpRecord) (h : ∀ item ∈ items, item.matchArea = false) :
    (∀ item ∈ (pick items).picked, item ∈ items) ∧ ∀ item ∈ items, ∃ x ∈ (pick items).picked, x.ip = item.ip := by
  rw [picked_of_none h]
  constructor
  · intro item hitem
    exact (mem_of_mem_takeNew hitem).resolve_left List.not_mem_nil
  · intro item hitem
    exact List.mem_map.1 (mem_ips_takeNew.2 (.inr (List.mem_map_of_mem hitem)))

end Merging

/-- What the record of a name says of the addresses that the selected servers gave for it. -/
structure Merges (o : Outside) (now : Nat) (map : ServerMap) (servers : List RemoteDnsServer) (record : DnsRecord) :
    Prop where
  /-- The first server with a matching address is the one, and its matching addresses are taken. -/
  matching : ∀ before first after, servers = before ++ first :: after →
    (∀ s ∈ before, ∀ ip, ¬GaveMatching o map s ip) → (∃ ip, GaveMatching o map first ip) →
      record.matchArea = true ∧ record.server = first.id ∧
        ∀ n, n ∈ record.ips ↔ ∃ s ∈ servers, ∃ ip, s.id = first.id ∧ GaveMatching o map s ip ∧ ip.toNat = n
  /-- Without a matching address all are taken. -/
  others : (∀ s ∈ servers, ∀ ip, ¬GaveMatching o map s ip) → record.matchArea = false ∧
    ∀ n, n ∈ record.ips ↔ ∃ s ∈ servers, ∃ ip, Gave map s ip ∧ ip.toNat = n
  nodup : record.ips.Nodup
  expiry : ∀ entry, map.lookup record.server = some entry → (∃ s ∈ servers, s.id = record.server) →
    record.expireTime = entry.expire.toNat ∧ record.expire = decide (entry.expire.toNat < now / 1000)
  source : (∃ s ∈ servers, ∃ ip, Gave map s ip) →
    record.ips ≠ [] ∧ ∃ s ∈ servers, s.id = record.server ∧ ∃ ip, Gave map s ip

section Transforming

variable {o : Outside} {now : Nat} {map : ServerMap} {servers : List RemoteDnsServer} {domain : Bytes}
  {ids : List Bytes} {first : DnsIpRecord} {rest : List DnsIpRecord}

theorem rank_ipRecord (server : RemoteDnsServer) (entry : Record) (order : UInt8) (ip : UInt32) :
    (ipRecord o now server entry order ip).rank =
      (if o.isAreaIp server.areas ip = true then 0 else 512) + order.toNat := by
  rw [DnsIpRecord.rank]
  cases harea : o.isAreaIp server.areas ip <;> simp [ipRecord, harea]

/-- When the first item does not match, none does. -/
theorem unmatched_of_first (hsort : o.sort (collect o now map servers 0) = first :: rest)
    (hfirst : first.matchArea = false) : ∀ item ∈ collect o now map servers 0, item.matchArea = false := by
  intro item hitem
  obtain ⟨-, hleast⟩ := head_sorted hsort
  obtain ⟨s, -, entry, -, -, -, -, hforbid, -⟩ := item_given hitem
  have hle := hleast item hitem
  have hlt := item.serverOrder.toNat_lt
  rw [DnsIpRecord.rank, DnsIpRecord.rank, hfirst, hforbid] at hle
  by_contra hmatch
  rw [Bool.not_eq_false] at hmatch
  rw [hmatch] at hle
  simp only [Bool.false_eq_true, if_false, if_true] at hle
  omega

/-- A server that comes first with a matching address is the one that the first item is from. -/
theorem first_of_matching (h255 : servers.length ≤ 255) (hsort : o.sort (collect o now map servers 0) = first :: rest)
    {before after : List RemoteDnsServer} {server : RemoteDnsServer} (hservers : servers = before ++ server :: after)
    (hbefore : ∀ s ∈ before, ∀ ip, ¬GaveMatching o map s ip) (hmatch : ∃ ip, GaveMatching o map server ip) :
    first.matchArea = true ∧ first.server = server.id := by
  obtain ⟨hmem, hleast⟩ := head_sorted hsort
  obtain ⟨ip, ⟨entry, hentry, hip⟩, harea⟩ := hmatch
  have hlen : before.length + 1 ≤ 255 := by
    rw [hservers, List.length_append, List.length_cons] at h255
    omega
  have hle := hleast _ (mem_collect.2 ⟨before, server, after, entry, hservers, hentry, ip, hip, rfl⟩)
  obtain ⟨before', server', after', entry', hservers', hentry', ip', hip', rfl⟩ := mem_collect.1 hmem
  have hlen' : before'.length + 1 ≤ 255 := by
    rw [hservers', List.length_append, List.length_cons] at h255
    omega
  have horder : ∀ k : Nat, k + 1 ≤ 255 → ((0 : UInt8) + UInt8.ofNat (k + 1)).toNat = k + 1 := by
    intro k hk
    rw [UInt8.zero_add, UInt8.toNat_ofNat']
    omega
  rw [rank_ipRecord, rank_ipRecord, if_pos harea, horder _ hlen, horder _ hlen'] at hle
  have harea' : o.isAreaIp server'.areas ip' = true := by
    by_contra hn
    rw [if_neg hn] at hle
    omega
  rw [if_pos harea'] at hle
  refine ⟨harea', ?_⟩
  have hsame : before'.length = before.length := by
    by_contra hne
    have hlt : before'.length < before.length := by omega
    have hget : before[before'.length]? = some server' := by
      have hall : (before ++ server :: after)[before'.length]? = some server' := by
        rw [← hservers, hservers']
        simp
      rwa [List.getElem?_append_left hlt] at hall
    exact hbefore server' (List.mem_of_getElem? hget) ip' ⟨⟨entry', hentry', hip'⟩, harea'⟩
  obtain ⟨-, hcons⟩ := List.append_inj (hservers'.symm.trans hservers) hsame
  rw [(List.cons.inj hcons).1]
  rfl

/-- The record of no items. -/
theorem merges_nil (hnone : ∀ s ∈ servers, ∀ ip, ¬Gave map s ip) :
    Merges o now map servers (recordOf o domain ids []) := by
  have hips : ∀ n, n ∉ (recordOf o domain ids []).ips := by
    intro n hn
    obtain ⟨item, hitem, -⟩ := mem_recordOf_ips.1 hn
    cases hitem
  refine ⟨?_, ?_, ?_, ?_, ?_⟩
  · rintro before server after rfl - ⟨ip, hgave, -⟩
    exact absurd hgave (hnone server (List.mem_append_right _ List.mem_cons_self) ip)
  · refine fun _ => ⟨rfl, fun n => iff_of_false (hips n) ?_⟩
    rintro ⟨s, hs, ip, hgave, -⟩
    exact hnone s hs ip hgave
  · rw [List.eq_nil_iff_forall_not_mem.2 hips]
    exact List.nodup_nil
  · rintro entry - ⟨s, -, hid⟩
    exact absurd hid s.id_ne_nil
  · rintro ⟨s, hs, ip, hgave⟩
    exact absurd hgave (hnone s hs ip)

/-- The sorted items are the collected ones. -/
theorem mem_of_sort (hsort : o.sort (collect o now map servers 0) = first :: rest) (item : DnsIpRecord) :
    item ∈ first :: rest ↔ item ∈ collect o now map servers 0 := by
  rw [← hsort, mem_sorted]

/-- The record of sorted items whose first one matches has the matching addresses of its server. -/
theorem ips_of_matching (hsort : o.sort (collect o now map servers 0) = first :: rest)
    (hmatch : first.matchArea = true) {server : RemoteDnsServer} (hid : first.server = server.id) (n : Nat) :
    n ∈ (recordOf o domain ids (first :: rest)).ips ↔
      ∃ s ∈ servers, ∃ ip, s.id = server.id ∧ GaveMatching o map s ip ∧ ip.toNat = n := by
  have hforbid : first.forbid = false := by
    obtain ⟨-, -, -, -, -, -, -, hforbid, -⟩ := item_given ((mem_of_sort hsort first).1 List.mem_cons_self)
    exact hforbid
  obtain ⟨htaken, hall⟩ := pick_matching first rest hmatch hforbid (hid ▸ server.id_ne_nil)
  rw [mem_recordOf_ips]
  constructor
  · rintro ⟨item, hitem, rfl⟩
    obtain ⟨hin, htakes⟩ := htaken item hitem
    obtain ⟨s, hs, entry, hentry, hip, hsid, harea, -⟩ := item_given ((mem_of_sort hsort item).1 hin)
    simp only [Takes, Bool.and_eq_true, decide_eq_true_eq] at htakes
    exact ⟨s, hs, item.ip, hsid.symm.trans (htakes.2.trans hid), ⟨⟨entry, hentry, hip⟩, harea ▸ htakes.1.1⟩, rfl⟩
  · rintro ⟨s, hs, ip, hsid, ⟨hgave, harea⟩, rfl⟩
    obtain ⟨item, hitem, rfl, hitemServer, hitemArea, hitemForbid⟩ := exists_item o now hs hgave
    have htakes : Takes first.server item = true := by
      simp [Takes, hitemArea, harea, hitemForbid, hitemServer, hsid, hid]
    obtain ⟨x, hx, hxip⟩ := hall item ((mem_of_sort hsort item).2 hitem) htakes
    exact ⟨x, hx, by rw [hxip]⟩

/-- The record of sorted items of which none matches has all addresses. -/
theorem ips_of_unmatched (hsort : o.sort (collect o now map servers 0) = first :: rest)
    (hnone : ∀ item ∈ first :: rest, item.matchArea = false) (n : Nat) :
    n ∈ (recordOf o domain ids (first :: rest)).ips ↔ ∃ s ∈ servers, ∃ ip, Gave map s ip ∧ ip.toNat = n := by
  obtain ⟨htaken, hall⟩ := pick_others (first :: rest) hnone
  rw [mem_recordOf_ips]
  constructor
  · rintro ⟨item, hitem, rfl⟩
    obtain ⟨s, hs, entry, hentry, hip, -⟩ := item_given ((mem_of_sort hsort item).1 (htaken item hitem))
    exact ⟨s, hs, item.ip, ⟨entry, hentry, hip⟩, rfl⟩
  · rintro ⟨s, hs, ip, hgave, rfl⟩
    obtain ⟨item, hitem, rfl, -⟩ := exists_item o now hs hgave
    obtain ⟨x, hx, hxip⟩ := hall item ((mem_of_sort hsort item).2 hitem)
    exact ⟨x, hx, by rw [hxip]⟩

/-- The first item is an address of the record, or of its server. -/
theorem ips_ne_nil (hsort : o.sort (collect o now map servers 0) = first :: rest) :
    (recordOf o domain ids (first :: rest)).ips ≠ [] := by
  obtain ⟨source, hsource, entry, hlookup, hip, hserver, harea, -⟩ :=
    item_given ((mem_of_sort hsort first).1 List.mem_cons_self)
  by_cases hmatch : first.matchArea = true
  · refine List.ne_nil_of_mem ((ips_of_matching hsort hmatch hserver first.ip.toNat).2 ?_)
    exact ⟨source, hsource, first.ip, rfl, ⟨⟨entry, hlookup, hip⟩, harea ▸ hmatch⟩, rfl⟩
  · have hunmatched := unmatched_of_first hsort (Bool.eq_false_iff.2 hmatch)
    refine List.ne_nil_of_mem ((ips_of_unmatched hsort (fun item hitem => ?_) first.ip.toNat).2 ?_)
    · exact hunmatched item ((mem_of_sort hsort item).1 hitem)
    · exact ⟨source, hsource, first.ip, ⟨entry, hlookup, hip⟩, rfl⟩

/-- The record of sorted items. -/
theorem merges_cons (h255 : servers.length ≤ 255) (hsort : o.sort (collect o now map servers 0) = first :: rest) :
    Merges o now map servers (recordOf o domain ids (first :: rest)) := by
  obtain ⟨source, hsource, sourceEntry, hlookup, hip, hserver, -, -, htime, hexpire⟩ :=
    item_given ((mem_of_sort hsort first).1 List.mem_cons_self)
  refine ⟨?_, ?_, ?_, ?_, ?_⟩
  · intro before server after hservers hbefore hgave
    obtain ⟨hmatch, hid⟩ := first_of_matching h255 hsort hservers hbefore hgave
    exact ⟨hmatch, hid, ips_of_matching hsort hmatch hid⟩
  · intro hnone
    have hunmatched : ∀ item ∈ first :: rest, item.matchArea = false := by
      intro item hitem
      obtain ⟨s, hs, entry, hentry, hip, -, harea, -⟩ := item_given ((mem_of_sort hsort item).1 hitem)
      rw [harea]
      exact Bool.eq_false_iff.2 fun h => hnone s hs item.ip ⟨⟨entry, hentry, hip⟩, h⟩
    exact ⟨hunmatched first List.mem_cons_self, ips_of_unmatched hsort hunmatched⟩
  · change ((o.shuffle _).map UInt32.toNat).Nodup
    exact ((o.shuffle_perm _).nodup_iff.2 (nodup_pick _)).map fun _ _ h => UInt32.toNat_inj.1 h
  · intro entry hentry _
    change map.lookup first.server = some entry at hentry
    rw [hserver, hlookup, Option.some.injEq] at hentry
    subst hentry
    exact ⟨htime, hexpire⟩
  · intro _
    exact ⟨ips_ne_nil hsort, source, hsource, hserver.symm, first.ip, sourceEntry, hlookup, hip⟩

/-- **The record of a name**: whatever the surroundings choose, `transform` on at most 255 selected servers takes the
matching addresses of the first server that has one, and all addresses when none matches. -/
theorem transform_merges (o : Outside) (config : Config) (now : Nat) (records : Records)
    (servers : List RemoteDnsServer)
    (hselect : selectServers o.regexMatch records.domain config.servers = some servers)
    (h255 : servers.length ≤ 255) :
    ∃ record, transform o config now records = some record ∧ Merges o now records.map servers record := by
  refine ⟨_, by rw [transform, hselect]; rfl, ?_⟩
  cases hsort : o.sort (collect o now records.map servers 0) with
  | nil =>
    refine merges_nil fun s hs ip hgave => ?_
    obtain ⟨item, hitem, -⟩ := exists_item o now hs hgave
    have hsorted := (mem_sorted (o := o) item).2 hitem
    rw [hsort] at hsorted
    cases hsorted
  | cons first rest => exact merges_cons h255 hsort

end Transforming

/-- Surroundings with these areas, in which a regular expression matches itself and nothing is shuffled. -/
def plainOutside (isAreaIp : List Bytes → UInt32 → Bool) : Outside where
  regexMatch := fun domain regex => some (domain = regex)
  makeAddressV4 := dottedQuad
  isAreaIp := isAreaIp
  sort := List.insertionSort fun a b => a.rank ≤ b.rank
  sort_perm := List.perm_insertionSort _
  sort_sorted := fun items => by
    refine (List.pairwise_insertionSort (fun a b : DnsIpRecord => a.rank ≤ b.rank) items).imp fun hle => ?_
    rw [DnsIpRecord.compare_iff]
    exact Nat.not_lt.2 hle
  shuffle := id
  shuffle_perm := fun ips => List.Perm.refl ips

/-- The text `1.1.1.2`, an address. -/
def otherIp : Bytes := [49, 46, 49, 46, 49, 46, 50]

/-- The text `1_1_1_2_53`. -/
def otherId : Bytes := [49, 95, 49, 95, 49, 95, 50, 95, 53, 51]

/-- Two upstreams. -/
def twoServers : Config :=
  { servers := [{ ip := oneIp, port := 53, type := .udp }, { ip := otherIp, port := 53, type := .udp }]
    dnsCacheExpire := 60 }

/-- A record with an address that both have given, and one more of each. -/
def sharedRecord : Records where
  domain := [97]
  map := (AList.singleton oneId { expire := 60, ips := [1, 2] }).insert otherId { expire := 60, ips := [2, 3] }

/-- The witness: all addresses but the first match. -/
theorem transform_merges_at : ∃ record,
    transform (plainOutside fun _ ip => decide (1 < ip)) twoServers 0 sharedRecord = some record ∧
      Merges (plainOutside fun _ ip => decide (1 < ip)) 0 sharedRecord.map twoServers.servers record :=
  transform_merges _ twoServers 0 sharedRecord twoServers.servers (by decide) (by decide)

/-! ## Where the served addresses are from -/

/-- The items that the addresses of the record are taken from. -/
def served (o : Outside) (config : Config) (now : Nat) (records : Records) : Option (List DnsIpRecord) := do
  let servers ← selectServers o.regexMatch records.domain config.servers
  return (pick (o.sort (collect o now records.map servers 0))).picked

/-- The entry that an item was taken from is past its expiry. -/
def Stale (now : Nat) (map : ServerMap) (item : DnsIpRecord) : Prop :=
  ∃ entry, map.lookup item.server = some entry ∧ entry.expire.toNat < now / 1000

section Served

variable {o : Outside} {config : Config} {now : Nat} {records : Records} {record : DnsRecord}

/-- **The flags of the record** speak for every address: when it says matching, all match, and when it says moreover
that it is not expired, no address is from an expired entry. -/
theorem served_of_transform (h : transform o config now records = some record) : ∃ items,
    served o config now records = some items ∧ record.ips.Perm (items.map fun item => item.ip.toNat) ∧
      (record.matchArea = true → ∀ item ∈ items,
        item.matchArea = true ∧ (record.expire = false → ¬Stale now records.map item)) ∧
      ∀ server : RemoteDnsServer, (∀ ip, ¬Gave records.map server ip) → server.id ∉ record.servers := by
  obtain ⟨servers, hselect, hrecord⟩ := Option.bind_eq_some_iff.1 h
  cases hrecord
  refine ⟨_, by rw [served, hselect]; rfl, ?_, ?_, ?_⟩
  · rw [recordOf_ips]
    have hperm := (o.shuffle_perm (pick (o.sort (collect o now records.map servers 0))).ips).map UInt32.toNat
    rw [Picking.ips, List.map_map] at hperm
    exact hperm
  · cases hsort : o.sort (collect o now records.map servers 0) with
    | nil => exact fun _ item hitem => absurd hitem List.not_mem_nil
    | cons first rest =>
      intro hmatch item hitem
      change first.matchArea = true at hmatch
      have hfirst : first ∈ collect o now records.map servers 0 := by
        rw [← mem_sorted (o := o), hsort]
        exact List.mem_cons_self
      obtain ⟨s, -, entry, hentry, -, hserver, -, hforbid, -, hexpire⟩ := item_given hfirst
      obtain ⟨-, htakes⟩ := (pick_matching first rest hmatch hforbid (hserver ▸ s.id_ne_nil)).1 item hitem
      simp only [Takes, Bool.and_eq_true, decide_eq_true_eq] at htakes
      refine ⟨htakes.1.1, ?_⟩
      rintro hfresh ⟨entry', hentry', hpast⟩
      rw [htakes.2, hserver, hentry, Option.some.injEq] at hentry'
      subst hentry'
      change first.expire = false at hfresh
      rw [hexpire, decide_eq_false_iff_not] at hfresh
      exact hfresh hpast
  · intro server hnone hmem
    rw [recordOf_servers] at hmem
    obtain ⟨item, hitem, hid⟩ := mem_serversOf.1 hmem
    obtain ⟨s, -, entry, hentry, hip, hserver, -⟩ := item_given hitem
    exact hnone item.ip ⟨entry, by rw [← hid, hserver, hentry], hip⟩

end Served

end StDns.Store
