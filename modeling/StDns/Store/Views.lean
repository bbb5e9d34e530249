import StDns.Server.Sync
import StDns.Store.Listing

/-!
# Two views of a name

`resolve` makes one record for a name, address by address through a sort and two loops, and `get_dns_record_list` one
for each server that gave something. Both look entries up by the ids of the servers, so what the record says is in the
list, for any servers and any entries (`views_agree`).
-/

namespace StDns.Store

open Lib Protocol Proto Server

/-- The record of the list for a server and its entry. -/
def listedRecord (o : Outside) (now : Nat) (domain : Bytes) (server : RemoteDnsServer) (entry : Record) : DnsRecord :=
  { ips := entry.ips.map UInt32.toNat
    expireTime := entry.expire.toNat
    server := server.id
    domain := domain
    matchArea := entry.ips.any fun ip => o.isAreaIp server.areas ip
    expire := entry.expire.toNat < now / 1000 }

section Views

variable {P : Protobuf} {o : Outside} {config : Config} {now : Nat} {m : Manager} {domain : Bytes} {records : Records}
  {servers : List RemoteDnsServer} {record : DnsRecord}

theorem mem_transformEach (hdomain : records.domain ≠ []) : record ∈ transformEach o config now records ↔
    ∃ server ∈ config.servers, ∃ entry, records.map.lookup server.id = some entry ∧
      listedRecord o now records.domain server entry = record := by
  rw [transformEach, if_pos hdomain, List.mem_filterMap]
  simp only [Option.map_eq_some_iff, listedRecord]

/-- What is taken is among the items. -/
theorem mem_of_mem_pick {items : List DnsIpRecord} {item : DnsIpRecord} (h : item ∈ (pick items).picked) :
    item ∈ items := by
  have trusted : ∀ (items : List DnsIpRecord) (p : Picking), item ∈ (items.foldl Picking.trusted p).picked →
      item ∈ p.picked ∨ item ∈ items := by
    intro items
    induction items with
    | nil => exact fun _ hmem => .inl hmem
    | cons x items ih =>
      intro p hmem
      rcases ih _ hmem with hmem | hmem
      · unfold Picking.trusted at hmem
        split_ifs at hmem
        · exact .inl hmem
        · exact .inl hmem
        · exact (List.mem_append.1 hmem).imp_right fun hx => List.mem_cons.2 (.inl (List.mem_singleton.1 hx))
        · exact .inl hmem
      · exact .inr (List.mem_cons_of_mem _ hmem)
  have hfirst : item ∈ (items.foldl Picking.trusted {}).picked → item ∈ items :=
    fun hmem => (trusted items {} hmem).resolve_left List.not_mem_nil
  simp only [pick] at h
  split at h
  · rw [foldl_any] at h
    exact (mem_of_mem_takeNew h).elim hfirst id
  · exact hfirst h

/-- Every address of the record was given by a selected server. -/
theorem given_of_mem_recordOf {ids : List Bytes} {n : Nat}
    (h : n ∈ (recordOf o domain ids (o.sort (collect o now records.map servers 0))).ips) :
    ∃ server ∈ servers, ∃ entry, records.map.lookup server.id = some entry ∧ n ∈ entry.ips.map UInt32.toNat := by
  obtain ⟨item, hitem, rfl⟩ := mem_recordOf_ips.1 h
  obtain ⟨server, hserver, entry, hentry, hip, -⟩ := item_given ((mem_sorted item).1 (mem_of_mem_pick hitem))
  exact ⟨server, hserver, entry, hentry, List.mem_map_of_mem hip⟩

/-- When there is nothing to sort the selected servers gave nothing. -/
theorem given_nil_of_sorted {server : RemoteDnsServer} {entry : Record}
    (hsort : o.sort (collect o now records.map servers 0) = []) (hserver : server ∈ servers)
    (hentry : records.map.lookup server.id = some entry) : entry.ips = [] := by
  rw [List.eq_nil_iff_forall_not_mem]
  intro ip hip
  obtain ⟨item, hitem, -⟩ := exists_item o now hserver ⟨entry, hentry, hip⟩
  have hsorted := (@mem_sorted o _ item).2 hitem
  rw [hsort] at hsorted
  cases hsorted

/-- What a list of records says of the record that is made of the same entries. -/
structure InList (servers : List RemoteDnsServer) (record : DnsRecord) (listed : List DnsRecord) : Prop where
  /-- Every address is one of a selected server. -/
  ips : ∀ ip ∈ record.ips, ∃ e ∈ listed, ip ∈ e.ips ∧ ∃ server ∈ servers, server.id = e.server
  matching : record.matchArea = true → ∃ e ∈ listed, e.server = record.server ∧ e.matchArea = true
  /-- The server that the record names is listed, with one expiry. -/
  expiry : record.ips ≠ [] → (∃ e ∈ listed, e.server = record.server) ∧
    ∀ e ∈ listed, e.server = record.server → e.expire = record.expire ∧ e.expireTime = record.expireTime
  /-- Without an address none was given. -/
  empty : record.ips = [] → ∀ e ∈ listed, (∃ server ∈ servers, server.id = e.server) → e.ips = []

/-- **The record and the list** made of the same entries agree. -/
theorem transform_inList (hdomain : records.domain ≠ [])
    (hselect : selectServers o.regexMatch records.domain config.servers = some servers)
    (h : transform o config now records = some record) :
    InList servers record (transformEach o config now records) := by
  rw [transform, hselect] at h
  cases h
  have hlisted : ∀ server ∈ servers, ∀ entry, records.map.lookup server.id = some entry →
      listedRecord o now records.domain server entry ∈ transformEach o config now records :=
    fun server hserver entry hentry =>
      (mem_transformEach hdomain).2 ⟨server, (mem_selectServers hselect hserver).1, entry, hentry, rfl⟩
  have hips : ∀ n ∈ (recordOf o records.domain (serversOf (collect o now records.map servers 0))
      (o.sort (collect o now records.map servers 0))).ips, ∃ e ∈ transformEach o config now records,
        n ∈ e.ips ∧ ∃ server ∈ servers, server.id = e.server := by
    intro n hn
    obtain ⟨server, hserver, entry, hentry, hmem⟩ := given_of_mem_recordOf hn
    exact ⟨_, hlisted server hserver entry hentry, hmem, server, hserver, rfl⟩
  cases hsort : o.sort (collect o now records.map servers 0) with
  | nil =>
    rw [hsort] at hips
    refine ⟨hips, fun hmatch => absurd hmatch Bool.false_ne_true,
      fun hne => absurd (List.eq_nil_iff_forall_not_mem.2 fun n hn => ?_) hne, ?_⟩
    · obtain ⟨item, hitem, -⟩ := mem_recordOf_ips.1 hn
      cases hitem
    · rintro - e he ⟨server, hserver, hid⟩
      obtain ⟨server', -, entry, hentry, rfl⟩ := (mem_transformEach hdomain).1 he
      change server.id = server'.id at hid
      change entry.ips.map UInt32.toNat = []
      rw [given_nil_of_sorted hsort hserver (hid ▸ hentry), List.map_nil]
  | cons first rest =>
    rw [hsort] at hips
    obtain ⟨server, hserver, entry, hentry, hip, hid, harea, -, htime, hexpire⟩ :=
      item_given ((mem_of_sort hsort first).1 List.mem_cons_self)
    refine ⟨hips, fun hmatch => ?_, fun _ => ⟨?_, fun e he hsame => ?_⟩, fun hnil => absurd hnil (ips_ne_nil hsort)⟩
    · refine ⟨_, hlisted server hserver entry hentry, hid.symm, ?_⟩
      change first.matchArea = true at hmatch
      exact List.any_eq_true.2 ⟨first.ip, hip, harea ▸ hmatch⟩
    · exact ⟨_, hlisted server hserver entry hentry, hid.symm⟩
    · obtain ⟨server', -, entry', hentry', rfl⟩ := (mem_transformEach hdomain).1 he
      change server'.id = first.server at hsame
      rw [hsame, hid, hentry, Option.some.injEq] at hentry'
      subst hentry'
      exact ⟨hexpire.symm, htime.symm⟩

/-- Reading again gives the same. -/
theorem get_get (db : LevelDb) (key : Bytes) :
    DiskKv.get P now (DiskKv.get P now db key).2 key = DiskKv.get P now db key := by
  cases hdata : db.lookup key with
  | none => rw [get_of_lookup_none hdata, get_of_lookup_none hdata]
  | some data =>
    by_cases hexpired : notExpired now (P.parseValue data)
    · simp only [DiskKv.get, hdata, if_pos hexpired]
    · simp only [DiskKv.get, hdata, if_neg hexpired, AList.lookup_erase]

theorem getDnsRecordsPb_again : (m.getDnsRecordsPb P now domain).2.getDnsRecordsPb P now domain =
    m.getDnsRecordsPb P now domain := by
  simp only [Manager.getDnsRecordsPb, get_get]

/-- **The two views** of a name agree in every store, whichever is asked for first. -/
theorem views_agree {m' : Manager} (hdomain : domain ≠ [])
    (h : resolve P o config now m domain = some (record, m')) : ∃ servers,
      selectServers o.regexMatch domain config.servers = some servers ∧
        InList servers record (getDnsRecordList P o config now m domain).1 ∧
        InList servers record (getDnsRecordList P o config now m' domain).1 := by
  obtain ⟨record', hrecord, hsame⟩ := Option.bind_eq_some_iff.1 h
  cases hsame
  obtain ⟨servers, hselect, -⟩ := Option.bind_eq_some_iff.1 hrecord
  have hlisted := transform_inList hdomain hselect hrecord
  refine ⟨servers, hselect, hlisted, ?_⟩
  change InList servers record (transformEach o config now
    ((m.getDnsRecordsPb P now domain).2.getDnsRecordsPb P now domain).1)
  rw [getDnsRecordsPb_again]
  exact hlisted

end Views

/-- A name with one address. -/
theorem views_agree_at : ∃ record servers,
    InList servers record (getDnsRecordList wire (plainOutside fun _ _ => true) oneServer 5000 oneManager [97]).1 := by
  obtain ⟨servers, -, hlisted, -⟩ := @views_agree wire (plainOutside fun _ _ => true) oneServer 5000 oneManager [97] _ _
    (by decide) rfl
  exact ⟨_, servers, hlisted⟩

end StDns.Store
