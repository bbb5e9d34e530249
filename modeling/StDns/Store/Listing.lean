import StDns.Store.KvHistory
import StDns.Store.RecordManager
import StDns.Store.Transform
import StDns.Area.NetCaches

/-!
# Listing the records

What the console shows of the record manager: the records that each server gave for a name, and the statistics of all
names. The statistics make a record for every stored name, and fail when the selection of its servers does
(`isSome_stats`).
-/

namespace StDns.Store

open Lib Utils Area Protocol Proto Server

/-- `to_string` of a flag. -/
def boolText (b : Bool) : Bytes := decimal b.toNat

/-- `dns_record::serialize`. -/
def serializeRecord (record : DnsRecord) : Bytes :=
  record.server ++ tab :: (record.domain ++ tab :: (decimal record.expireTime ++ tab :: (boolText record.matchArea ++
    tab :: (ipsToStr (record.ips.map UInt32.ofNat) ++ tab :: boolText record.expire))))

/-- `dns_record::transform`: the record that each server gave. -/
def transformEach (o : Outside) (config : Config) (now : Nat) (records : Records) : List DnsRecord :=
  if records.domain ≠ [] then
    config.servers.filterMap fun server => (records.map.lookup server.id).map fun item =>
      { ips := item.ips.map UInt32.toNat
        expireTime := item.expire.toNat
        server := server.id
        domain := records.domain
        matchArea := item.ips.any fun ip => o.isAreaIp server.areas ip
        expire := item.expire.toNat < now / 1000 }
  else []

/-- `get_dns_record_list`. -/
def getDnsRecordList (P : Protobuf) (o : Outside) (config : Config) (now : Nat) (m : Manager) (domain : Bytes) :
    List DnsRecord × Manager :=
  let (records, m) := m.getDnsRecordsPb P now domain
  (transformEach o config now records, m)

/-! ## Statistics -/

/-- `dns_record_stats`. -/
structure DnsRecordStats where
  totalDomain : UInt32 := 0
  trustedDomain : UInt32 := 0
  totalIp : UInt32 := 0
  trustedIp : UInt16 := 0
  deriving DecidableEq

namespace DnsRecordStats

def serialize (stats : DnsRecordStats) : Bytes :=
  ascii "total_domain:" ++ decimal stats.totalDomain.toNat ++ ascii "\ntrusted_domain:" ++
    decimal stats.trustedDomain.toNat ++ ascii "\ntotal_ip:" ++ decimal stats.totalIp.toNat ++ ascii "\ntrusted_ip:" ++
    decimal stats.trustedIp.toNat

theorem length_serialize_le (stats : DnsRecordStats) : stats.serialize.length ≤ 86 := by
  have h32 : ∀ n : UInt32, (decimal n.toNat).length ≤ 10 := fun n =>
    length_decimal_le (by omega) (n.toNat_lt.trans (by omega))
  have h16 : (decimal stats.trustedIp.toNat).length ≤ 5 :=
    length_decimal_le (by omega) (stats.trustedIp.toNat_lt.trans (by omega))
  have h1 := h32 stats.totalDomain
  have h2 := h32 stats.trustedDomain
  have h3 := h32 stats.totalIp
  have htexts : (ascii "total_domain:").length = 13 ∧ (ascii "\ntrusted_domain:").length = 16 ∧
      (ascii "\ntotal_ip:").length = 10 ∧ (ascii "\ntrusted_ip:").length = 12 := by decide
  simp only [serialize, List.length_append]
  omega

/-- The statistics with one more name. -/
def add (stats : DnsRecordStats) (record : DnsRecord) : DnsRecordStats where
  totalDomain := stats.totalDomain + 1
  totalIp := stats.totalIp + record.totalIpCount
  trustedIp := stats.trustedIp + record.trustedIpCount.toUInt16
  trustedDomain := if record.matchArea then stats.trustedDomain + 1 else stats.trustedDomain

end DnsRecordStats

/-- The consumer of `stats`. -/
def addStats (P : Protobuf) (o : Outside) (config : Config) (now : Nat) (stats : DnsRecordStats) (data : Bytes) :
    Option DnsRecordStats := do
  let records := P.parseRecords data
  if records.domain ≠ [] then
    let record ← transform o config now records
    return stats.add record
  else return stats

/-- `dns_record_manager::stats`. -/
def stats (P : Protobuf) (o : Outside) (config : Config) (now : Nat) (m : Manager) : Option DnsRecordStats :=
  (DiskKv.list P now m.db).foldlM (fun stats e => addStats P o config now stats e.2) {}

section Stats

variable {P : Protobuf} {o : Outside} {config : Config} {now : Nat} {m : Manager}

theorem isSome_transform {records : Records} : (transform o config now records).isSome = true ↔
    (selectServers o.regexMatch records.domain config.servers).isSome = true := by
  cases hselect : selectServers o.regexMatch records.domain config.servers <;> simp [transform, hselect]

/-- **The statistics** can be made iff the servers can be selected for every stored name. -/
theorem isSome_stats : (stats P o config now m).isSome = true ↔ ∀ e ∈ DiskKv.list P now m.db,
    (P.parseRecords e.2).domain ≠ [] →
      (selectServers o.regexMatch (P.parseRecords e.2).domain config.servers).isSome = true := by
  rw [stats]
  generalize ({} : DnsRecordStats) = init
  induction DiskKv.list P now m.db generalizing init with
  | nil => simp
  | cons e entries ih =>
    rw [List.foldlM_cons, List.forall_mem_cons, ← @isSome_transform o config now]
    by_cases hdomain : (P.parseRecords e.2).domain = []
    · simp only [addStats, hdomain, ne_eq, not_true_eq_false, if_false, Option.pure_def, Option.bind_eq_bind,
        Option.bind_some, false_implies, true_and]
      exact ih init
    · cases hrecord : transform o config now (P.parseRecords e.2) with
      | none => simp [addStats, hdomain, hrecord]
      | some record =>
        simp only [addStats, hdomain, hrecord, ne_eq, not_false_eq_true, if_true, Option.pure_def, Option.bind_eq_bind,
          Option.bind_some, true_implies, Option.isSome_some, true_and]
        exact ih _

end Stats

end StDns.Store
