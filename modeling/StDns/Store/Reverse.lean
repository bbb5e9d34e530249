import StDns.Lib.Decimal
import StDns.Store.RecordManager
import Mathlib.Data.List.Induction

/-!
# The reverse records

`add` writes in two stores: the domain gets an entry with its addresses, and every address gets the domain. What is
related is a pair of a domain and an address (`Pairs`). The records of the domains have entries about some of the pairs
(`Within`), also where a zero byte has cut a message off; the reverse records have all of them, each once (`Indexed`).
A call keeps both (`kept_apply`), `remove` and `clear` because they only take away from the first store. So every
address in a record resolves to its domain, and nothing resolves that was not added (`resolves`).
-/

namespace StDns.Store

open Lib Proto

/-! ## Pairs of a domain and an address -/

abbrev Pairs := Bytes → UInt32 → Prop

/-- The domains have a name, without zero bytes. -/
def Pairs.Named (R : Pairs) : Prop := ∀ domain ip, R domain ip → domain ≠ [] ∧ (0 : UInt8) ∉ domain

/-- The pairs of a domain with some addresses, besides others. -/
def Pairs.add (R : Pairs) (domain : Bytes) (ips : List UInt32) : Pairs :=
  fun d ip => R d ip ∨ (d = domain ∧ ip ∈ ips)

/-- The pairs after a call. -/
def Op.applyPairs (R : Pairs) : Op → Pairs
  | add _ domain ips _ _ => R.add domain ips
  | remove _ => R
  | clear => R

/-- An addition is for a domain with a name, without zero bytes. -/
def Op.Named : Op → Prop
  | add _ domain _ _ _ => domain ≠ [] ∧ (0 : UInt8) ∉ domain
  | remove _ => True
  | clear => True

/-- One of the calls adds the domain with the address. -/
def AddedWith (ops : List Op) : Pairs := fun domain ip =>
  ∃ now ips dnsServer expire, Op.add now domain ips dnsServer expire ∈ ops ∧ ip ∈ ips

section Pairs

variable {R : Pairs} {domain : Bytes} {ips : List UInt32} {ip : UInt32}

theorem Pairs.Named.add (h : R.Named) (hd : domain ≠ [] ∧ (0 : UInt8) ∉ domain) : (R.add domain ips).Named := by
  rintro d ip' (hR | ⟨rfl, -⟩)
  · exact h d ip' hR
  · exact hd

theorem Pairs.add_nil : R.add domain [] = R := by
  funext d ip'
  simp [Pairs.add]

theorem Pairs.add_cons : R.add domain (ip :: ips) = (R.add domain [ip]).add domain ips := by
  funext d ip'
  simp only [Pairs.add, List.mem_cons, List.not_mem_nil, or_false, eq_iff_iff]
  tauto

theorem addedWith_append (ops : List Op) (op : Op) : AddedWith (ops ++ [op]) = op.applyPairs (AddedWith ops) := by
  funext d ip'
  cases op with
  | add now domain ips dnsServer expire =>
    simp only [AddedWith, Op.applyPairs, Pairs.add, List.mem_append, List.mem_singleton, Op.add.injEq, eq_iff_iff]
    constructor
    · rintro ⟨now', ips', s, e, h | ⟨rfl, rfl, rfl, rfl, rfl⟩, hip⟩
      · exact .inl ⟨now', ips', s, e, h, hip⟩
      · exact .inr ⟨rfl, hip⟩
    · rintro (⟨now', ips', s, e, h, hip⟩ | ⟨rfl, hip⟩)
      · exact ⟨now', ips', s, e, .inl h, hip⟩
      · exact ⟨now, ips, dnsServer, expire, .inr ⟨rfl, rfl, rfl, rfl, rfl⟩, hip⟩
  | remove domain => simp [AddedWith, Op.applyPairs]
  | clear => simp [AddedWith, Op.applyPairs]

end Pairs

/-! ## The two stores -/

/-- The entries that are read for a domain are about pairs. -/
def Within (P : Protobuf) (db : LevelDb) (R : Pairs) : Prop :=
  Lasting P db fun domain data =>
    ∀ s record, (P.parseRecords data).map.lookup s = some record → ∀ ip ∈ record.ips, R domain ip

/-- An address is stored with the domains of its pairs, each once, or not at all. -/
def Indexed (P : Protobuf) (reverse : LevelDb) (R : Pairs) : Prop :=
  ∀ ip, (reverse.lookup (ipText ip) = none ∧ ∀ domain, ¬R domain ip) ∨
    ∃ record : ReverseRecord, Stores P reverse (ipText ip) (P.serializeReverse record) ∧ record.domains.Nodup ∧
      ∀ domain, domain ∈ record.domains ↔ R domain ip

structure Kept (P : Protobuf) (m : Manager) (R : Pairs) : Prop where
  named : R.Named
  within : Within P m.db R
  indexed : Indexed P m.reverse R

/-- Two addresses have two texts. -/
theorem ipText_injective : Function.Injective ipText := fun _ _ h => UInt32.toNat_inj.1 (decimal_injective h)

section Steps

variable {P : Protobuf} {now : Nat} {m : Manager} {R R' : Pairs} {domain : Bytes} {ip : UInt32}

/-- **Reading** gives entries about pairs, and the store stays. -/
theorem Within.getDnsRecordsPb (now : Nat) (domain : Bytes) (h : Within P m.db R) : ∃ records : Records,
    m.getDnsRecordsPb P now domain = ({ records with domain := domain }, m) ∧
      ∀ s record, records.map.lookup s = some record → ∀ ip ∈ record.ips, R domain ip := by
  obtain ⟨data, hget, hdata⟩ := Lasting.get h now domain
  rw [Manager.getDnsRecordsPb, hget]
  by_cases hnil : data = []
  · refine ⟨{}, by simp only [hnil, ne_eq, not_true_eq_false, if_false], fun s record hl => ?_⟩
    rw [AList.lookup_empty] at hl
    cases hl
  · exact ⟨P.parseRecords data, by simp only [ne_eq, hnil, not_false_eq_true, if_true], hdata.resolve_left hnil⟩

/-- **Resolving** gives the domains of the pairs, each once, and the store stays. -/
theorem Indexed.reverseResolve (hP : P.Cuts) (now : Nat) (ip : UInt32) (h : Indexed P m.reverse R) :
    ∃ record : ReverseRecord, m.reverseResolve P now ip = ({ record with ip := ip }, m) ∧ record.domains.Nodup ∧
      ∀ domain, domain ∈ record.domains ↔ R domain ip := by
  rcases h ip with ⟨hdb, hnone⟩ | ⟨record, hdb, hnodup, hmem⟩
  · refine ⟨{}, ?_, List.nodup_nil, fun domain => ⟨fun hd => ?_, fun hR => absurd hR (hnone domain)⟩⟩
    · rw [Manager.reverseResolve, get_of_lookup_none hdb]
      rfl
    · cases hd
  · refine ⟨record, ?_, hnodup, hmem⟩
    rw [Manager.reverseResolve, hdb.get]
    by_cases hdata : P.serializeReverse record = []
    · -- a message without bytes is the empty one
      have hempty := P.reverse_inverse {}
      rw [hP.reverse_empty, ← hdata, P.reverse_inverse] at hempty
      subst hempty
      simp only [hdata, ne_eq, not_true_eq_false, if_false]
    · simp only [ne_eq, hdata, not_false_eq_true, if_true, P.reverse_inverse]

/-- One address gets the domain. -/
theorem indexed_addReverseRecord (hP : P.Cuts) (hnamed : (R.add domain [ip]).Named) (h : Indexed P m.reverse R) :
    Indexed P (m.addReverseRecord P now ip domain).reverse (R.add domain [ip]) := by
  obtain ⟨record, hget, hnodup, hmem⟩ := h.reverseResolve hP now ip
  rw [Manager.addReverseRecord, hget]
  by_cases hd : domain ∈ record.domains
  · -- it has it already
    have hsame : R.add domain [ip] = R := by
      funext d ip'
      refine propext ⟨?_, .inl⟩
      rintro (hR | ⟨rfl, hip⟩)
      · exact hR
      · rw [List.mem_singleton.1 hip]
        exact (hmem d).1 hd
    simp only [hd, not_true_eq_false, if_false]
    rw [hsame]
    exact h
  · simp only [hd, not_false_eq_true, if_true]
    intro ip'
    by_cases hip : ip' = ip
    · subst hip
      refine .inr ⟨{ ip := ip', domains := record.domains ++ [domain] }, stores_put ?_, ?_, fun d => ?_⟩
      · refine hP.reverse_zeroFree _ fun d hd' => hnamed d ip' ?_
        rcases List.mem_append.1 hd' with hd' | hd'
        · exact .inl ((hmem d).1 hd')
        · exact .inr ⟨List.mem_singleton.1 hd', List.mem_singleton_self ip'⟩
      · exact hnodup.append (List.nodup_singleton domain) (List.disjoint_singleton.2 hd)
      · rw [List.mem_append, List.mem_singleton, hmem d]
        simp [Pairs.add]
    · have hother : ∀ d, R.add domain [ip] d ip' ↔ R d ip' := by
        intro d
        simp [Pairs.add, hip]
      have hne : ipText ip' ≠ ipText ip := fun he => hip (ipText_injective he)
      unfold Stores
      rw [lookup_put_ne hne]
      simp only [hother]
      exact h ip'

/-- All addresses get the domain. -/
theorem indexed_foldl_addReverseRecord (hP : P.Cuts) (hd : domain ≠ [] ∧ (0 : UInt8) ∉ domain) (ips : List UInt32)
    (hnamed : R.Named) (h : Indexed P m.reverse R) :
    Indexed P (ips.foldl (fun m ip => m.addReverseRecord P now ip domain) m).reverse (R.add domain ips) := by
  induction ips generalizing m R with
  | nil =>
    rw [Pairs.add_nil]
    exact h
  | cons ip ips ih =>
    rw [List.foldl_cons, Pairs.add_cons]
    exact ih (hnamed.add hd) (indexed_addReverseRecord hP (hnamed.add hd) h)

/-- The domain gets an entry with the addresses: what is stored may be cut off. -/
theorem within_add (hP : P.Cuts) {ips : List UInt32} {dnsServer : Bytes} {expire : Int} (h : Within P m.db R) :
    Within P (m.add P now domain ips dnsServer expire).db (R.add domain ips) := by
  obtain ⟨records, hget, hentries⟩ := h.getDnsRecordsPb now domain
  rw [add_db, Manager.added, hget]
  refine (h.mono fun _ _ hR s record hl ip hip => .inl (hR s record hl ip hip)).put fun s record hl ip hip => ?_
  have hl' := hP.records_cut _ _ (List.takeWhile_prefix _) s record hl
  by_cases hs : s = dnsServer
  · subst hs
    rw [AList.lookup_insert, Option.some.injEq] at hl'
    rw [← hl'] at hip
    exact .inr ⟨rfl, hip⟩
  · rw [AList.lookup_insert_ne hs] at hl'
    exact .inl (hentries s record hl' ip hip)

/-- What `add` leaves in the reverse store. -/
theorem add_reverse (ips : List UInt32) (dnsServer : Bytes) (expire : Int) :
    (m.add P now domain ips dnsServer expire).reverse =
      (ips.foldl (fun m ip => m.addReverseRecord P now ip domain) (m.getDnsRecordsPb P now domain).2).reverse := rfl

/-- **One call** keeps the two stores. -/
theorem kept_apply (hP : P.Cuts) {op : Op} (h : Kept P m R) (hop : op.Named) :
    Kept P (op.apply P m) (op.applyPairs R) := by
  cases op with
  | add now domain ips dnsServer expire =>
    refine ⟨h.named.add hop, within_add hP h.within, ?_⟩
    obtain ⟨records, hget, -⟩ := h.within.getDnsRecordsPb now domain
    rw [Op.apply, add_reverse, hget]
    exact indexed_foldl_addReverseRecord hP hop ips h.named h.indexed
  | remove domain => exact ⟨h.named, h.within.erase, h.indexed⟩
  | clear => exact ⟨h.named, lasting_clear, h.indexed⟩

/-- **All calls** keep the two stores. -/
theorem kept_run (hP : P.Cuts) {ops : List Op} (hops : ∀ op ∈ ops, op.Named) : Kept P (run P ops) (AddedWith ops) := by
  induction ops using List.reverseRecOn with
  | nil =>
    have hnone : ∀ d ip, ¬AddedWith [] d ip := by
      rintro d ip ⟨_, _, _, _, h, -⟩
      cases h
    exact ⟨fun d ip h => absurd h (hnone d ip), lasting_empty,
      fun ip => .inl ⟨AList.lookup_empty _, fun d => hnone d ip⟩⟩
  | append_singleton ops op ih =>
    rw [run, List.foldl_append, addedWith_append]
    exact kept_apply hP (ih fun op' h => hops op' (List.mem_append_left _ h)) (hops op (by simp))

end Steps

/-- **Reverse records**: every address in a record resolves to the domain of the record, and an address resolves to
different domains that were added with it. -/
theorem resolves (P : Protobuf) (hP : P.Cuts) (ops : List Op) (hops : ∀ op ∈ ops, op.Named) :
    (∀ now now' domain s record ip, ((run P ops).records P now domain).map.lookup s = some record →
      ip ∈ record.ips → domain ∈ ((run P ops).reverseResolve P now' ip).1.domains) ∧
    ∀ now ip, ((run P ops).reverseResolve P now ip).1.domains.Nodup ∧
      ∀ domain ∈ ((run P ops).reverseResolve P now ip).1.domains, AddedWith ops domain ip := by
  have h := kept_run hP hops
  refine ⟨fun now now' domain s record ip hl hip => ?_, fun now ip => ?_⟩
  · obtain ⟨records, hget, hentries⟩ := h.within.getDnsRecordsPb now domain
    obtain ⟨reverse, hresolve, -, hmem⟩ := h.indexed.reverseResolve hP now' ip
    rw [Manager.records, hget] at hl
    rw [hresolve]
    exact (hmem domain).2 (hentries s record hl ip hip)
  · obtain ⟨reverse, hresolve, hnodup, hmem⟩ := h.indexed.reverseResolve hP now ip
    rw [hresolve]
    exact ⟨hnodup, fun domain hd => (hmem domain).1 hd⟩

/-- An address of a server that is added anew, one that is removed, and the address whose zero byte cuts the message of
its domain off. -/
theorem resolves_at :
    let ops : List Op := [.add 1700000000000 test01 [1, 2] server1 60, .add 1700000001000 test01 [3] server1 60,
      .remove test01, .add 1700000002000 test01 [0, 2] server2 60]
    (∀ now now' domain s record ip, ((run wire ops).records wire now domain).map.lookup s = some record →
      ip ∈ record.ips → domain ∈ ((run wire ops).reverseResolve wire now' ip).1.domains) ∧
    ∀ now ip, ((run wire ops).reverseResolve wire now ip).1.domains.Nodup ∧
      ∀ domain ∈ ((run wire ops).reverseResolve wire now ip).1.domains, AddedWith ops domain ip := by
  refine resolves wire wire_cuts _ fun op hop => ?_
  simp only [List.mem_cons, List.not_mem_nil, or_false] at hop
  rcases hop with rfl | rfl | rfl | rfl
  · exact ⟨by decide, by decide⟩
  · exact ⟨by decide, by decide⟩
  · exact trivial
  · exact ⟨by decide, by decide⟩

end StDns.Store
