import StDns.Lib.Linear
import StDns.Store.RecordManager
import Mathlib.Data.List.Induction
import Mathlib.Data.List.Permutation
import Mathlib.Data.List.Sort

/-!
# Additions beside deletions

`add` runs on the thread of the client, `remove` and `clear` on that of the console, and nothing locks the records:
only the operations on a store are atomic. `add` reads the records of its domain long before it writes them back, and
`clear` erases the keys that its iterator saw one by one. A deletion spares an addition when it takes away nothing that
the addition has read, and an addition spares a `clear` when it does not write what is still to be erased after another
has written what stays (`Spares`). In every run of such steps the records are in the end those of an order of the calls
(`records_linearize`), because every step is one of the calls made whole, or none (`matched_step`).
-/

namespace StDns.Store

open Lib Proto Linear

/-! ## The source, operation by operation -/

/-- A call of `add`. -/
structure AddCall where
  now : Nat
  domain : Bytes
  ips : List UInt32
  dnsServer : Bytes
  expire : Int

/-- How far the thread of the client is: nothing under way, the records read and the reverse records of these addresses
still to be written, the reverse record of the first of them read. -/
inductive ClientPhase where
  | idle
  | adding (call : AddCall) (dnsRecords : Records) (ips : List UInt32)
  | resolved (call : AddCall) (dnsRecords : Records) (ips : List UInt32) (ip : UInt32) (record : ReverseRecord)

/-- How far the thread of the console is: nothing under way, or these keys still to be erased. -/
inductive ConsolePhase where
  | idle
  | clearing (keys : List Bytes)

structure Shared where
  manager : Manager
  client : ClientPhase := .idle
  console : ConsolePhase := .idle

inductive Thread where
  | client
  | console
  deriving DecidableEq

instance : Fintype Thread := ⟨{.client, .console}, fun t => by cases t <;> decide⟩

/-- The operations on the stores, and the end of a `clear`. -/
inductive StoreAction where
  | get (call : AddCall)
  | resolve
  | putReverse
  | put (call : AddCall)
  | remove (domain : Bytes)
  | iterate
  | erase (domain : Bytes)
  | cleared

/-- The keys that an iterator visits: LevelDB shows it what was there when it was made, in the order of the keys. -/
def DiskKv.visited (db : LevelDb) : List Bytes := db.keys.mergeSort fun a b => decide (a ≤ b)

def AddCall.op (call : AddCall) : Op := .add call.now call.domain call.ips call.dnsServer call.expire

/-- The records with the entry of the call. -/
def AddCall.message (call : AddCall) (dnsRecords : Records) : Records :=
  { dnsRecords with map := dnsRecords.map.insert call.dnsServer (Manager.newRecord call.now call.ips call.expire) }

/-- The call that is under way. -/
def ClientPhase.call : ClientPhase → Option AddCall
  | idle => none
  | adding call _ _ => some call
  | resolved call _ _ _ _ => some call

section Steps

variable (P : Protobuf)

/-- What `add_reverse_record` does with the record that it has read. -/
def Manager.putReverse (now : Nat) (m : Manager) (ip : UInt32) (domain : Bytes) (record : ReverseRecord) : Manager :=
  if domain ∉ record.domains then
    let record := { record with domains := record.domains ++ [domain] }
    { m with reverse := DiskKv.put P now m.reverse (ipText ip) (P.serializeReverse record) 0 }
  else m

/-- An operation on a store. A call begins with its first and returns with its last. -/
inductive SharedStep (s : Shared) : StoreAction → List (Mark Thread Op) → Shared → Prop
  | get (call : AddCall) : s.client = .idle →
    SharedStep s (.get call) [.call .client call.op]
      { s with
        manager := (s.manager.getDnsRecordsPb P call.now call.domain).2
        client := .adding call (s.manager.getDnsRecordsPb P call.now call.domain).1 call.ips }
  | resolve {call : AddCall} {dnsRecords : Records} {ip : UInt32} {ips : List UInt32} :
    s.client = .adding call dnsRecords (ip :: ips) →
    SharedStep s .resolve []
      { s with
        manager := (s.manager.reverseResolve P call.now ip).2
        client := .resolved call dnsRecords ips ip (s.manager.reverseResolve P call.now ip).1 }
  | putReverse {call : AddCall} {dnsRecords : Records} {ip : UInt32} {ips : List UInt32} {record : ReverseRecord} :
    s.client = .resolved call dnsRecords ips ip record →
    SharedStep s .putReverse []
      { s with
        manager := s.manager.putReverse P call.now ip call.domain record
        client := .adding call dnsRecords ips }
  | put {call : AddCall} {dnsRecords : Records} : s.client = .adding call dnsRecords [] →
    SharedStep s (.put call) [.ret .client]
      { s with
        manager := { s.manager with
          db := DiskKv.put P call.now s.manager.db call.domain (P.serializeRecords (call.message dnsRecords)) 0 }
        client := .idle }
  | remove (domain : Bytes) : s.console = .idle →
    SharedStep s (.remove domain) [.call .console (.remove domain), .ret .console]
      { s with manager := s.manager.remove domain }
  | iterate : s.console = .idle →
    SharedStep s .iterate [.call .console .clear] { s with console := .clearing (DiskKv.visited s.manager.db) }
  | erase {domain : Bytes} {keys : List Bytes} : s.console = .clearing (domain :: keys) →
    SharedStep s (.erase domain) [] { s with manager := s.manager.remove domain, console := .clearing keys }
  | cleared : s.console = .clearing [] → SharedStep s .cleared [.ret .console] { s with console := .idle }

/-- Where the domain is deleted, an addition for it that is under way has nothing of other servers to lose. -/
def SparesAdd (s : Shared) (domain : Bytes) : Prop :=
  ∀ call, s.client.call = some call → call.domain = domain →
    ∀ dnsServer, dnsServer ≠ call.dnsServer → (s.manager.records P call.now domain).map.lookup dnsServer = none

/-- Where the domain is written, a `clear` that is under way does not erase it any more, or it erases all there is. -/
def SparesClear (s : Shared) (domain : Bytes) : Prop :=
  ∀ keys, s.console = .clearing keys → domain ∉ keys ∨ ∀ d, s.manager.db.lookup d ≠ none → d ∈ keys

/-- What is to hold before an operation. -/
def Spares (s : Shared) : StoreAction → Prop
  | .remove domain | .erase domain => SparesAdd P s domain
  | .put call => SparesClear s call.domain
  | .get _ | .resolve | .putReverse | .iterate | .cleared => True

/-- All interleavings, from a store that calls have made. -/
def SharedRun (before : List Op) : List (Mark Thread Op) → Shared → Prop :=
  Reach (fun s marks s' => ∃ action, SharedStep P s action marks s') { manager := run P before }

/-- The interleavings of steps that spare what is under way. -/
def SparingRun (before : List Op) : List (Mark Thread Op) → Shared → Prop :=
  Reach (fun s marks s' => ∃ action, Spares P s action ∧ SharedStep P s action marks s') { manager := run P before }

end Steps

/-! ## The records that are stored -/

section Lasting

variable {P : Protobuf} {now : Nat} {db db' : LevelDb} {m m' : Manager} {domain key : Bytes}

/-- Records do not expire, and reading them leaves the store. -/
theorem Lasting.getDnsRecordsPb {Such : Bytes → Bytes → Prop} (h : Lasting P m.db Such) :
    m.getDnsRecordsPb P now domain = (m.records P now domain, m) := by
  obtain ⟨data, hget, -⟩ := h.get now domain
  have hstay : (m.getDnsRecordsPb P now domain).2 = m := by rw [Manager.getDnsRecordsPb, hget]
  exact Prod.ext rfl hstay

theorem lasting_apply (op : Op) (h : Lasting P m.db fun _ _ => True) :
    Lasting P (op.apply P m).db fun _ _ => True := by
  cases op with
  | add now domain ips dnsServer expire =>
    rw [Op.apply, add_db, h.getDnsRecordsPb]
    exact h.put trivial
  | remove domain => exact h.erase
  | clear => exact lasting_clear

theorem lasting_run (P : Protobuf) (ops : List Op) : Lasting P (run P ops).db fun _ _ => True := by
  induction ops using List.reverseRecOn with
  | nil => exact lasting_empty
  | append_singleton ops op ih =>
    rw [run, List.foldl_append]
    exact lasting_apply op ih

theorem get_congr (h : db.lookup key = db'.lookup key) :
    (DiskKv.get P now db key).1 = (DiskKv.get P now db' key).1 := by
  rw [DiskKv.get, DiskKv.get, h]
  cases db'.lookup key with
  | none => rfl
  | some data =>
    dsimp only
    split <;> rfl

/-- The records of a domain are what is stored for it. -/
theorem records_congr (h : m.db.lookup domain = m'.db.lookup domain) :
    m.records P now domain = m'.records P now domain := by
  simp only [Manager.records, Manager.getDnsRecordsPb, get_congr h]

end Lasting

/-! ## The calls made whole -/

section Matching

variable (P : Protobuf)

/-- The reverse records of some addresses. -/
def AddCall.index (call : AddCall) (ips : List UInt32) (m : Manager) : Manager :=
  ips.foldl (fun m ip => m.addReverseRecord P call.now ip call.domain) m

/-- An addition under way has been called and has not taken effect: it is going to write what an addition made now would
write. -/
def ClientKept (m m' : Manager) (phase : Phase Op) : ClientPhase → Prop
  | .idle => phase = .idle ∧ m.reverse = m'.reverse
  | .adding call dnsRecords ips => phase = .called call.op ∧
    call.message dnsRecords = call.message (m.records P call.now call.domain) ∧
    (call.index P ips m).reverse = (call.index P call.ips m').reverse
  | .resolved call dnsRecords ips ip record => phase = .called call.op ∧
    call.message dnsRecords = call.message (m.records P call.now call.domain) ∧
    (call.index P ips (m.putReverse P call.now ip call.domain record)).reverse = (call.index P call.ips m').reverse

/-- A `clear` under way has not taken effect, and what it does not erase any more is empty; or it has, and there is
something that it does not erase. -/
def ConsoleKept (db db' : LevelDb) (phase : Phase Op) : ConsolePhase → Prop
  | .idle => phase = .idle ∧ ∀ d, db.lookup d = db'.lookup d
  | .clearing keys => keys.Nodup ∧
    ((phase = .called .clear ∧ (∀ d ∈ keys, db.lookup d = db'.lookup d) ∧ ∀ d, d ∉ keys → db.lookup d = none) ∨
      (phase = .done ∧ (∃ d, d ∉ keys ∧ db.lookup d ≠ none) ∧ (∀ d ∈ keys, db'.lookup d = none) ∧
        ∀ d, d ∉ keys → db.lookup d = db'.lookup d))

/-- The state of the threads and that of the calls made whole. -/
structure Matches (s : Shared) (t : State Manager Thread Op) : Prop where
  client : ClientKept P s.manager t.store (t.phase .client) s.client
  console : ConsoleKept s.manager.db t.store.db (t.phase .console) s.console
  lasting : Lasting P s.manager.db fun _ _ => True
  lasting' : Lasting P t.store.db fun _ _ => True

end Matching

section Frames

variable {P : Protobuf} {now : Nat} {m m' n n' : Manager} {domain : Bytes} {ip : UInt32} {call : AddCall}
  {phase : Phase Op} {client : ClientPhase} {s : Shared}

/-- Reverse records depend on reverse records. -/
theorem putReverse_congr (record : ReverseRecord) (h : m.reverse = m'.reverse) :
    (m.putReverse P now ip domain record).reverse = (m'.putReverse P now ip domain record).reverse := by
  unfold Manager.putReverse
  split
  · dsimp only
    rw [h]
  · exact h

theorem reverseResolve_congr (h : m.reverse = m'.reverse) :
    (m.reverseResolve P now ip).1 = (m'.reverseResolve P now ip).1 ∧
      (m.reverseResolve P now ip).2.reverse = (m'.reverseResolve P now ip).2.reverse := by
  unfold Manager.reverseResolve
  rw [h]
  exact ⟨rfl, rfl⟩

/-- `add_reverse_record` reads and writes. -/
theorem addReverseRecord_eq : m.addReverseRecord P now ip domain =
    (m.reverseResolve P now ip).2.putReverse P now ip domain (m.reverseResolve P now ip).1 := rfl

theorem index_congr (ips : List UInt32) (h : m.reverse = m'.reverse) :
    (call.index P ips m).reverse = (call.index P ips m').reverse := by
  induction ips generalizing m m' with
  | nil => exact h
  | cons ip ips ih =>
    have hresolve : (m.reverseResolve P call.now ip).1 = (m'.reverseResolve P call.now ip).1 ∧ _ :=
      reverseResolve_congr h
    have hfirst : (m.addReverseRecord P call.now ip call.domain).reverse =
        (m'.addReverseRecord P call.now ip call.domain).reverse := by
      rw [addReverseRecord_eq, addReverseRecord_eq, hresolve.1]
      exact putReverse_congr _ hresolve.2
    exact ih hfirst

/-- Of the stores an addition under way sees the reverse records and the records of its domain. -/
theorem ClientKept.frame (h : ClientKept P m m' phase client) (hm : n.reverse = m.reverse)
    (hm' : n'.reverse = m'.reverse) (hmessage : ∀ call, client.call = some call →
      call.message (n.records P call.now call.domain) = call.message (m.records P call.now call.domain)) :
    ClientKept P n n' phase client := by
  cases client with
  | idle => exact ⟨h.1, (hm.trans h.2).trans hm'.symm⟩
  | adding call dnsRecords ips =>
    obtain ⟨hphase, hrecords, hindex⟩ := h
    refine ⟨hphase, hrecords.trans (hmessage call rfl).symm, ?_⟩
    rw [index_congr _ hm, index_congr _ hm', hindex]
  | resolved call dnsRecords ips ip record =>
    obtain ⟨hphase, hrecords, hindex⟩ := h
    refine ⟨hphase, hrecords.trans (hmessage call rfl).symm, ?_⟩
    rw [index_congr _ (putReverse_congr record hm), index_congr _ hm', hindex]

/-- A map with nothing but the entry of a server. -/
theorem insert_of_lookup_none {map : ServerMap} {dnsServer : Bytes} (record : Record)
    (h : ∀ d, d ≠ dnsServer → map.lookup d = none) :
    map.insert dnsServer record = (∅ : ServerMap).insert dnsServer record := by
  have hrest : map.entries.kerase dnsServer = [] := by
    refine List.eq_nil_iff_forall_not_mem.2 fun e he => ?_
    have hmem : e ∈ map.entries := (List.kerase_sublist dnsServer map.entries).subset he
    have hne : e.1 ≠ dnsServer := by
      rintro rfl
      exact List.notMem_keys_kerase e.1 map.nodupKeys (List.mem_map_of_mem he)
    exact AList.lookup_eq_none.1 (h e.1 hne) (List.mem_map_of_mem hmem)
  apply AList.ext
  rw [AList.entries_insert, AList.entries_insert, hrest]
  rfl

/-- **A deletion that spares** an addition under way does not change what that writes. -/
theorem message_remove (hspares : SparesAdd P s domain) (hcall : s.client.call = some call) :
    call.message ((s.manager.remove domain).records P call.now call.domain) =
      call.message (s.manager.records P call.now call.domain) := by
  by_cases hd : call.domain = domain
  · have hnone : ((s.manager.remove domain).db).lookup domain = none := AList.lookup_erase _ _
    have hempty : (s.manager.remove domain).records P call.now domain = { domain := domain, map := ∅ } := by
      rw [Manager.records, Manager.getDnsRecordsPb, get_of_lookup_none hnone]
      rfl
    rw [hd, hempty, AddCall.message, AddCall.message, insert_of_lookup_none _ (hspares call hcall hd)]
    rfl
  · rw [records_congr (AList.lookup_erase_ne hd)]

theorem putReverse_db (record : ReverseRecord) : (m.putReverse P now ip domain record).db = m.db := by
  unfold Manager.putReverse
  split <;> rfl

end Frames

section Steps

variable {P : Protobuf} {s : Shared} {t : State Manager Thread Op} {call : AddCall} {dnsRecords : Records} {ip : UInt32}
  {ips : List UInt32} {record : ReverseRecord} {domain : Bytes} {keys : List Bytes}

/-- The phase of the client's thread alone. -/
theorem Matches.update_client {m : Manager} {p : Phase Op} (hclient : ClientKept P s.manager m p s.client)
    (hconsole : ConsoleKept s.manager.db m.db (t.phase .console) s.console)
    (hlasting : Lasting P s.manager.db fun _ _ => True) (hlasting' : Lasting P m.db fun _ _ => True) :
    Matches P s { store := m, phase := Function.update t.phase .client p } := by
  refine ⟨?_, ?_, hlasting, hlasting'⟩
  · dsimp only
    rw [Function.update_self]
    exact hclient
  · dsimp only
    rw [Function.update_of_ne (by decide)]
    exact hconsole

/-- The phase of the console's thread alone. -/
theorem Matches.update_console {m : Manager} {p : Phase Op}
    (hclient : ClientKept P s.manager m (t.phase .client) s.client)
    (hconsole : ConsoleKept s.manager.db m.db p s.console)
    (hlasting : Lasting P s.manager.db fun _ _ => True) (hlasting' : Lasting P m.db fun _ _ => True) :
    Matches P s { store := m, phase := Function.update t.phase .console p } := by
  refine ⟨?_, ?_, hlasting, hlasting'⟩
  · dsimp only
    rw [Function.update_of_ne (by decide)]
    exact hclient
  · dsimp only
    rw [Function.update_self]
    exact hconsole

/-- An addition begins. -/
theorem matched_get (h : Matches P s t) (hclient : s.client = .idle) (call : AddCall) :
    ∃ t', Reach (Step (Op.apply P)) t [.call .client call.op] t' ∧
      Matches P { s with client := .adding call (s.manager.records P call.now call.domain) call.ips } t' := by
  have hkept := h.client
  rw [hclient] at hkept
  obtain ⟨hphase, hreverse⟩ := hkept
  exact ⟨_, .single (.call hphase), .update_client ⟨rfl, rfl, index_congr _ hreverse⟩ h.console h.lasting h.lasting'⟩

theorem matched_resolve (h : Matches P s t) (hclient : s.client = .adding call dnsRecords (ip :: ips)) :
    Matches P { s with
      manager := (s.manager.reverseResolve P call.now ip).2
      client := .resolved call dnsRecords ips ip (s.manager.reverseResolve P call.now ip).1 } t := by
  have hkept := h.client
  rw [hclient] at hkept
  exact ⟨hkept, h.console, h.lasting, h.lasting'⟩

theorem matched_putReverse (h : Matches P s t) (hclient : s.client = .resolved call dnsRecords ips ip record) :
    Matches P { s with
      manager := s.manager.putReverse P call.now ip call.domain record
      client := .adding call dnsRecords ips } t := by
  have hkept := h.client
  rw [hclient] at hkept
  obtain ⟨hphase, hrecords, hindex⟩ := hkept
  have hdb : (s.manager.putReverse P call.now ip call.domain record).db = s.manager.db := putReverse_db record
  refine ⟨⟨hphase, ?_, hindex⟩, ?_, ?_, h.lasting'⟩
  · rw [hrecords, records_congr (congrArg (AList.lookup call.domain) hdb)]
  · rw [hdb]
    exact h.console
  · rw [hdb]
    exact h.lasting

/-- A domain is removed. -/
theorem matched_remove (h : Matches P s t) (hspares : SparesAdd P s domain) (hconsole : s.console = .idle) :
    ∃ t', Reach (Step (Op.apply P)) t [.call .console (.remove domain), .ret .console] t' ∧
      Matches P { s with manager := s.manager.remove domain } t' := by
  have hkept := h.console
  rw [hconsole] at hkept
  obtain ⟨hphase, hsame⟩ := hkept
  refine ⟨_, reach_whole (.remove domain) hphase, ?_, ?_, h.lasting.erase, h.lasting'.erase⟩
  · exact h.client.frame rfl rfl fun call hcall => message_remove hspares hcall
  · rw [hconsole]
    refine ⟨hphase, fun d => ?_⟩
    by_cases hd : d = domain
    · subst hd
      exact (AList.lookup_erase _ _).trans (AList.lookup_erase d t.store.db).symm
    · exact (AList.lookup_erase_ne hd).trans ((hsame d).trans (AList.lookup_erase_ne hd).symm)

theorem mem_visited {db : LevelDb} {d : Bytes} : d ∈ DiskKv.visited db ↔ db.lookup d ≠ none := by
  rw [DiskKv.visited, List.mem_mergeSort, ne_eq, AList.lookup_eq_none, not_not, AList.mem_keys]

theorem nodup_visited (db : LevelDb) : (DiskKv.visited db).Nodup :=
  (List.mergeSort_perm _ _).nodup_iff.2 db.keys_nodup

/-- A `clear` begins: it has not taken effect. -/
theorem matched_iterate (h : Matches P s t) (hconsole : s.console = .idle) :
    ∃ t', Reach (Step (Op.apply P)) t [.call .console .clear] t' ∧
      Matches P { s with console := .clearing (DiskKv.visited s.manager.db) } t' := by
  have hkept := h.console
  rw [hconsole] at hkept
  obtain ⟨hphase, hsame⟩ := hkept
  refine ⟨_, .single (.call hphase), .update_console h.client ⟨nodup_visited _, .inl ⟨rfl, fun d _ => hsame d, ?_⟩⟩
    h.lasting h.lasting'⟩
  intro d hd
  rw [mem_visited, not_not] at hd
  exact hd

theorem matched_erase (h : Matches P s t) (hspares : SparesAdd P s domain)
    (hconsole : s.console = .clearing (domain :: keys)) :
    Matches P { s with manager := s.manager.remove domain, console := .clearing keys } t := by
  have hkept := h.console
  rw [hconsole] at hkept
  obtain ⟨hnodup, hkept⟩ := hkept
  obtain ⟨hnotMem, hnodup⟩ := List.nodup_cons.1 hnodup
  have hgone : (s.manager.remove domain).db.lookup domain = none := AList.lookup_erase _ _
  have hother : ∀ d, d ≠ domain → (s.manager.remove domain).db.lookup d = s.manager.db.lookup d :=
    fun d hd => AList.lookup_erase_ne hd
  have hne : ∀ d ∈ keys, d ≠ domain := by
    rintro d hd rfl
    exact hnotMem hd
  refine ⟨h.client.frame rfl rfl fun call hcall => message_remove hspares hcall, ⟨hnodup, ?_⟩,
    h.lasting.erase, h.lasting'⟩
  rcases hkept with ⟨hphase, hleft, hempty⟩ | ⟨hphase, ⟨d, hd, hstays⟩, hleft, hsame⟩
  · refine .inl ⟨hphase, fun d hd => ?_, fun d hd => ?_⟩
    · rw [hother d (hne d hd)]
      exact hleft d (List.mem_cons_of_mem _ hd)
    · by_cases hdd : d = domain
      · rw [hdd, hgone]
      · rw [hother d hdd]
        exact hempty d (by simp [hdd, hd])
  · refine .inr ⟨hphase, ⟨d, fun hmem => hd (List.mem_cons_of_mem _ hmem), ?_⟩,
      fun d hd => hleft d (List.mem_cons_of_mem _ hd), fun d hd => ?_⟩
    · rw [hother d fun he => hd (he ▸ List.mem_cons_self)]
      exact hstays
    · by_cases hdd : d = domain
      · rw [hdd, hgone, hleft domain List.mem_cons_self]
      · rw [hother d hdd]
        exact hsame d (by simp [hdd, hd])

/-- A `clear` returns: it takes effect now, if it has not yet. -/
theorem matched_cleared (h : Matches P s t) (hconsole : s.console = .clearing []) :
    ∃ t', Reach (Step (Op.apply P)) t [.ret .console] t' ∧ Matches P { s with console := .idle } t' := by
  have hkept := h.console
  rw [hconsole] at hkept
  obtain ⟨-, ⟨hphase, -, hempty⟩ | ⟨hphase, -, -, hsame⟩⟩ := hkept
  · have hcleared : ∀ d, s.manager.db.lookup d = (DiskKv.clear t.store.db).lookup d := by
      intro d
      rw [hempty d List.not_mem_nil, lookup_clear]
    exact ⟨_, reach_effect_ret hphase, .update_console (h.client.frame rfl rfl fun _ _ => rfl) ⟨rfl, hcleared⟩
      h.lasting (lasting_apply .clear h.lasting')⟩
  · exact ⟨_, .single (.ret hphase), .update_console h.client ⟨rfl, fun d => hsame d List.not_mem_nil⟩ h.lasting
      h.lasting'⟩

theorem lookup_insert_congr {db db' : LevelDb} {d : Bytes} (data : Bytes) (h : db.lookup d = db'.lookup d) :
    (db.insert domain data).lookup d = (db'.insert domain data).lookup d := by
  by_cases hd : d = domain
  · subst hd
    rw [AList.lookup_insert, AList.lookup_insert]
  · exact (AList.lookup_insert_ne hd).trans (h.trans (AList.lookup_insert_ne hd).symm)

/-- Before a domain is written that a `clear` under way does not erase any more, the `clear` takes effect; then the
domain has the same records on both sides, and the same may be written. -/
theorem ready_put (h : Matches P s t) (hspares : SparesClear s domain) : ∃ t', Reach (Step (Op.apply P)) t [] t' ∧
    t'.phase .client = t.phase .client ∧ t'.store.reverse = t.store.reverse ∧ Lasting P t'.store.db (fun _ _ => True) ∧
    s.manager.db.lookup domain = t'.store.db.lookup domain ∧
    ∀ data, ConsoleKept (s.manager.db.insert domain data) (t'.store.db.insert domain data) (t'.phase .console)
      s.console := by
  have hkept := h.console
  cases hconsole : s.console with
  | idle =>
    rw [hconsole] at hkept
    obtain ⟨hphase, hsame⟩ := hkept
    exact ⟨t, .refl, rfl, rfl, h.lasting', hsame domain,
      fun data => ⟨hphase, fun d => lookup_insert_congr data (hsame d)⟩⟩
  | clearing keys =>
    rw [hconsole] at hkept
    obtain ⟨hnodup, ⟨hphase, hleft, hempty⟩ | ⟨hphase, ⟨d, hd, hstays⟩, hleft, hsame⟩⟩ := hkept
    · by_cases hmem : domain ∈ keys
      · -- it is going to be erased, and the addition comes before the `clear`
        refine ⟨t, .refl, rfl, rfl, h.lasting', hleft domain hmem, fun data => ⟨hnodup, .inl ⟨hphase, fun d hd => ?_,
          fun d hd => ?_⟩⟩⟩
        · exact lookup_insert_congr data (hleft d hd)
        · rw [AList.lookup_insert_ne (ne_of_mem_of_not_mem hmem hd).symm]
          exact hempty d hd
      · have hcleared : ∀ d, (Op.clear.apply P t.store).db.lookup d = none := fun d => lookup_clear
        have hclient : Function.update t.phase .console .done .client = t.phase .client := by
          rw [Function.update_of_ne (by decide)]
        have hdone : Function.update t.phase .console .done .console = Phase.done := Function.update_self ..
        refine ⟨_, .single (.effect hphase), hclient, rfl, lasting_clear, ?_,
          fun data => ⟨hnodup, .inr ⟨hdone, ⟨domain, hmem, ?_⟩, fun d hd => ?_, fun d hd => ?_⟩⟩⟩
        · rw [hempty domain hmem, hcleared]
        · rw [AList.lookup_insert]
          exact Option.some_ne_none data
        · rw [AList.lookup_insert_ne (ne_of_mem_of_not_mem hd hmem)]
          exact hcleared d
        · exact lookup_insert_congr data ((hempty d hd).trans (hcleared d).symm)
    · have hmem : domain ∉ keys := (hspares keys hconsole).resolve_right fun hall => hd (hall d hstays)
      refine ⟨t, .refl, rfl, rfl, h.lasting', hsame domain hmem, fun data => ⟨hnodup, .inr ⟨hphase, ⟨d, hd, ?_⟩,
        fun d hd => ?_, fun d hd => lookup_insert_congr data (hsame d hd)⟩⟩⟩
      · by_cases hdd : d = domain
        · rw [hdd, AList.lookup_insert]
          exact Option.some_ne_none data
        · rw [AList.lookup_insert_ne hdd]
          exact hstays
      · rw [AList.lookup_insert_ne (ne_of_mem_of_not_mem hd hmem)]
        exact hleft d hd

/-- **An addition returns**: it takes effect where it writes the records. -/
theorem matched_put (h : Matches P s t) (hspares : SparesClear s call.domain)
    (hclient : s.client = .adding call dnsRecords []) :
    ∃ t', Reach (Step (Op.apply P)) t [.ret .client] t' ∧ Matches P { s with
      manager := { s.manager with
        db := DiskKv.put P call.now s.manager.db call.domain (P.serializeRecords (call.message dnsRecords)) 0 }
      client := .idle } t' := by
  have hkept := h.client
  rw [hclient] at hkept
  obtain ⟨hphase, hrecords, hindex⟩ := hkept
  obtain ⟨t₁, hready, hphase₁, hreverse, hlasting, hsame, hconsole⟩ := ready_put h hspares
  have hdb : (call.op.apply P t₁.store).db =
      DiskKv.put P call.now t₁.store.db call.domain (P.serializeRecords (call.message dnsRecords)) 0 := by
    rw [AddCall.op, Op.apply, add_db, hlasting.getDnsRecordsPb, hrecords, records_congr hsame]
    rfl
  have hadded : s.manager.reverse = (call.op.apply P t₁.store).reverse := by
    have hget : (t₁.store.getDnsRecordsPb P call.now call.domain).2.reverse = t.store.reverse := by
      rw [hlasting.getDnsRecordsPb]
      exact hreverse
    exact hindex.trans (index_congr call.ips hget).symm
  refine ⟨_, hready.trans (reach_effect_ret (hphase₁.trans hphase)), .update_client ⟨rfl, hadded⟩ ?_
    (h.lasting.put trivial) (lasting_apply call.op hlasting)⟩
  rw [hdb]
  exact hconsole _

/-- **Every step** is calls made whole, or none. -/
theorem matched_step {action : StoreAction} {marks : List (Mark Thread Op)} {s' : Shared} (h : Matches P s t)
    (hspares : Spares P s action) (hstep : SharedStep P s action marks s') :
    ∃ t', Reach (Step (Op.apply P)) t marks t' ∧ Matches P s' t' := by
  cases hstep with
  | get call hclient =>
    rw [h.lasting.getDnsRecordsPb]
    exact matched_get h hclient call
  | resolve hclient => exact ⟨t, .refl, matched_resolve h hclient⟩
  | putReverse hclient => exact ⟨t, .refl, matched_putReverse h hclient⟩
  | put hclient => exact matched_put h hspares hclient
  | remove domain hconsole => exact matched_remove h hspares hconsole
  | iterate hconsole => exact matched_iterate h hconsole
  | erase hconsole => exact ⟨t, .refl, matched_erase h hspares hconsole⟩
  | cleared hconsole => exact matched_cleared h hconsole

end Steps

/-- **Additions beside deletions**: where all steps spare what is under way, the records that are there when the calls
have returned are those of an order of the calls. -/
theorem records_linearize (P : Protobuf) (before : List Op) (marks : List (Mark Thread Op)) (s : Shared)
    (hrun : SparingRun P before marks s) (hclient : s.client = .idle) (hconsole : s.console = .idle) :
    ∃ order, order.Perm (calls marks) ∧ Linearizes marks order ∧
      (∀ now domain, s.manager.records P now domain = (run P (before ++ order)).records P now domain) ∧
      s.manager.reverse = (run P (before ++ order)).reverse := by
  have hinit : Matches P { manager := run P before } { store := run P before, phase := fun _ => .idle } :=
    ⟨⟨rfl, rfl⟩, ⟨rfl, fun _ => rfl⟩, lasting_run P before, lasting_run P before⟩
  obtain ⟨t, hreach, h⟩ := hrun.simulate (fun s marks s' t h hstep => by
    obtain ⟨action, hspares, hstep⟩ := hstep
    exact matched_step h hspares hstep) hinit
  have hkept := h.client
  rw [hclient] at hkept
  have hkept' := h.console
  rw [hconsole] at hkept'
  obtain ⟨order, horder, hstore⟩ := linearizes_of_reach hreach fun
    | .client => hkept.1
    | .console => hkept'.1
  have hrun : run P (before ++ order) = t.store := by rw [run, List.foldl_append, hstore, run]
  refine ⟨order, horder.perm, horder, fun now domain => ?_, ?_⟩
  · rw [hrun]
    exact records_congr (hkept'.2 domain)
  · rw [hrun]
    exact hkept.2

/-! ## A record that comes back -/

/-- `test01.com` with an address from a server. -/
def oldAdd : Op := .add 1700000000000 test01 [1] server1 60

/-- An address from another server. -/
def newAdd : AddCall := { now := 1700000001000, domain := test01, ips := [2], dnsServer := server2, expire := 60 }

/-- `test02.com` with an address. -/
def otherAdd : AddCall :=
  { now := 1700000001000, domain := [116, 101, 115, 116, 48, 50, 46, 99, 111, 109], ips := [2], dnsServer := server2
    expire := 60 }

/-- A domain is added while a `clear` erases another. -/
theorem records_linearize_at :
    let marks : List (Mark Thread Op) := [.call .console .clear, .call .client otherAdd.op, .ret .client, .ret .console]
    ∃ s, SparingRun wire [oldAdd] marks s ∧ ∃ order, order.Perm (calls marks) ∧ Linearizes marks order ∧
      (∀ now domain, s.manager.records wire now domain = (run wire ([oldAdd] ++ order)).records wire now domain) ∧
      s.manager.reverse = (run wire ([oldAdd] ++ order)).reverse := by
  have hvisited : DiskKv.visited (run wire [oldAdd]).db = [test01] := List.mergeSort_singleton _
  have iterated : SparingRun wire [oldAdd] [.call .console .clear] _ := .single ⟨.iterate, trivial, .iterate rfl⟩
  rw [hvisited] at iterated
  have read := iterated.next ⟨.get otherAdd, trivial, .get otherAdd rfl⟩
  have resolved := read.next ⟨.resolve, trivial, .resolve rfl⟩
  have erased := resolved.next ⟨.erase test01, fun call hcall hd => by
    cases hcall
    exact absurd hd (by decide), .erase rfl⟩
  have indexed := erased.next ⟨.putReverse, trivial, .putReverse rfl⟩
  have written := indexed.next ⟨.put otherAdd, fun keys hkeys => by
    cases hkeys
    exact .inl List.not_mem_nil, .put rfl⟩
  have cleared := written.next ⟨.cleared, trivial, .cleared rfl⟩
  exact ⟨_, cleared, records_linearize wire [oldAdd] _ _ cleared rfl rfl⟩

/-- Between the read and the write of an addition its domain is removed: what it has read is there again. -/
theorem records_not_linearize : ¬∀ (P : Protobuf) (before : List Op) (marks : List (Mark Thread Op)) (s : Shared),
    SharedRun P before marks s → s.client = .idle → s.console = .idle →
    ∃ order, order.Perm (calls marks) ∧
      ∀ now domain, (s.manager.records P now domain).Same ((run P (before ++ order)).records P now domain) := by
  intro h
  have read : SharedRun wire [oldAdd] [.call .client newAdd.op] _ := .single ⟨_, .get newAdd rfl⟩
  have removed := read.next ⟨_, .remove test01 rfl⟩
  have resolved := removed.next ⟨_, .resolve rfl⟩
  have indexed := resolved.next ⟨_, .putReverse rfl⟩
  have written := indexed.next ⟨_, .put rfl⟩
  obtain ⟨order, hperm, hsame⟩ := h wire [oldAdd] _ _ written rfl rfl
  have hgone : ∀ order ∈ [newAdd.op, .remove test01].permutations',
      ((run wire ([oldAdd] ++ order)).records wire 0 test01).map.lookup server1 = none := by decide +kernel
  have hlookup := (hsame 0 test01).2 server1
  rw [hgone order (List.mem_permutations'.2 hperm)] at hlookup
  revert hlookup
  decide +kernel

end StDns.Store
