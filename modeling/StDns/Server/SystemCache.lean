import StDns.Server.SystemOrigin

/-!
# Queries that are answered from the cache

Once an addition for a host is written, and as long as the console does not take the host away, a query for it is
answered at its first lookup, with addresses, however long ago the addition was: the handler does not wait for the
upstreams, and later additions of other servers, removals of other hosts and additions under way do not change that
(`served_of_run`). It takes messages without a zero byte, because a store cuts a message off there, texts that can be
read back, and a request whose questions leave room for an address.
-/

namespace StDns.Server

open Lib Protocol Proto Store Client TaskQueue Linear

/-! ## What is stored for a host -/

/-- Entries that bring no zero byte into a message. -/
def CleanRow (row : Bytes → Option Record) : Prop :=
  ∀ id record, row id = some record → id ≠ [] ∧ (0 : UInt8) ∉ id ∧ record.ZeroFree

/-- The server has given addresses. -/
def HasIps (id : Bytes) (row : Bytes → Option Record) : Prop := ∃ record, row id = some record ∧ record.ips ≠ []

section Rows

variable {P : Protobuf} {db : LevelDb} {host id : Bytes} {row : Bytes → Option Record}

theorem clean_of_row (h : RowOf P db host row) : CleanRow row := by
  rcases h with ⟨-, hnone⟩ | ⟨records, hzero, -, hrow⟩
  · intro id record hrecord
    rw [hnone id] at hrecord
    cases hrecord
  · intro id record hrecord
    exact hzero.2 id record ((hrow id).trans hrecord)

theorem rowOf_congr {db' : LevelDb} (h : RowOf P db host row) (hdb : db'.lookup host = db.lookup host) :
    RowOf P db' host row := by
  unfold RowOf Stores at *
  rwa [hdb]

/-- What an addition writes. -/
theorem rowOf_put {call : AddCall} {dnsRecords : Records} (hdomain : dnsRecords.domain = call.domain)
    (hclean : CleanRow fun id => dnsRecords.map.lookup id) (hop : call.op.Storable) :
    RowOf P (DiskKv.put P call.now db call.domain (P.serializeRecords (call.message dnsRecords)) 0) call.domain
      fun id => (call.message dnsRecords).map.lookup id := by
  obtain ⟨hd0, hs, hs0, hrecord⟩ := hop
  have hzero : (call.message dnsRecords).ZeroFree := by
    refine ⟨?_, fun id record hl => ?_⟩
    · change (0 : UInt8) ∉ dnsRecords.domain
      rw [hdomain]
      exact hd0
    · rw [AddCall.message] at hl
      by_cases hid : id = call.dnsServer
      · subst hid
        rw [AList.lookup_insert, Option.some.injEq] at hl
        exact ⟨hs, hs0, hl ▸ hrecord⟩
      · rw [AList.lookup_insert_ne hid] at hl
        exact hclean id record hl
  exact .inr ⟨_, hzero, stores_put (P.records_zeroFree _ hzero), fun _ => rfl⟩

/-- An addition that has addresses leaves those of other servers. -/
theorem HasIps.message {call : AddCall} {dnsRecords : Records} (hips : call.ips ≠ [])
    (h : HasIps id fun id => dnsRecords.map.lookup id) :
    HasIps id fun id => (call.message dnsRecords).map.lookup id := by
  unfold HasIps AddCall.message
  by_cases hid : id = call.dnsServer
  · subst hid
    exact ⟨_, AList.lookup_insert _, hips⟩
  · obtain ⟨record, hrecord, hne⟩ := h
    exact ⟨record, (AList.lookup_insert_ne hid).trans hrecord, hne⟩

theorem hasIps_message {call : AddCall} (dnsRecords : Records) (hips : call.ips ≠ []) :
    HasIps call.dnsServer fun id => (call.message dnsRecords).map.lookup id := ⟨_, AList.lookup_insert _, hips⟩

/-- **A host** for which a selected server has given addresses is resolved to addresses. -/
theorem ips_of_row {o : Outside} {config : Config} {now : Nat} {m m' : Manager} {record : DnsRecord}
    {server : RemoteDnsServer} (hrow : RowOf P m.db host row) (hips : HasIps server.id row)
    (hselected : Selected o.regexMatch config host server)
    (h : resolve P o config now m host = some (record, m')) : record.ips ≠ [] := by
  obtain ⟨servers, hservers, hserver⟩ := hselected
  obtain ⟨records, hget, hlookup⟩ := getDnsRecordsPb_row now hrow
  obtain ⟨hrecord, -⟩ := resolve_eq_some.1 h
  rw [hget, transform] at hrecord
  simp only [hservers, Option.bind_eq_bind, Option.bind_some, Option.pure_def, Option.some.injEq] at hrecord
  obtain ⟨entry, hentry, hne⟩ := hips
  obtain ⟨ip, hip⟩ := List.exists_mem_of_ne_nil _ hne
  obtain ⟨item, hitem, -⟩ := exists_item o now hserver ⟨entry, (hlookup _).trans hentry, hip⟩
  have hsorted : item ∈ o.sort (collect o now records.map servers 0) := (mem_sorted item).2 hitem
  cases hsort : o.sort (collect o now records.map servers 0) with
  | nil =>
    rw [hsort] at hsorted
    cases hsorted
  | cons first rest =>
    rw [hsort] at hrecord
    rw [← hrecord]
    exact ips_ne_nil hsort

end Rows

/-! ## Additions -/

/-- The addition that is under way, and the records that it has read. -/
def ClientPhase.reading : ClientPhase → Option (AddCall × Records)
  | .idle => none
  | .adding call dnsRecords _ | .resolved call dnsRecords _ _ _ => some (call, dnsRecords)

/-- An addition brings addresses, from a server that is selected for its host. -/
def Brings (o : Outside) (config : Config) (call : AddCall) (dnsRecords : Records) : Prop :=
  dnsRecords.domain = call.domain ∧ call.ips ≠ [] ∧
    ∃ server, Selected o.regexMatch config call.domain server ∧ server.id = call.dnsServer

/-- What a run keeps of its additions. -/
structure Kept.Additions (o : Outside) (config : Config) (s : ServerState) : Prop where
  finishing : ∀ f, s.finishing = some f →
    Selected o.regexMatch config f.job.task.input.1 f.job.task.input.2 ∧ (f.added = false → f.handed ≠ [])
  client : ∀ call dnsRecords, ClientPhase.reading s.client = some (call, dnsRecords) → Brings o config call dnsRecords

/-- The console takes the host away. -/
def Removes (host : Bytes) : ServerEvent → Prop
  | .store (.remove domain) | .store (.erase domain) => domain = host
  | _ => False

/-- An addition for the host that is written brings no zero byte into a message, and no text that is not read back. -/
def Clean (host : Bytes) : ServerEvent → Prop
  | .store (.put call) => call.domain = host → call.op.Storable ∧ Utf8 call.domain ∧ Utf8 call.dnsServer
  | _ => True

/-- What a run keeps of the records of a host. -/
structure Kept.Row (P : Protobuf) (host : Bytes) (Has : (Bytes → Option Record) → Prop) (s : ServerState) : Prop where
  row : ∃ row, RowOf P s.sync.records.db host row ∧ Has row
  client : ∀ call dnsRecords, ClientPhase.reading s.client = some (call, dnsRecords) → call.domain = host →
    (CleanRow fun id => dnsRecords.map.lookup id) ∧ Has fun id => dnsRecords.map.lookup id

section Additions

variable {P : Protobuf} {o : Outside} {order : List Nat → List Nat} {config : Config} {events shown : List ServerEvent}
  {s s' : ServerState} {host : Bytes} {Has : (Bytes → Option Record) → Prop} {row : Bytes → Option Record}

theorem Kept.Additions.next (h : Kept.Additions o config s) (hrun : ServerRun P o order config events s)
    (hstep : ServerStep P o order config s shown s') : Kept.Additions o config s' := by
  cases hstep with
  | @returnedLast before after job next ips handed loadAll arrival _ hjobs =>
    refine ⟨fun f hf => ?_, h.client⟩
    cases hf
    have hmem : job.task ∈ s.underWay := by
      refine List.mem_append_right _ (List.mem_map_of_mem ?_)
      rw [hjobs]
      exact List.mem_append_right _ List.mem_cons_self
    have hwanted := (wanted_of_run hrun).inputs.outstanding _ ((underWay_perm hrun).mem_iff.2 hmem)
    exact ⟨hwanted.2, fun hadded => of_decide_eq_false hadded⟩
  | @get f marks shared now hfinishing hadded hshared =>
    cases hshared
    refine ⟨h.finishing, fun call dnsRecords hreading => ?_⟩
    cases hreading
    obtain ⟨hselected, hhanded⟩ := h.finishing f hfinishing
    refine ⟨rfl, fun hips => hhanded hadded (List.map_eq_nil_iff.1 hips), _, hselected, rfl⟩
  | @put f call marks shared hfinishing hshared =>
    cases hshared
    refine ⟨fun f' hf => ?_, fun call dnsRecords hreading => by cases hreading⟩
    cases hf
    exact ⟨(h.finishing f hfinishing).1, fun hadded => by cases hadded⟩
  | stores hnone hshared =>
    have hclient := h.client
    cases hshared with
    | get call => exact absurd rfl (hnone call).1
    | put => exact absurd rfl (hnone _).2
    | resolve hphase =>
      change s.client = _ at hphase
      rw [hphase] at hclient
      exact ⟨h.finishing, hclient⟩
    | putReverse hphase =>
      change s.client = _ at hphase
      rw [hphase] at hclient
      exact ⟨h.finishing, hclient⟩
    | _ => exact ⟨h.finishing, hclient⟩
  | completed => exact ⟨fun f hf => (by cases hf), h.client⟩
  | _ => exact ⟨h.finishing, h.client⟩

theorem additions_of_run (h : ServerRun P o order config events s) : Kept.Additions o config s := by
  refine h.keeps (fun _ => Kept.Additions o config)
    ⟨fun f hf => (by cases hf), fun _ _ hreading => by cases hreading⟩ ?_
  exact fun _ _ _ _ hreach hinv hstep => hinv.next hreach hstep

/-! ## The records of a host -/

/-- Reading leaves what is stored for a host. -/
theorem rowOf_read {m : Manager} (now : Nat) (domain : Bytes) (h : RowOf P m.db host row) :
    RowOf P (m.getDnsRecordsPb P now domain).2.db host row := by
  by_cases hdomain : domain = host
  · subst hdomain
    obtain ⟨records, hget, -⟩ := getDnsRecordsPb_row now h
    rw [hget]
    exact h
  · refine rowOf_congr h ?_
    change (DiskKv.get P now m.db domain).2.lookup host = _
    unfold DiskKv.get
    split
    · rfl
    · dsimp only
      split
      · rfl
      · exact AList.lookup_erase_ne (Ne.symm hdomain)

theorem rowOf_resolve {now : Nat} {m m' : Manager} {domain : Bytes} {record : DnsRecord}
    (hresolve : resolve P o config now m domain = some (record, m')) (h : RowOf P m.db host row) :
    RowOf P m'.db host row := by
  obtain ⟨-, rfl⟩ := resolve_eq_some.1 hresolve
  exact rowOf_read now domain h

/-- **One step** leaves a host with what is asked of its records, when this stays with further entries. -/
theorem Kept.Row.next (h : Kept.Row P host Has s) (hadditions : Kept.Additions o config s)
    (hstep : ServerStep P o order config s shown s') (hclean : ∀ event ∈ shown, Clean host event)
    (hmessage : ∀ (call : AddCall) (dnsRecords : Records), call.ips ≠ [] → (Has fun id => dnsRecords.map.lookup id) →
      Has fun id => (call.message dnsRecords).map.lookup id)
    (hkept : (∀ event ∈ shown, ¬Removes host event) ∨ Has fun _ => none) : Kept.Row P host Has s' := by
  obtain ⟨⟨row, hrow, hhas⟩, hclient⟩ := h
  have hresolved : ∀ {now domain record records},
      resolve P o config now s.sync.records domain = some (record, records) →
      ∃ row, RowOf P records.db host row ∧ Has row :=
    fun hresolve => ⟨row, rowOf_resolve hresolve hrow, hhas⟩
  have hremoved : ∀ domain, (domain ≠ host ∨ Has fun _ => none) →
      ∃ row, RowOf P (s.sync.records.remove domain).db host row ∧ Has row := by
    rintro domain (hne | hnone)
    · exact ⟨row, rowOf_congr hrow (AList.lookup_erase_ne (Ne.symm hne)), hhas⟩
    · by_cases hdomain : domain = host
      · subst hdomain
        exact ⟨_, .inl ⟨AList.lookup_erase _ _, fun _ => rfl⟩, hnone⟩
      · exact ⟨row, rowOf_congr hrow (AList.lookup_erase_ne (Ne.symm hdomain)), hhas⟩
  cases hstep with
  | looked now _ _ hresolve => exact ⟨hresolved hresolve, hclient⟩
  | lookedFirst now _ _ hresolve => exact ⟨hresolved hresolve, hclient⟩
  | lookedLan now _ _ hresolve => exact ⟨hresolved hresolve, hclient⟩
  | completed now _ _ _ _ hresolve => exact ⟨hresolved hresolve, hclient⟩
  | consulted now domain => exact ⟨⟨row, rowOf_read now domain hrow, hhas⟩, hclient⟩
  | @get f marks shared now hfinishing hadded hshared =>
    cases hshared
    refine ⟨⟨row, rowOf_read _ _ hrow, hhas⟩, fun call dnsRecords hreading hdomain => ?_⟩
    cases hreading
    change f.job.task.input.1 = host at hdomain
    subst hdomain
    obtain ⟨records, hget, hlookup⟩ := getDnsRecordsPb_row now hrow
    have hread : (fun id => (s.sync.records.getDnsRecordsPb P now f.job.task.input.1).1.map.lookup id) = row := by
      rw [hget]
      exact funext hlookup
    have hboth := And.intro (clean_of_row hrow) hhas
    rw [← hread] at hboth
    exact hboth
  | @put f call marks shared hfinishing hshared =>
    cases hshared with
    | @put call dnsRecords hphase =>
      change s.client = _ at hphase
      refine ⟨?_, fun _ _ hreading => by cases hreading⟩
      obtain ⟨hdomain, hips, -⟩ := hadditions.client call dnsRecords (by rw [hphase]; rfl)
      by_cases hhost : call.domain = host
      · obtain ⟨hcleanRow, hread⟩ := hclient call dnsRecords (by rw [hphase]; rfl) hhost
        subst hhost
        exact ⟨_, rowOf_put hdomain hcleanRow (hclean _ (List.mem_singleton_self _) rfl).1, hmessage _ _ hips hread⟩
      · exact ⟨row, rowOf_congr hrow (lookup_put_ne (Ne.symm hhost)), hhas⟩
  | @stores action marks shared hnone hshared =>
    have hspared : ∀ {domain},
        (action = .remove domain ∨ action = .erase domain) → domain ≠ host ∨ Has fun _ => none := by
      rintro domain haction
      refine hkept.imp_left fun hnot => ?_
      rcases haction with rfl | rfl <;> exact hnot _ (List.mem_singleton_self _)
    cases hshared with
    | get call => exact absurd rfl (hnone call).1
    | put => exact absurd rfl (hnone _).2
    | resolve hphase =>
      change s.client = _ at hphase
      rw [hphase] at hclient
      exact ⟨⟨row, hrow, hhas⟩, hclient⟩
    | @putReverse call dnsRecords ip ips record hphase =>
      change s.client = _ at hphase
      rw [hphase] at hclient
      have hdb : (s.sync.records.putReverse P call.now ip call.domain record).db = s.sync.records.db :=
        putReverse_db record
      exact ⟨⟨row, rowOf_congr hrow (congrArg (AList.lookup host) hdb), hhas⟩, hclient⟩
    | remove domain => exact ⟨hremoved domain (hspared (.inl rfl)), hclient⟩
    | @erase domain => exact ⟨hremoved domain (hspared (.inr rfl)), hclient⟩
    | iterate => exact ⟨⟨row, hrow, hhas⟩, hclient⟩
    | cleared => exact ⟨⟨row, hrow, hhas⟩, hclient⟩
  | _ => exact ⟨⟨row, hrow, hhas⟩, hclient⟩

/-- The records of a host, in a run without zero bytes for it. -/
theorem row_of_run (h : ServerRun P o order config events s) (hclean : ∀ event ∈ events, Clean host event) :
    Kept.Row P host (fun _ => True) s := by
  refine h.keeps (fun events s => (∀ event ∈ events, Clean host event) → Kept.Row P host (fun _ => True) s) ?_ ?_ hclean
  · exact fun _ => ⟨⟨_, .inl ⟨AList.lookup_empty _, fun _ => rfl⟩, trivial⟩, fun _ _ hreading => by cases hreading⟩
  · intro events s₁ shown s₂ hreach hinv hstep hclean
    exact (hinv fun event hevent => hclean event (List.mem_append_left _ hevent)).next (additions_of_run hreach) hstep
      (fun event hevent => hclean event (List.mem_append_right _ hevent)) (fun _ _ _ _ => trivial) (.inr trivial)

end Additions

/-! ## Replies -/

/-- The reply is a response, and addresses are written in it. -/
def AnswersAddresses (session : Session) (sent : Bytes) : Prop :=
  ∃ header zone ips expire, session.request.header = some header ∧ session.request.queryZone = some zone ∧
    sent = responseBytes header.id zone.querys.length (questionBytes session.buffer zone) ips expire ∧
    writtenIps (DnsHeader.defaultLen + (questionBytes session.buffer zone).length) ips ≠ []

/-- What a run keeps for the host of an addition that was written after `before`; `after` has come since. -/
structure Kept.Served (P : Protobuf) (before after : List ServerEvent) (call : AddCall) (s : ServerState) : Prop where
  row : Kept.Row P call.domain (HasIps call.dnsServer) s
  sessions : ∀ x ∈ s.sessions, x.session.request.getHost = call.domain → x.phase.IsQuery →
    x.id ∈ receivedIds before ∨ x.phase = .looking false
  replies : ∀ id session sent, .replied id session sent ∈ after → session.request.getHost = call.domain →
    AsksAddresses session.request → HasRoom session.request → ¬LocalHost call.domain ∨ id ∉ receivedIds before →
    AnswersAddresses session sent

section Served

variable {P : Protobuf} {o : Outside} {order : List Nat → List Nat} {config : Config}
  {events before after shown : List ServerEvent} {s s' : ServerState} {call : AddCall}

theorem firstIps_ne_nil {record : DnsRecord} (h : record.ips ≠ []) : record.firstIps ≠ [] := by
  unfold DnsRecord.firstIps
  split
  · intro hnil
    have hlen := congrArg List.length hnil
    simp only [List.length_take, List.length_nil] at hlen
    omega
  · exact h

/-- Where there is room the first address is written. -/
theorem writtenIps_ne_nil {finalLen : Nat} {ips : List Nat} (hips : ips ≠ [])
    (hroom : finalLen + DnsResourceZone.defaultSingleIpLen < DnsResourceZone.maxLen) :
    writtenIps finalLen ips ≠ [] := by
  have hone : 0 < (DnsResourceZone.maxLen - 1 - finalLen) / DnsResourceZone.defaultSingleIpLen := by
    rw [Nat.div_pos_iff]
    exact ⟨by decide, by omega⟩
  intro hnil
  rcases List.take_eq_nil_iff.1 hnil with hzero | hnone
  · exact absurd hzero (Nat.ne_of_gt hone)
  · exact hips hnone

/-- A record with addresses is answered with at once. -/
theorem answers_of_lookedUp {session : Session} (hp : Pending session) {late : Bool} {record : DnsRecord} {turn : Turn}
    {works : List Work} (hips : record.ips ≠ []) (h : lookedUp config late session record = .ok (turn, works)) :
    ∃ session' sent, turn = .replies session' sent ∧
      (HasRoom session'.request → AnswersAddresses session' sent) := by
  rcases lookedUp_eq_ok h with ⟨-, hnil, -, -⟩ | ⟨-, session', sent, hanswer, rfl, -⟩
  · exact absurd hnil hips
  · obtain ⟨b, hb, rfl, rfl⟩ := answer_eq_ok.1 hanswer
    obtain ⟨header, zone, hh, hz, hlen, hbytes⟩ := built_bytes hp hb
    refine ⟨_, _, rfl, fun hroom => ⟨header, zone, _, _, hh, hz, hbytes, ?_⟩⟩
    refine writtenIps_ne_nil (firstIps_ne_nil hips) ?_
    change _ + (questionBytes session.buffer zone).length + _ < _
    rw [hlen]
    exact hroom zone hz

/-- An addition is written by a step that shows nothing else. -/
theorem put_of_step (hstep : ServerStep P o order config s shown s') (h : .store (.put call) ∈ shown) :
    shown = [.store (.put call)] ∧ s'.sessions = s.sessions ∧ s'.client = .idle ∧ ∃ dnsRecords,
      s.client = .adding call dnsRecords [] ∧ s'.sync.records.db =
        DiskKv.put P call.now s.sync.records.db call.domain (P.serializeRecords (call.message dnsRecords)) 0 := by
  have hturn : ∀ (turn : Turn) (id : Nat), .store (.put call) ∉ turn.shows id := by
    intro turn id hmem
    obtain ⟨_, _, heq, -⟩ := mem_shows hmem
    cases heq
  cases hstep with
  | received => exact absurd ((List.mem_cons.1 h).resolve_left (by simp)) (hturn _ _)
  | looked => exact absurd h (hturn _ _)
  | lookedLan => exact absurd h (hturn _ _)
  | forwarded => exact absurd ((List.mem_cons.1 h).resolve_left (by simp)) (hturn _ _)
  | submitted => cases List.mem_singleton.1 h
  | executed => cases List.mem_singleton.1 h
  | returned => cases List.mem_singleton.1 h
  | returnedLast => cases List.mem_singleton.1 h
  | get => cases List.mem_singleton.1 h
  | put hfinishing hshared =>
    cases List.mem_singleton.1 h
    cases hshared with
    | put hphase => exact ⟨rfl, rfl, rfl, _, hphase, rfl⟩
  | stores hnone =>
    cases List.mem_singleton.1 h
    exact absurd rfl (hnone call).2
  | completed => cases List.mem_singleton.1 h
  | _ => cases h

/-- **The addition** is written. -/
theorem served_of_put (hrun : ServerRun P o order config before s) (hclean : ∀ event ∈ before, Clean call.domain event)
    (hop : call.op.Storable) (hstep : ServerStep P o order config s [.store (.put call)] s') :
    Kept.Served P before [] call s' := by
  obtain ⟨-, hs, hidle, dnsRecords, hphase, hdb⟩ := put_of_step hstep (List.mem_singleton_self _)
  obtain ⟨hdomain, hips, -⟩ := (additions_of_run hrun).client call dnsRecords (by rw [hphase]; rfl)
  have hread := (row_of_run hrun hclean).client call dnsRecords (by rw [hphase]; rfl) rfl
  refine ⟨⟨⟨_, ?_, hasIps_message dnsRecords hips⟩, fun _ _ hreading => ?_⟩, fun x hx _ _ => ?_,
    fun _ _ _ hmem => by cases hmem⟩
  · rw [hdb]
    exact rowOf_put hdomain hread.1 hop
  · rw [hidle] at hreading
    cases hreading
  · rw [hs] at hx
    exact .inl (List.mem_filterMap.2 ⟨_, (sessions_of_run hrun).received x hx, rfl⟩)

/-- The server of an addition that is written is selected for its host. -/
theorem selected_of_put (hrun : ServerRun P o order config events s)
    (hstep : ServerStep P o order config s shown s') (h : .store (.put call) ∈ shown) :
    ∃ server, Selected o.regexMatch config call.domain server ∧ server.id = call.dnsServer := by
  obtain ⟨-, -, -, dnsRecords, hphase, -⟩ := put_of_step hstep h
  exact ((additions_of_run hrun).client call dnsRecords (by rw [hphase]; rfl)).2.2

theorem mem_sessions {before after : List OpenSession} {x : OpenSession} (hs : s.sessions = before ++ x :: after) :
    x ∈ s.sessions := by
  rw [hs]
  exact List.mem_append_right _ List.mem_cons_self

/-- A session that goes on was received before, unless it is being looked up, and then it is replied to. -/
theorem Kept.Served.goes (h : Kept.Served P before after call s) (hrun : ServerRun P o order config events s)
    {before' after' : List OpenSession} {x : OpenSession} {turn : Turn} (hs : s.sessions = before' ++ x :: after')
    (hmoves : Moves config x turn) (hnot : x.phase = .looking false → x.session.request.getHost = call.domain →
      ∀ session phase, turn ≠ .goes session phase) :
    ∀ y ∈ before' ++ turn.left x.id ++ after', y.session.request.getHost = call.domain → y.phase.IsQuery →
      y.id ∈ receivedIds before ∨ y.phase = .looking false := by
  intro y hy hhost hquery
  have hsessions := sessions_of_run hrun
  have hx := mem_sessions hs
  rw [List.append_assoc, List.mem_append, List.mem_append] at hy
  rcases hy with hy | hy | hy
  · exact h.sessions y (by rw [hs]; exact List.mem_append_left _ hy) hhost hquery
  · obtain ⟨hyid, rfl⟩ := mem_left hy
    obtain ⟨⟨-, hrequest, -, hiff⟩, -⟩ := moves_of (hsessions.pending x hx) (hsessions.asks x hx) hmoves
    rw [hrequest] at hhost
    rw [hyid]
    have hthere := h.sessions x hx hhost ((hsessions.asks x hx).2 (hiff.1 hquery))
    refine hthere.imp_right fun hlooking => ?_
    exact absurd rfl (hnot hlooking hhost _ _)
  · exact h.sessions y (by rw [hs]; exact List.mem_append_right _ (List.mem_cons_of_mem _ hy)) hhost hquery

/-- Every reply is one before, or that of the step. -/
theorem Kept.Served.replies_append (h : Kept.Served P before after call s)
    (hshown : ∀ id session sent, .replied id session sent ∈ shown → session.request.getHost = call.domain →
      AsksAddresses session.request → HasRoom session.request → ¬LocalHost call.domain ∨ id ∉ receivedIds before →
      AnswersAddresses session sent) : ∀ id session sent, .replied id session sent ∈ after ++ shown →
        session.request.getHost = call.domain → AsksAddresses session.request → HasRoom session.request →
        ¬LocalHost call.domain ∨ id ∉ receivedIds before → AnswersAddresses session sent := by
  intro id session sent hin
  exact (List.mem_append.1 hin).elim (h.replies id session sent) (hshown id session sent)

/-- **One step** after it. -/
theorem Kept.Served.next (h : Kept.Served P before after call s) (hrun : ServerRun P o order config events s)
    (hstep : ServerStep P o order config s shown s')
    (hselected : ∃ server, Selected o.regexMatch config call.domain server ∧ server.id = call.dnsServer)
    (hclean : ∀ event ∈ shown, Clean call.domain event) (hkept : ∀ event ∈ shown, ¬Removes call.domain event) :
    Kept.Served P before (after ++ shown) call s' := by
  obtain ⟨row, hrow, hhas⟩ := h.row.row
  obtain ⟨server, hselected, hid⟩ := hselected
  have hsessions := sessions_of_run hrun
  have hips : ∀ {x : OpenSession} {now record records}, x.session.request.getHost = call.domain →
      resolve P o config now s.sync.records x.session.request.getHost = some (record, records) → record.ips ≠ [] := by
    intro x now record records hhost hresolve
    rw [hhost] at hresolve
    exact ips_of_row hrow (by rw [hid]; exact hhas) hselected hresolve
  have hrows := h.row.next (additions_of_run hrun) hstep hclean (fun _ _ hne hhas => hhas.message hne) (.inl hkept)
  cases hstep with
  | @received m size r turn hm hpos hsize hparse hvalid hstart =>
    have hp : Pending { Session.fresh m with request := r } := ⟨hm, ⟨size, hsize, hparse⟩, hvalid, rfl, rfl⟩
    obtain ⟨hof, hfirst, hasks⟩ := start_eq_ok hp hstart
    refine ⟨hrows, fun y hy hhost hquery => ?_, h.replies_append fun id session sent hin hhost hask _ _ => ?_⟩
    · rcases List.mem_append.1 hy with hy | hy
      · exact h.sessions y hy hhost hquery
      · obtain ⟨-, rfl⟩ := mem_left hy
        refine .inr ((hfirst _ _ rfl).resolve_right fun hforwarding => ?_)
        rw [hforwarding] at hquery
        exact hquery
    · obtain ⟨_, _, heq, rfl⟩ := mem_shows ((List.mem_cons.1 hin).resolve_left (by simp))
      cases heq
      rw [hof.1] at hask
      exact absurd hask (hasks _ _ rfl)
  | @looked before' after' x late record records turn works now hs hphase hresolve hlan hlooked =>
    have hmoves : Moves config x turn := .looked record (.inl hphase) hlooked
    have hp := hsessions.pending x (mem_sessions hs)
    refine ⟨hrows, h.goes hrun hs hmoves fun _ hhost session phase hturn => ?_,
      h.replies_append fun id session sent hin hhost _ hroom _ => ?_⟩
    · obtain ⟨_, _, rfl, -⟩ := answers_of_lookedUp hp (hips hhost hresolve) hlooked
      cases hturn
    · obtain ⟨_, _, heq, rfl⟩ := mem_shows hin
      cases heq
      obtain ⟨hrequest, -⟩ := (moves_of hp (hsessions.asks x (mem_sessions hs)) hmoves).1
      rw [hrequest] at hhost
      obtain ⟨_, _, hturn, hanswers⟩ := answers_of_lookedUp hp (hips hhost hresolve) hlooked
      cases hturn
      exact hanswers hroom
  | @lookedFirst before' after' x late record records now hs hphase hresolve hlan =>
    refine ⟨hrows, ?_, h.replies_append fun id session sent hin => by cases hin⟩
    have hmoves : Moves config x (.goes x.session (.lookingLan late)) := .lookedFirst hphase hlan.2
    have hnext := h.goes hrun hs hmoves fun _ hhost => absurd hlan.1 (hips hhost hresolve)
    simpa [Turn.left] using hnext
  | @lookedLan before' after' x late record records turn works now hs hphase hresolve hlooked =>
    have hmoves : Moves config x turn := .looked _ (.inr hphase) hlooked
    have hx := mem_sessions hs
    refine ⟨hrows, h.goes hrun hs hmoves fun hlooking => ?_,
      h.replies_append fun id session sent hin hhost hask _ hor => ?_⟩
    · rw [hphase] at hlooking
      cases hlooking
    · obtain ⟨_, _, heq, rfl⟩ := mem_shows hin
      cases heq
      obtain ⟨hrequest, -⟩ := (moves_of (hsessions.pending x hx) (hsessions.asks x hx) hmoves).1
      rw [hrequest] at hhost
      have hlocal := hsessions.lan x hx _ hphase
      rw [hhost] at hlocal
      rcases h.sessions x hx hhost (by rw [hphase]; exact trivial) with hbefore | hlooking
      · exact absurd hbefore (hor.resolve_left (not_not_intro hlocal))
      · rw [hphase] at hlooking
        cases hlooking
  | @timer before' after' x hs hphase =>
    refine ⟨hrows, ?_, h.replies_append fun id session sent hin => by cases hin⟩
    have hmoves : Moves config x (.goes x.session (.looking true)) := .timer hphase
    have hnext := h.goes hrun hs hmoves fun hlooking => by rw [hphase] at hlooking; cases hlooking
    simpa [Turn.left] using hnext
  | @forwarded before' after' x turn f hs hphase _ hturn =>
    have hmoves : Moves config x turn := .forwarded f hphase hturn
    have hx := mem_sessions hs
    refine ⟨hrows, h.goes hrun hs hmoves fun hlooking => ?_,
      h.replies_append fun id session sent hin hhost hask _ _ => ?_⟩
    · rw [hphase] at hlooking
      cases hlooking
    · obtain ⟨_, _, heq, rfl⟩ := mem_shows ((List.mem_cons.1 hin).resolve_left (by simp))
      cases heq
      obtain ⟨hrequest, -⟩ := (moves_of (hsessions.pending x hx) (hsessions.asks x hx) hmoves).1
      rw [hrequest] at hask
      have hquery := (hsessions.asks x hx).2 hask
      rw [hphase] at hquery
      exact hquery.elim
  | submitted => exact ⟨hrows, h.sessions, h.replies_append fun _ _ _ hin => by cases List.mem_singleton.1 hin⟩
  | executed => exact ⟨hrows, h.sessions, h.replies_append fun _ _ _ hin => by cases List.mem_singleton.1 hin⟩
  | returned => exact ⟨hrows, h.sessions, h.replies_append fun _ _ _ hin => by cases List.mem_singleton.1 hin⟩
  | returnedLast => exact ⟨hrows, h.sessions, h.replies_append fun _ _ _ hin => by cases List.mem_singleton.1 hin⟩
  | get => exact ⟨hrows, h.sessions, h.replies_append fun _ _ _ hin => by cases List.mem_singleton.1 hin⟩
  | put => exact ⟨hrows, h.sessions, h.replies_append fun _ _ _ hin => by cases List.mem_singleton.1 hin⟩
  | stores => exact ⟨hrows, h.sessions, h.replies_append fun _ _ _ hin => by cases List.mem_singleton.1 hin⟩
  | completed => exact ⟨hrows, h.sessions, h.replies_append fun _ _ _ hin => by cases List.mem_singleton.1 hin⟩
  | _ => exact ⟨hrows, h.sessions, h.replies_append fun _ _ _ hin => by cases hin⟩

/-- **All runs** with the addition in them. -/
theorem served_of_split (h : ServerRun P o order config events s)
    (hevents : events = before ++ .store (.put call) :: after)
    (hclean : ∀ event ∈ events, Clean call.domain event) (hkept : ∀ event ∈ after, ¬Removes call.domain event) :
    Kept.Served P before after call s ∧
      ∃ server, Selected o.regexMatch config call.domain server ∧ server.id = call.dnsServer := by
  refine h.keeps (fun events s => ∀ before after, events = before ++ .store (.put call) :: after →
    (∀ event ∈ events, Clean call.domain event) → (∀ event ∈ after, ¬Removes call.domain event) →
    Kept.Served P before after call s ∧ ∃ server, Selected o.regexMatch config call.domain server ∧
      server.id = call.dnsServer) ?_ ?_ before after hevents hclean hkept
  · intro before after hnil
    exact absurd hnil.symm (by simp)
  · intro events s₁ shown s₂ hreach hinv hstep before after hsplit hclean hkept
    have hold := fun event (hin : event ∈ events) => hclean event (List.mem_append_left _ hin)
    -- the addition is written by this step
    have hput : ∀ rest, before = events ++ rest → shown = rest ++ .store (.put call) :: after →
        Kept.Served P before after call s₂ ∧ ∃ server, Selected o.regexMatch config call.domain server ∧
          server.id = call.dnsServer := by
      rintro rest rfl hshown
      have hmem : .store (.put call) ∈ shown := by
        rw [hshown]
        exact List.mem_append_right _ List.mem_cons_self
      have hone := (put_of_step hstep hmem).1
      rw [hone] at hshown hstep
      obtain ⟨rfl, rfl⟩ : rest = [] ∧ after = [] := by
        cases rest with
        | nil => exact ⟨rfl, (List.cons.inj hshown).2.symm⟩
        | cons event rest => exact absurd (List.cons.inj hshown).2.symm (by simp)
      rw [List.append_nil]
      have hop : call.op.Storable := (hclean (.store (.put call)) (List.mem_append_right _ hmem) rfl).1
      exact ⟨served_of_put hreach hold hop hstep, selected_of_put hreach hstep (List.mem_singleton_self _)⟩
    rcases List.append_eq_append_iff.1 hsplit with ⟨rest, hbefore, hshown⟩ | ⟨rest, hevents, hrest⟩
    · exact hput rest hbefore hshown
    · cases rest with
      | nil => exact hput [] (by rw [hevents, List.append_nil, List.append_nil]) hrest.symm
      | cons event rest =>
        obtain ⟨rfl, rfl⟩ := List.cons.inj hrest
        obtain ⟨hserved, hselected⟩ := hinv before rest hevents hold
          fun event hin => hkept event (List.mem_append_left _ hin)
        exact ⟨hserved.next hreach hstep hselected (fun event hin => hclean event (List.mem_append_right _ hin))
          fun event hin => hkept event (List.mem_append_right _ hin), hselected⟩

end Served

end StDns.Server
