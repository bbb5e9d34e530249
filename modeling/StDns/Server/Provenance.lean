import StDns.Client.Fetch
import StDns.Protocol.ResponseExact
import StDns.Server.Config
import StDns.Store.RecordManager
import StDns.Wire.Message

/-!
# Where stored addresses come from

`sync_dns_record_from_remote` asks a server for a host and adds what its client hands on to the records of the host. In
every run of such calls the addresses of a host are from messages that were delivered for queries for that host, with
the id of the query, and are words of a record of the message where its questions and records end inside its bytes
(`stored_answered`). The question of the message and the owners of its records are not compared with the host, so that a
message about other names can be stored under it (`stored_unasked`).
-/

namespace StDns.Server

open Lib Protocol Proto Store Client Wire

/-! ## Calls -/

/-- What comes back for the queries that ask one server for one host, each with the id of its request. -/
inductive Delivered where
  | udp (qid : Nat) (arrival : UdpArrival)
  | stream (arrivals : List (Nat × TcpArrival))

/-- A call of `sync_dns_record_from_remote` for a host and a server, with the time at which the handler runs. -/
structure Exchange where
  host : Bytes
  server : RemoteDnsServer
  delivered : Delivered
  now : Nat

section Calls

variable (order : List Nat → List Nat)

/-- What `multi_area_complete_handler` gets; nothing when it is not called. -/
def Exchange.handed (e : Exchange) : Option (List Nat × Bool) :=
  match e.server.type, e.delivered with
  | .tcpSsl, .stream arrivals => tcpTlsDns order e.server.resolveOptimizeAreas arrivals
  | .tcp, .stream arrivals => tcpDns e.server.resolveOptimizeAreas arrivals
  | .udp, .udp qid arrival => (arrival.ips qid).map fun ips => (ips, true)
  | _, _ => none

/-- The `add` that the call makes, if it makes one. -/
def Exchange.op (e : Exchange) : Option Op := do
  let (ips, loadAll) ← e.handed order
  if ips ≠ [] then
    let expire := if loadAll then e.server.dnsCacheExpire else e.server.dnsCacheExpire.tdiv 2
    return .add e.now e.host (ips.map UInt32.ofNat) e.server.id expire
  else none

/-- The calls that change the records. -/
inductive Call where
  | sync (e : Exchange)
  | remove (domain : Bytes)
  | clear

def Call.op : Call → Option Op
  | sync e => e.op order
  | remove domain => some (.remove domain)
  | clear => some .clear

/-- What the calls do to the store. -/
def callOps (calls : List Call) : List Op := calls.filterMap (Call.op order)

end Calls

/-- The address is from a message that answers a query of the call. -/
def Delivered.Gives (ip : UInt32) : Delivered → Prop
  | udp qid arrival => ∃ datagram, arrival = .received datagram ∧
      Answered datagram.buffer datagram.size qid ip.toNat
  | stream arrivals => StreamAnswered arrivals ip.toNat

section Provenance

variable {order : List Nat → List Nat}

theorem gives_of_udp {qid : Nat} {arrival : UdpArrival} {ips : List Nat} (h : arrival.ips qid = some ips) {ip : UInt32}
    (hip : ip ∈ ips.map UInt32.ofNat) : (Delivered.udp qid arrival).Gives ip := by
  obtain ⟨v, hv, rfl⟩ := List.mem_map.1 hip
  cases arrival with
  | failed =>
    cases h
    cases hv
  | received datagram =>
    have hans := udp_answered (by have := datagram.fits; omega) h hv
    refine ⟨datagram, rfl, ?_⟩
    rw [UInt32.toNat_ofNat', Nat.mod_eq_of_lt (hans.lt (by have := datagram.fits; omega))]
    exact hans

theorem gives_of_stream {arrivals : List (Nat × TcpArrival)} {ips : List Nat}
    (h : ∀ ip ∈ ips, StreamAnswered arrivals ip) {ip : UInt32} (hip : ip ∈ ips.map UInt32.ofNat) :
    (Delivered.stream arrivals).Gives ip := by
  obtain ⟨v, hv, rfl⟩ := List.mem_map.1 hip
  have hans := h v hv
  have hlt : v < 2 ^ 32 := by
    obtain ⟨_, _, _, _, -, -, hn, hmessage⟩ := hans
    exact hmessage.lt (by omega)
  rw [Delivered.Gives, UInt32.toNat_ofNat', Nat.mod_eq_of_lt hlt]
  exact hans

/-- **One call** adds to the records of its host, under the id of its server, addresses that it was given. -/
theorem op_gives (horder : ∀ l, (order l).Perm l) {e : Exchange} {op : Op} (h : e.op order = some op) :
    ∃ ips expire, op = .add e.now e.host ips e.server.id expire ∧ ∀ ip ∈ ips, e.delivered.Gives ip := by
  obtain ⟨⟨ips, loadAll⟩, hhanded, h⟩ := Option.bind_eq_some_iff.1 h
  simp only at h
  split at h
  swap
  · cases h
  cases h
  refine ⟨_, _, rfl, fun ip hip => ?_⟩
  unfold Exchange.handed at hhanded
  split at hhanded
  · rename_i hdelivered
    rw [hdelivered]
    exact gives_of_stream (fun ip hip => tls_answered horder hhanded hip) hip
  · rename_i hdelivered
    rw [hdelivered]
    exact gives_of_stream (fun ip hip => tcp_answered hhanded hip) hip
  · rename_i hdelivered
    rw [hdelivered]
    obtain ⟨ips, hips, heq⟩ := Option.map_eq_some_iff.1 hhanded
    cases heq
    exact gives_of_udp hips hip
  · cases hhanded

/-- All addresses of the table were given by calls for their host and their server. -/
def Given (calls : List Call) (t : Table) : Prop :=
  ∀ host dnsServer record, t host dnsServer = some record → ∀ ip ∈ record.ips,
    ∃ e, .sync e ∈ calls ∧ e.host = host ∧ e.server.id = dnsServer ∧ e.delivered.Gives ip

/-- One step of the table. -/
theorem given_step (horder : ∀ l, (order l).Perm l) {calls : List Call} {t : Table} (ht : Given calls t) {call : Call}
    (hcall : call ∈ calls) {op : Op} (hop : call.op order = some op) : Given calls (op.applyTable t) := by
  intro host dnsServer record hrecord ip hip
  cases call with
  | sync e =>
    obtain ⟨ips, expire, rfl, hgives⟩ := op_gives horder hop
    rw [Op.applyTable, Table.add] at hrecord
    by_cases hhost : host = e.host
    · subst hhost
      rw [Function.update_self] at hrecord
      by_cases hserver : dnsServer = e.server.id
      · subst hserver
        rw [Function.update_self, Option.some.injEq] at hrecord
        exact ⟨e, hcall, rfl, rfl, hgives ip (by rw [← hrecord] at hip; exact hip)⟩
      · rw [Function.update_of_ne hserver] at hrecord
        exact ht _ _ _ hrecord ip hip
    · rw [Function.update_of_ne hhost] at hrecord
      exact ht _ _ _ hrecord ip hip
  | remove domain =>
    cases hop
    rw [Op.applyTable, Table.remove] at hrecord
    by_cases hhost : host = domain
    · subst hhost
      rw [Function.update_self] at hrecord
      cases hrecord
    · rw [Function.update_of_ne hhost] at hrecord
      exact ht _ _ _ hrecord ip hip
  | clear =>
    cases hop
    cases hrecord

/-- A run of the table. -/
theorem given_run (horder : ∀ l, (order l).Perm l) {calls : List Call} : ∀ {rest : List Call} {t : Table},
    rest ⊆ calls → Given calls t → Given calls ((callOps order rest).foldl Op.applyTable t)
  | [], _, _, ht => ht
  | call :: rest, t, hsub, ht => by
    have hrest : rest ⊆ calls := fun _ hmem => hsub (List.mem_cons_of_mem _ hmem)
    cases hop : call.op order with
    | none =>
      rw [callOps, List.filterMap_cons_none hop]
      exact given_run horder hrest ht
    | some op =>
      rw [callOps, List.filterMap_cons_some hop, List.foldl_cons]
      exact given_run horder hrest (given_step horder ht (hsub List.mem_cons_self) hop)

end Provenance

/-- **Stored addresses**: every `add` of a call is for its host and its server and has only addresses from messages that
answer its queries; and in every run of calls, as long as no zero byte gets into a stored message, the addresses of a
host in the store are of such calls for that host. -/
theorem stored_answered (order : List Nat → List Nat) (horder : ∀ l, (order l).Perm l) (calls : List Call) :
    (∀ e, .sync e ∈ calls → ∀ op, e.op order = some op →
      ∃ ips expire, op = .add e.now e.host ips e.server.id expire ∧ ∀ ip ∈ ips, e.delivered.Gives ip) ∧
    ∀ (P : Protobuf) (now : Nat), (∀ op ∈ callOps order calls, op.Storable) → ∀ host dnsServer record,
      ((run P (callOps order calls)).records P now host).map.lookup dnsServer = some record → ∀ ip ∈ record.ips,
        ∃ e, .sync e ∈ calls ∧ e.host = host ∧ e.server.id = dnsServer ∧ e.delivered.Gives ip := by
  refine ⟨fun e _ op hop => op_gives horder hop, fun P now hstorable host dnsServer record hrecord ip hip => ?_⟩
  have hstored := stored_run (P := P) hstorable
  rw [(records_stored now host hstored).2] at hrecord
  refine given_run horder (List.Subset.refl calls) ?_ host dnsServer record hrecord ip hip
  exact fun _ _ _ hnone => by cases hnone

/-- A call for the host `a` over UDP, whose query has the id 7 and gets this datagram. -/
def udpExchange (bytes : Bytes) (h : bytes.length ≤ 1024) : Exchange :=
  { host := [97]
    server := { ip := oneIp, port := 53, type := .udp }
    delivered := .udp 7 (.received { buffer := bytes, size := bytes.length, fits := h })
    now := 0 }

theorem stored_answered_at : (udpExchange addressBytes (by decide)).delivered.Gives 167772161 := by
  have hop : (udpExchange addressBytes (by decide)).op id = some (.add 0 [97] [167772161] oneId 600) := by
    decide +kernel
  obtain ⟨ips, expire, heq, hgives⟩ := (stored_answered id (fun _ => .refl _) [.sync (udpExchange addressBytes (by
    decide))]).1 _ List.mem_cons_self _ hop
  have hips : [167772161] = ips := (Op.add.inj heq).2.2.1
  exact hgives _ (hips ▸ List.mem_cons_self)

/-! ## What is not compared -/

/-- The name is the host, or is reached from it by records of type `CNAME`. -/
inductive Reached (r : ResponseMessage) (host : Bytes) : Bytes → Prop
  | host : Reached r host host
  | cname {owner : Bytes} (a : Wire.Record) (target : WireName) : Reached r host owner → a ∈ r.answers →
    a.type = typeCname → a.name.text = owner → a.cname = some target → Reached r host target.text

/-- Whatever address a call over UDP adds when it gets the message `r` with the id of its query, `Q` is true of the
message, the host and the address. -/
def AddsOnly (Q : ResponseMessage → Bytes → UInt32 → Prop) : Prop :=
  ∀ (r : ResponseMessage) (e : Exchange) (datagram : Datagram), r.At (datagram.buffer.take datagram.size) →
    e.server.type = .udp → e.delivered = .udp r.id (.received datagram) → ∀ ips expire,
      e.op id = some (.add e.now e.host ips e.server.id expire) → ∀ ip ∈ ips, Q r e.host ip

/-- The message asks for the host. -/
def AsksFor (r : ResponseMessage) (host : Bytes) (_ : UInt32) : Prop :=
  r.questions.map (fun q => joinLabels q.labels) = [host]

/-- The address is that of a record whose name is reached from the host. -/
def OwnerReached (r : ResponseMessage) (host : Bytes) (ip : UInt32) : Prop :=
  ∃ a ∈ r.answers, a.rdata = beBytes 4 ip.toNat ∧ Reached r host a.name.text

/-- The address is that of a record of type `A`. -/
def OfTypeA (r : ResponseMessage) (_ : Bytes) (ip : UInt32) : Prop :=
  ∃ a ∈ r.answers, a.IsAddress ∧ beNat a.rdata = ip.toNat

/-- A message with one question and one record. -/
def oneRecord (question owner : UInt8) (type : Nat) (rdata : Bytes) : ResponseMessage :=
  { id := 7
    flags := 0x8080
    authorities := 0
    additionals := 0
    questions := [{ labels := [[question]], type := 1, cls := 1 }]
    answers := [{ name := .plain [[owner]], type := type, cls := 1, ttl := 60, rdata := rdata }] }

/-- The datagram that writes it. -/
def oneRecordBytes (question owner : UInt8) (type : Nat) (rdata : Bytes) : Bytes :=
  (oneRecord question owner type rdata).headerBytes ++ [1, question, 0, 0, 1, 0, 1] ++ [1, owner, 0] ++
    beBytes 2 type ++ [0, 1, 0, 0, 0, 60] ++ beBytes 2 rdata.length ++ rdata

theorem AddsOnly.apply {Q : ResponseMessage → Bytes → UInt32 → Prop} (h : AddsOnly Q) (r : ResponseMessage)
    (bytes : Bytes) (ip : UInt32) (ips : List UInt32) (hfits : bytes.length ≤ 1024) (hat : r.At bytes) (hid : r.id = 7)
    (hop : (udpExchange bytes hfits).op id =
      some (.add 0 [97] (ip :: ips) (udpExchange bytes hfits).server.id 600)) : Q r [97] ip := by
  refine h r (udpExchange bytes hfits) { buffer := bytes, size := bytes.length, fits := hfits } ?_ rfl ?_ _ _ hop ip
    List.mem_cons_self
  · rw [List.take_length]
    exact hat
  · rw [hid]
    rfl

/-- Without records of type `CNAME` only the host is reached. -/
theorem eq_of_reached {r : ResponseMessage} {host name : Bytes} (hnone : ∀ a ∈ r.answers, a.type ≠ typeCname)
    (h : Reached r host name) : name = host := by
  cases h with
  | host => rfl
  | cname a target _ ha htype => exact absurd htype (hnone a ha)

/-- A message for another name, a record of another name, and a record of type `AAAA`: each is stored under the host. -/
theorem stored_unasked : ¬AddsOnly AsksFor ∧ ¬AddsOnly OwnerReached ∧ ¬AddsOnly OfTypeA := by
  refine ⟨fun h => ?_, fun h => ?_, fun h => ?_⟩
  · have hasks := h.apply (oneRecord 98 97 1 [10, 0, 0, 1]) (oneRecordBytes 98 97 1 [10, 0, 0, 1]) 167772161 []
      (by decide) (by decide) rfl (by decide +kernel)
    rw [AsksFor] at hasks
    exact absurd hasks (by decide)
  · obtain ⟨a, ha, -, hreached⟩ := h.apply (oneRecord 97 98 1 [10, 0, 0, 1]) (oneRecordBytes 97 98 1 [10, 0, 0, 1])
      167772161 [] (by decide) (by decide) rfl (by decide +kernel)
    have hname := eq_of_reached (by decide) hreached
    obtain rfl := List.mem_singleton.1 ha
    exact absurd hname (by decide)
  · obtain ⟨a, ha, haddress, -⟩ := h.apply (oneRecord 97 97 28 (List.replicate 16 1))
      (oneRecordBytes 97 97 28 (List.replicate 16 1)) 16843009 (List.replicate 3 16843009) (by decide) (by decide) rfl
      (by decide +kernel)
    obtain rfl := List.mem_singleton.1 ha
    exact absurd haddress (by decide)

end StDns.Server
