import StDns.Protocol.Message

/-!
# The configured servers

The upstream servers of a configuration and `remote_dns_server::select_servers`, which chooses from them for a name. A
server is known by its id, which is made of its address and port. What `std::regex` matches is a parameter; a pattern
that it cannot compile makes the selection fail.
-/

namespace StDns.Server

open Lib Protocol

/-! ## Servers -/

/-- The texts `UDP`, `TCP` and `TCP_SSL`, and all others. -/
inductive ServerType where
  | udp
  | tcp
  | tcpSsl
  | other
  deriving DecidableEq

structure RemoteDnsServer where
  ip : Bytes
  port : Int
  type : ServerType
  whitelist : List Bytes := []
  blacklist : List Bytes := []
  areas : List Bytes := []
  timeout : Int := 100
  dnsCacheExpire : Int := 10 * 60
  resolveOptimizeAreas : List (Bytes × UInt16) := []
  deriving DecidableEq

structure Config where
  servers : List RemoteDnsServer
  dnsCacheExpire : Nat

/-- The server that `forward_dns_request` sends to. -/
def forwardServer (config : Config) : Option RemoteDnsServer := config.servers.find? fun it => it.type = .udp

/-- The character `_`. -/
def underscore : UInt8 := 95

/-- `to_string` of a natural number. -/
def natText (n : Nat) : Bytes := (Nat.toDigits 10 n).map fun c => UInt8.ofNat c.toNat

/-- `to_string` of an `int`. -/
def intText (n : Int) : Bytes := if n < 0 then 45 :: natText n.natAbs else natText n.natAbs

/-- `generate_server_id`. -/
def generateServerId (serverIp : Bytes) (serverPort : Int) : Bytes :=
  serverIp.map (fun c => if c = dot then underscore else c) ++ underscore :: intText serverPort

def RemoteDnsServer.id (server : RemoteDnsServer) : Bytes := generateServerId server.ip server.port

theorem RemoteDnsServer.id_ne_nil (server : RemoteDnsServer) : server.id ≠ [] := by
  rw [RemoteDnsServer.id, generateServerId]
  exact List.append_ne_nil_of_right_ne_nil _ (List.cons_ne_nil _ _)

/-! ## The last label of a name -/

/-- `toupper` in the C locale. -/
def upper (c : UInt8) : UInt8 := if 97 ≤ c ∧ c ≤ 122 then c - 32 else c

/-- `getFIDomain`: what is behind the last dot, in capitals, or nothing. -/
def getFIDomain (domain : Bytes) : Bytes :=
  if dot ∈ domain then (domain.reverse.takeWhile (· ≠ dot)).reverse.map upper else []

/-- `removeFIDomain`: what is before the last dot, or all. -/
def removeFIDomain (domain : Bytes) : Bytes :=
  if dot ∈ domain then (domain.reverse.dropWhile (· ≠ dot)).tail.reverse else domain

/-- A name whose last label is `label`. -/
theorem getFIDomain_append {stem label : Bytes} (h : dot ∉ label) :
    getFIDomain (stem ++ dot :: label) = label.map upper := by
  have htake : ((stem ++ dot :: label).reverse.takeWhile (· ≠ dot)) = label.reverse := by
    rw [List.reverse_append, List.reverse_cons, List.append_assoc, List.takeWhile_append_of_pos]
    · simp
    · intro c hc
      have hne : c ≠ dot := fun e => h (e ▸ List.mem_reverse.1 hc)
      simpa using hne
  rw [getFIDomain, if_pos (List.mem_append_right _ List.mem_cons_self), htake, List.reverse_reverse]

/-! ## `select_servers` -/

/-- The area `LAN`. -/
def lan : Bytes := [76, 65, 78]

/-- The text `ARPA`. -/
def arpa : Bytes := [65, 82, 80, 65]

/-- The name is one of a local network, or of a reverse lookup. -/
def isLocal (domain : Bytes) : Bool := getFIDomain domain = lan ∨ getFIDomain domain = arpa

section Select

variable (regexMatch : Bytes → Bytes → Option Bool) (domain : Bytes)

/-- The loop over the whitelist of a server. -/
def inWhitelist : List Bytes → Option Bool
  | [] => some false
  | regex :: whitelist =>
    if domain = regex ∨ (dot :: domain) <:+: regex then some true
    else do
      if ← regexMatch domain regex then return true
      else inWhitelist whitelist

/-- The loop over the servers: those that are neither left out for a local name nor blacklisted, or only the first that
has the name in its whitelist. -/
def selectFrom : List RemoteDnsServer → List RemoteDnsServer → Option (List RemoteDnsServer)
  | [], result => some result
  | server :: servers, result =>
    if isLocal domain ∧ lan ∉ server.areas then selectFrom servers result
    else do
      if ← inWhitelist regexMatch domain server.whitelist then return [server]
      else if domain ∈ server.blacklist then selectFrom servers result
      else selectFrom servers (result ++ [server])

/-- `remote_dns_server::select_servers`. -/
def selectServers (servers : List RemoteDnsServer) : Option (List RemoteDnsServer) :=
  selectFrom regexMatch domain servers []

end Select

section Selected

variable {regexMatch : Bytes → Bytes → Option Bool} {domain : Bytes} {servers selected : List RemoteDnsServer}

theorem mem_selectFrom : ∀ {servers result : List RemoteDnsServer},
    selectFrom regexMatch domain servers result = some selected → ∀ s ∈ selected,
      s ∈ result ∨ s ∈ servers ∧ (isLocal domain = true → lan ∈ s.areas)
  | [], result, h, s, hs => .inl (Option.some.inj h ▸ hs)
  | server :: servers, result, h, s, hs => by
    rw [selectFrom] at h
    split at h
    · have hrest := mem_selectFrom h s hs
      exact hrest.imp_right fun hmem => ⟨List.mem_cons_of_mem _ hmem.1, hmem.2⟩
    · rename_i hallowed
      have harea : isLocal domain = true → lan ∈ server.areas := fun hl => by_contra fun hn => hallowed ⟨hl, hn⟩
      obtain ⟨listed, -, h⟩ := Option.bind_eq_some_iff.1 h
      split at h
      · cases h
        obtain rfl := List.mem_singleton.1 hs
        exact .inr ⟨List.mem_cons_self, harea⟩
      · split at h
        · have hrest := mem_selectFrom h s hs
          exact hrest.imp_right fun hmem => ⟨List.mem_cons_of_mem _ hmem.1, hmem.2⟩
        · rcases mem_selectFrom h s hs with hmem | hmem
          · rcases List.mem_append.1 hmem with hmem | hmem
            · exact .inl hmem
            · obtain rfl := List.mem_singleton.1 hmem
              exact .inr ⟨List.mem_cons_self, harea⟩
          · exact .inr ⟨List.mem_cons_of_mem _ hmem.1, hmem.2⟩

/-- **Selected servers** are configured, and for a local name they have the area `LAN`. -/
theorem mem_selectServers (h : selectServers regexMatch domain servers = some selected) {s : RemoteDnsServer}
    (hs : s ∈ selected) : s ∈ servers ∧ (isLocal domain = true → lan ∈ s.areas) :=
  (mem_selectFrom h s hs).resolve_left List.not_mem_nil

end Selected

/-! ## An upstream -/

/-- A reader of dotted quads, such as `make_address_v4` is. -/
def dottedQuad (text : Bytes) : Option UInt32 := do
  let octets ← (text.splitOn dot).mapM fun octet => (List.range 256).find? fun n => natText n = octet
  match octets with
  | [a, b, c, d] => some (UInt32.ofNat (((a * 256 + b) * 256 + c) * 256 + d))
  | _ => none

/-- The text `1.1.1.1`. -/
def oneIp : Bytes := [49, 46, 49, 46, 49, 46, 49]

example : dottedQuad oneIp = some 0x01010101 := by decide +kernel

/-- The text `1_1_1_1_53`. -/
def oneId : Bytes := [49, 95, 49, 95, 49, 95, 49, 95, 53, 51]

/-- A configuration with one upstream, asked over UDP. -/
def oneServer : Config := { servers := [{ ip := oneIp, port := 53, type := .udp }], dnsCacheExpire := 60 }

example : selectServers (fun _ _ => none) [97] oneServer.servers = some oneServer.servers := by decide

end StDns.Server
