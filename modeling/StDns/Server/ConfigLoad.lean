import StDns.Lib.Decimal
import StDns.Server.Config

/-!
# Loading the configuration

`config::load` makes the configuration of the JSON tree that was read, or ends the program. The tree is what `ptree`
gives for the fields that are asked for: a number that `get` cannot convert counts as left out.
-/

namespace StDns.Server

open Lib

/-- A node under `servers`. -/
structure ServerNode where
  ip : Option Bytes := none
  port : Option Int := none
  type : Option Bytes := none
  whitelist : Option (List Bytes) := none
  dnsCacheExpire : Option Bytes := none
  timeout : Option Int := none
  areas : Option (List Bytes) := none

structure ConfigTree where
  dnsCacheExpire : Option Bytes := none
  servers : Option (List ServerNode) := none

/-- The text `UDP`. -/
def udpText : Bytes := [85, 68, 80]

/-- The text `TCP`. -/
def tcpText : Bytes := [84, 67, 80]

/-- The text `TCP_SSL`. -/
def tcpSslText : Bytes := [84, 67, 80, 95, 83, 83, 76]

def ServerType.ofText (text : Bytes) : ServerType :=
  if text = udpText then .udp
  else if text = tcpText then .tcp
  else if text = tcpSslText then .tcpSsl
  else .other

/-- The loop over `servers_nodes`; an empty address ends the program, and so does an expiry that `stoi` does not
read. -/
def loadServer (dnsCacheExpire : Nat) (serverNode : ServerNode) : Option RemoteDnsServer := do
  let serverIp := serverNode.ip.getD []
  if serverIp = [] then none
  else
    let serverPort := serverNode.port.getD 53
    let type := ServerType.ofText (serverNode.type.getD udpText)
    let expire ← stoi (serverNode.dnsCacheExpire.getD (natText dnsCacheExpire))
    return {
      ip := serverIp
      port := serverPort
      type := type
      whitelist := (serverNode.whitelist.getD []).eraseDups
      dnsCacheExpire := expire
      timeout := serverNode.timeout.getD 100
      areas := (serverNode.areas.getD []).filter (· ≠ []) }

/-- `config::load` of the tree; nothing when the program ends. -/
def Config.load (tree : ConfigTree) : Option Config := do
  let expire ← stoi (tree.dnsCacheExpire.getD (natText 600))
  let dnsCacheExpire := (expire % 2 ^ 32).toNat
  let serversNodes ← tree.servers
  let servers ← serversNodes.mapM (loadServer dnsCacheExpire)
  if servers = [] then none
  else return { servers := servers, dnsCacheExpire := dnsCacheExpire }

theorem natText_eq (n : Nat) : natText n = decimal n := rfl

/-- Without an expiry of its own a server has that of the configuration. -/
theorem loadServer_expire {dnsCacheExpire : Nat} {serverNode : ServerNode} {server : RemoteDnsServer}
    (h : loadServer dnsCacheExpire serverNode = some server) (hnone : serverNode.dnsCacheExpire = none)
    (hfits : dnsCacheExpire < 2 ^ 31) : server.dnsCacheExpire = dnsCacheExpire := by
  unfold loadServer at h
  rw [hnone, Option.getD_none, natText_eq, stoi_decimal hfits] at h
  by_cases hip : serverNode.ip.getD [] = []
  · simp only [if_pos hip] at h
    cases h
  · simp only [if_neg hip] at h
    cases h
    rfl

/-- One node. -/
theorem loadServer_plain {dnsCacheExpire : Nat} {serverNode : ServerNode} {server : RemoteDnsServer}
    (h : loadServer dnsCacheExpire serverNode = some server) : server.ip ≠ [] ∧ server.blacklist = [] := by
  unfold loadServer at h
  by_cases hip : serverNode.ip.getD [] = []
  · simp only [if_pos hip] at h
    cases h
  · simp only [if_neg hip] at h
    obtain ⟨expire, -, h⟩ := Option.bind_eq_some_iff.1 h
    cases h
    exact ⟨hip, rfl⟩

/-- **What is loaded**: servers, each with an address and none with a blacklist. -/
theorem load_plain {tree : ConfigTree} {config : Config} (h : Config.load tree = some config) :
    config.servers ≠ [] ∧ ∀ server ∈ config.servers, server.ip ≠ [] ∧ server.blacklist = [] := by
  obtain ⟨expire, -, h⟩ := Option.bind_eq_some_iff.1 h
  obtain ⟨nodes, -, h⟩ := Option.bind_eq_some_iff.1 h
  obtain ⟨servers, hservers, h⟩ := Option.bind_eq_some_iff.1 h
  by_cases hempty : servers = []
  · simp only [if_pos hempty] at h
    cases h
  · simp only [if_neg hempty] at h
    cases h
    refine ⟨hempty, fun server hs => ?_⟩
    obtain ⟨node, -, hnode⟩ := exists_of_mem_mapM hservers hs
    exact loadServer_plain hnode

/-- Two servers with one address and port, asked over UDP and over TCP. -/
def udpAndTcp : ConfigTree :=
  { servers := some [{ ip := some oneIp, type := some udpText }, { ip := some oneIp, type := some tcpText }] }

example : Config.load udpAndTcp = some {
    servers := [{ ip := oneIp, port := 53, type := .udp }, { ip := oneIp, port := 53, type := .tcp }]
    dnsCacheExpire := 600 } := rfl

end StDns.Server
