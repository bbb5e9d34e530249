import StDns.Protocol.Answer

/-!
# Building queries

The constructors of `udp_request` and `tcp_request` from host names. `dns_domain::generate` keeps the places of the
labels as pairs of `unsigned char`, and `dns_query_zone::generate` writes the questions a second time behind themselves.
Everything gives nothing when it reads behind the characters of a host or writes outside the buffer; for one host
`init_isSome_iff` says when that is.
-/

namespace StDns.Protocol

open Lib Wire

/-! ## `dns_domain::generate` -/

/-- The loop over the characters `rest` from index `i` on: the first and the last index of every label. -/
def subLensFrom : Bytes → Nat → Nat → List (UInt8 × UInt8)
  | [], i, lastBegin => [(UInt8.ofNat lastBegin, UInt8.ofInt ((i : Int) - 1))]
  | ch :: rest, i, lastBegin =>
    if ch = dot then
      (UInt8.ofNat lastBegin, UInt8.ofInt ((i : Int) - 1)) :: subLensFrom rest (i + 1) (i + 1)
    else subLensFrom rest (i + 1) lastBegin

/-- `subLens`: the labels of the text that the characters are up to a zero. -/
def subLens (host : Bytes) : List (UInt8 × UInt8) := subLensFrom (cString host) 0 0

/-- The length that `generate` declares: the labels, their characters and the final zero. -/
def finalDataLen (host : Bytes) : Nat := (subLens host).length + (cString host).countP (fun ch => ch ≠ dot) + 1

/-- The bytes written for one label: its length and its characters, of which there are none when the last index is
before the first. -/
def subLenBytes (hostChar : Bytes) (pair : UInt8 × UInt8) : Option Bytes := do
  let len : Int := pair.2.toNat - pair.1.toNat + 1
  let chars ← (List.range len.toNat).mapM fun j => hostChar[pair.1.toNat + j]?
  return UInt8.ofInt len :: chars

/-- The bytes that `generate` writes. -/
def nameBytes (host : Bytes) : Option Bytes := do
  let labels ← (subLens host).mapM (subLenBytes host)
  return labels.flatten ++ [0]

/-- `dns_domain::generate` into the memory `m` at `data`. -/
def DnsDomain.generate (m : Bytes) (data : Nat) (host : Bytes) : Option (Bytes × DnsDomain) := do
  let bytes ← nameBytes host
  let m ← store m data bytes
  return (m, { data := data, len := u32 (finalDataLen host), domain := host })

/-! ## `dns_query` and `dns_query_zone` -/

def DnsQuery.defaultFlags : Bytes := [0x00, 0x01, 0x00, 0x01]

/-- `dns_query::generateDomain`. -/
def DnsQuery.generateDomain (m : Bytes) (data : Nat) (host : Bytes) : Option (Bytes × DnsQuery) := do
  let (m, domain) ← DnsDomain.generate m data host
  let m ← store m (data + domain.len) defaultFlags
  return (m, { data := data, len := domain.len + defaultFlagsSize, domain := some domain })

/-- The first loop of `dns_query_zone::generate`. -/
def generateDomains : List Bytes → Bytes → Nat → Option (Bytes × List DnsQuery)
  | [], m, _ => some (m, [])
  | host :: hosts, m, data => do
    let (m, domain) ← DnsQuery.generateDomain m data host
    let (m, domains) ← generateDomains hosts m (data + domain.len)
    return (m, domain :: domains)

/-- The second loop: the questions are copied behind one another from `data` on. -/
def copyDomains (data : Nat) : List DnsQuery → Bytes → Nat → Option Bytes
  | [], m, _ => some m
  | domain :: domains, m, curLen => do
    let bytes ← slice m domain.data domain.len
    let m ← store m (data + curLen) bytes
    copyDomains data domains m (curLen + domain.len)

/-- `dns_query_zone::generate`. The first loop has moved `data` behind the questions. -/
def DnsQueryZone.generate (m : Bytes) (data : Nat) (hosts : List Bytes) : Option (Bytes × DnsQueryZone) := do
  let (m, domains) ← generateDomains hosts m data
  let size := (domains.map fun domain => domain.len).sum
  let m ← copyDomains (data + size) domains m 0
  return (m, { data := data + size, len := size, querys := domains, hosts := hosts })

/-! ## Requests from hosts -/

/-- `dns_header::generateQuery`, with the identifier that `id16` gives. -/
def DnsHeader.generateQuery (m : Bytes) (data id hostCount : Nat) : Option (Bytes × DnsHeader) :=
  (store m data (initBytes id hostCount 0 0 false)).map fun m =>
    (m, { data := data
          len := defaultLen
          id := id
          answerCount := 0
          questionCount := 0
          responseCode := 0
          qr := 0
          opcode := 0 })

/-- `udp_request::init` at index `data` of the object's memory. -/
def UdpRequest.init (m : Bytes) (data id : Nat) (hosts : List Bytes) : Option (Bytes × UdpRequest) := do
  let (m, header) ← DnsHeader.generateQuery m data id hosts.length
  let (m, queryZone) ← DnsQueryZone.generate m (data + header.len) hosts
  return (m, { data := 0
               len := header.len + queryZone.len
               header := some header
               queryZone := some queryZone
               hosts := hosts })

/-- The constructor of `udp_request` from hosts: the object and its memory. -/
def UdpRequest.ofHosts (id : Nat) (hosts : List Bytes) : Option (Bytes × UdpRequest) :=
  UdpRequest.init (List.replicate 1024 0) 0 id hosts

def TcpRequest.sizeHeader : Nat := 2

/-- The constructor of `tcp_request`: the length of the message goes before it. -/
def TcpRequest.ofHosts (id : Nat) (hosts : List Bytes) : Option (Bytes × UdpRequest) := do
  let (m, request) ← UdpRequest.init (List.replicate (1024 + sizeHeader) 0) 2 id hosts
  let m ← store m 0 (writeBytes 2 (request.len % 2 ^ 16))
  return (m, { request with len := request.len + sizeHeader })

example : (UdpRequest.ofHosts 7 [[97, 46, 98]]).map (fun r => r.1.take r.2.len) =
    some [0, 7, 1, 0, 0, 1, 0, 0, 0, 0, 0, 0, 1, 97, 1, 98, 0, 0, 1, 0, 1] := by decide +kernel

end StDns.Protocol
