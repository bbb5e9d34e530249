import StDns.Lib.Loop
import StDns.Lib.Memory

/-!
# DNS messages: headers, names, questions and resource records

The classes of `dns_message.h` and the name decoder of `dns_message.cpp`. An object of these classes is a view of a
memory (`data` is the index where it starts, `len` the bytes it takes), so a constructor that decodes is a function of
the memory. It gives nothing when the code reads outside the memory, whose behaviour C++ leaves undefined.

The sizes of the code are unsigned and wrap around: `sub64` and `sub32` are its subtractions.
-/

namespace StDns.Protocol

open Lib

/-- Subtraction of `uint64_t`. -/
def sub64 (a b : Nat) : Nat := (a + (2 ^ 64 - b % 2 ^ 64)) % 2 ^ 64

/-- Subtraction of `uint32_t`. -/
def sub32 (a b : Nat) : Nat := (a + (2 ^ 32 - b % 2 ^ 32)) % 2 ^ 32

/-- Conversion to `uint32_t`. -/
def u32 (a : Nat) : Nat := a % 2 ^ 32

/-- `st::utils::read` of a `len`-byte integer: the bytes are shifted into place and or-ed into the result. -/
def read (m : Bytes) (data len : Nat) : Option Nat :=
  (List.range len).foldlM (fun result i => (m[data + i]?).map fun val => result ||| val.toNat <<< ((len - i - 1) * 8)) 0

/-- A view of a memory: `basic_data`. -/
structure BasicData where
  data : Nat
  len : Nat
  valid : Bool := true
  deriving DecidableEq

/-! ## `dns_header` -/

structure DnsHeader extends BasicData where
  id : Nat
  answerCount : Nat
  questionCount : Nat
  responseCode : Nat
  qr : Nat
  opcode : Nat
  deriving DecidableEq

def DnsHeader.defaultLen : Nat := 12

/-- `dns_header::parse`; `none` inside is the null pointer. -/
def DnsHeader.parse (m : Bytes) (data len : Nat) : Option (Option DnsHeader) :=
  if defaultLen ≤ len then do
    let b0 ← m[data]?
    let b1 ← m[data + 1]?
    let b2 ← m[data + 2]?
    let b3 ← m[data + 3]?
    let questionCount ← read m (data + 4) 2
    let answerCount ← read m (data + 6) 2
    return some
      { data := data
        len := defaultLen
        id := (b0.toNat <<< 8) ||| b1.toNat
        qr := (b2 &&& 0b10000000).toNat
        opcode := ((b2 &&& 0b01111000) >>> 3).toNat
        responseCode := (b3 &&& 0b1111).toNat
        questionCount := questionCount
        answerCount := answerCount }
  else return none

/-! ## `dns_domain` -/

/-- The byte `'.'`. -/
def dot : UInt8 := 46

/-- What a call of `parseRe` leaves behind: its `domain` argument and the value returned, which is missing when the
call read outside the memory. -/
structure Parsed where
  domain : Bytes
  ret : Option Nat
  deriving DecidableEq

/-- The variables of the loop in `parseRe`. -/
structure Cursor where
  actualLen : Nat
  domain : Bytes
  deriving DecidableEq

/-- The 14-bit offset of a compression pointer with these two bytes. -/
def pointerPos (hi lo : UInt8) : Nat := ((hi &&& 0b00111111).toNat <<< 8) ||| lo.toNat

/-- `domain` followed by a label. -/
def appendLabel (domain label : Bytes) : Bytes :=
  (if domain.length ≠ 0 then domain ++ [dot] else domain) ++ cString label

/-- One round of the loop in `parseRe`; `self` is the recursive call. -/
def parseReRound (m : Bytes) (allDataSize begin maxParse : Nat) (self : Nat → Nat → Parsed) (c : Cursor) :
    Round Cursor Parsed :=
  if c.actualLen < maxParse then
    match m[begin + c.actualLen]? with
    | none => .done ⟨c.domain, none⟩
    | some frameLen =>
      if frameLen &&& 0b11000000 = 0b11000000 then
        match m[begin + c.actualLen + 1]? with
        | none => .done ⟨c.domain, none⟩
        | some lo =>
          let pos := pointerPos frameLen lo
          if pos ≠ begin then
            let re := self pos (sub64 allDataSize pos)
            match re.ret with
            | none => .done ⟨c.domain, none⟩
            | some consume =>
              if consume ≠ 0 then
                if c.domain.length ≠ 0 then .next ⟨c.actualLen + 2, c.domain ++ [dot] ++ re.domain⟩
                else .done ⟨re.domain, some (c.actualLen + 2)⟩
              else .done ⟨c.domain, some 0⟩
          else .done ⟨c.domain, some (c.actualLen + 2)⟩
      else if frameLen &&& 0b11000000 = 0 then
        if frameLen = 0 then .done ⟨c.domain, some (c.actualLen + 1)⟩
        else if sub64 maxParse (c.actualLen + 1) < frameLen.toNat then .done ⟨c.domain, some 0⟩
        else
          match slice m (begin + (c.actualLen + 1)) frameLen.toNat with
          | none => .done ⟨c.domain, none⟩
          | some label => .next ⟨c.actualLen + 1 + frameLen.toNat, appendLabel c.domain label⟩
      else .done ⟨c.domain, some c.actualLen⟩
  else .done ⟨c.domain, some c.actualLen⟩

/-- `parseRe`, with the number of levels it may still open in place of the depth: `depth > 20` is level `0`. -/
def parseRe (m : Bytes) (allDataSize : Nat) : Nat → Nat → Nat → Bytes → Parsed
  | 0, _, _, domain => ⟨domain, some 0⟩
  | levels + 1, begin, maxParse, domain =>
    loop (parseReRound m allDataSize begin maxParse fun pos rest => parseRe m allDataSize levels pos rest [])
      (fun c => ⟨c.domain, some c.actualLen⟩) (fun c => maxParse - c.actualLen) ⟨0, domain⟩

/-- The levels open at depth `0`. -/
def parseLevels : Nat := 21

/-- The static `dns_domain::parse`. -/
def parseDomain (m : Bytes) (allDataSize begin maxParse : Nat) (domain : Bytes) : Parsed :=
  parseRe m allDataSize parseLevels begin maxParse domain

structure DnsDomain extends BasicData where
  domain : Bytes
  deriving DecidableEq

/-- The object left by a decoding at index `data`. -/
def DnsDomain.ofParsed (data : Nat) (p : Parsed) : Option DnsDomain :=
  p.ret.map fun actualLen =>
    if actualLen = 0 then { data := data, len := 0, valid := false, domain := p.domain }
    else { data := data, len := u32 actualLen, domain := p.domain }

/-- The constructor with a window `maxParse` at `begin` of the message. -/
def DnsDomain.ofWindow (m : Bytes) (dataSize begin maxParse : Nat) : Option DnsDomain :=
  ofParsed begin (parseDomain m dataSize begin maxParse [])

/-- The constructor with the rest of the message from `begin` as its window. -/
def DnsDomain.ofRest (m : Bytes) (dataSize begin : Nat) : Option DnsDomain :=
  ofWindow m dataSize begin (sub64 dataSize begin)

/-- The method `parse()`: the object's own start is the start of the message it decodes in. -/
def DnsDomain.parse (m : Bytes) (data len : Nat) : Option DnsDomain :=
  ofParsed data (parseDomain (m.drop data) len 0 len [])

/-! ## `dns_query` -/

/-- The record types that the code names in `dns_query::Type` and uses. -/
def QueryType.a : Nat := 0x01
def QueryType.cname : Nat := 0x05
def QueryType.aaaa : Nat := 0x1c

structure DnsQuery extends BasicData where
  domain : Option DnsDomain := none
  queryType : Nat := QueryType.a
  queryTypeValue : Nat := QueryType.a
  deriving DecidableEq

def DnsQuery.defaultFlagsSize : Nat := 4

/-- A `dns_query` on `len` bytes at `data`, parsed. -/
def DnsQuery.parse (m : Bytes) (data len : Nat) : Option DnsQuery := do
  let dnsDomain ← DnsDomain.parse m data (u32 len)
  if dnsDomain.valid then
    let typeValue ← read m (data + dnsDomain.len) 2
    return { data := data
             len := dnsDomain.len + defaultFlagsSize
             domain := some dnsDomain
             queryType := typeValue
             queryTypeValue := typeValue }
  else return { data := data, len := 0, valid := false }

/-! ## `dns_query_zone` -/

structure DnsQueryZone extends BasicData where
  querys : List DnsQuery
  hosts : List Bytes := []
  deriving DecidableEq

/-- The variables of the constructor's loop. -/
structure ZoneCursor where
  resetSize : Nat
  data : Nat
  realSize : Nat
  querys : List DnsQuery

/-- One round of the constructor's loop. Every question gets the full length `len`, not what is left of it. -/
def zoneRound (m : Bytes) (start len size : Nat) (c : ZoneCursor) : Round ZoneCursor (Option DnsQueryZone) :=
  if 0 < c.resetSize ∧ c.querys.length < size then
    match DnsQuery.parse m c.data len with
    | none => .done none
    | some query =>
      if query.valid then
        .next ⟨sub32 c.resetSize query.len, c.data + query.len, c.realSize + query.len, c.querys ++ [query]⟩
      else .done (some { data := start, len := c.realSize, valid := false, querys := c.querys })
  else .done (some { data := start, len := c.realSize, querys := c.querys })

/-- The constructor of `dns_query_zone` that decodes `size` questions in the `len` bytes at `data`. -/
def DnsQueryZone.ofBytes (m : Bytes) (data len size : Nat) : Option DnsQueryZone :=
  loop (zoneRound m data len size) (fun c => some { data := data, len := c.realSize, querys := c.querys })
    (fun c => size - c.querys.length) ⟨u32 len, data, 0, []⟩

/-! ## `dns_resource_zone` -/

structure DnsResourceZone extends BasicData where
  domain : Option DnsDomain := none
  cname : Option DnsDomain := none
  type : Nat := 0
  resource : Nat := 0
  liveTime : Nat := 0
  length : Nat := 0
  ipv4s : List Nat := []
  deriving DecidableEq

/-- The bytes between the owner name and the data of a record. -/
def DnsResourceZone.fixedLen : Nat := 10

/-- The loop that reads `n` addresses from `curBegin` on. -/
def readIpv4s (m : Bytes) (curBegin n : Nat) : Option (List Nat) :=
  (List.range n).mapM fun i => read m (curBegin + i * 4) 4

/-- The constructor of `dns_resource_zone` that decodes a record at `begin`. -/
def DnsResourceZone.ofRest (m : Bytes) (originalMax begin : Nat) : Option DnsResourceZone := do
  let domain ← DnsDomain.ofRest m originalMax begin
  if domain.valid then
    let cur := begin + domain.len
    let type ← read m cur 2
    let resource ← read m (cur + 2) 2
    let liveTime ← read m (cur + 4) 4
    let length ← read m (cur + 8) 2
    let curBegin := cur + fixedLen
    let size := domain.len + fixedLen + length
    if type = QueryType.cname then
      let cname ← DnsDomain.ofWindow m originalMax curBegin length
      return { data := begin
               len := if cname.valid then size else 0
               valid := cname.valid
               domain := some domain
               cname := some cname
               type, resource, liveTime, length }
    else if length % 4 = 0 then
      let ipv4s ← readIpv4s m curBegin (length / 4)
      return { data := begin, len := size, domain := some domain, type, resource, liveTime, length, ipv4s }
    else return { data := begin, len := 0, valid := false, domain := some domain, type, resource, liveTime, length }
  else return { data := begin, len := 0, valid := false, domain := some domain }

end StDns.Protocol
