import StDns.Server.Sync
import StDns.Store.Listing

/-!
# The commands of the console

A datagram is split into the words of a command and its options; the options are parsed by `boost::program_options`,
which may raise, and the command is looked up by its words. A command reads the records, the reverse records or the
areas, and its result is a flag and a text of any length.
-/

namespace StDns.Console

open Lib Utils Area Protocol Proto Server Store

/-- What the commands work on. -/
structure World where
  manager : Manager
  netCaches : NetCaches

/-- The options with their values, empty when they are not given. -/
structure Options where
  domain : Bytes := []
  ip : Bytes := []
  deriving DecidableEq

/-- What the console leaves to its surroundings besides those of the records: the messages, the option parser, which
raises when it returns nothing, and the address ranges of the areas. -/
structure Setting where
  P : Protobuf
  o : Outside
  config : Config
  parseOptions : List Bytes → Option Options
  defaultCaches : DefaultCaches

/-- The character `-`. -/
def dash : UInt8 := 45

/-- The loop of `parse_command`: the words before the first that begins with `-`, and the others. -/
def splitCommand (command : Bytes) : List Bytes × List Bytes :=
  ((split command space).map trim).span fun item => item.head? ≠ some dash

/-- `parse_command`. -/
def parseCommand (e : Setting) (command : Bytes) : Option (List Bytes × Options) := do
  let (commands, options) := splitCommand command
  let vm ← e.parseOptions options
  return (commands, vm)

/-! ## `console_manager::init` -/

/-- The result of a command that is none, or lacks its option. -/
def notInvalid : Bool × Bytes := (false, ascii "not invalid command")

section Impl

variable (e : Setting) (now : Nat) (w : World) (options : Options)

/-- `dns resolve`. -/
def dnsResolve : Option ((Bool × Bytes) × World) :=
  if options.domain ≠ [] then do
    let (record, manager) ← resolve e.P e.o e.config now w.manager options.domain
    return ((true, serializeRecord record), { w with manager := manager })
  else some (notInvalid, w)

/-- `dns reverse resolve`. -/
def dnsReverseResolve : Option ((Bool × Bytes) × World) :=
  if options.ip ≠ [] then do
    let ip ← strToIp options.ip
    let (record, manager) := w.manager.reverseResolve e.P now ip
    return ((true, join record.domains [comma]), { w with manager := manager })
  else some (notInvalid, w)

/-- `dns record get`. -/
def dnsRecordGet : (Bool × Bytes) × World :=
  if options.domain ≠ [] then
    let (records, manager) := getDnsRecordList e.P e.o e.config now w.manager options.domain
    ((true, join (records.map serializeRecord) [newline]), { w with manager := manager })
  else (notInvalid, w)

/-- `dns record dump`, whose result is the name of the file that it writes. -/
def dnsRecordDump : (Bool × Bytes) × World := ((true, ascii "/tmp/st-dns-record.txt"), w)

/-- `dns record remove`. -/
def dnsRecordRemove : (Bool × Bytes) × World :=
  if options.domain ≠ [] then ((true, []), { w with manager := w.manager.remove options.domain }) else (notInvalid, w)

/-- `dns record clear`. -/
def dnsRecordClear : (Bool × Bytes) × World := ((true, []), { w with manager := w.manager.clear })

/-- `dns record analyse`. -/
def dnsRecordAnalyse : Option ((Bool × Bytes) × World) := do
  let stats ← stats e.P e.o e.config now w.manager
  return ((true, stats.serialize), w)

/-- `ip area`. -/
def ipArea : Option ((Bool × Bytes) × World) := do
  let ip ← strToIp options.ip
  return ((true, getArea w.netCaches e.defaultCaches ip), w)

/-- `dns queue list`. -/
def dnsQueueList : (Bool × Bytes) × World := ((false, ascii "not implemented in singleton"), w)

/-- The function that `console_manager::init` gives to the console; nothing when it raises. -/
def impl (commands : List Bytes) : Option ((Bool × Bytes) × World) :=
  let command := join commands [space]
  if command = ascii "dns resolve" then dnsResolve e now w options
  else if command = ascii "dns reverse resolve" then dnsReverseResolve e now w options
  else if command = ascii "dns record get" then some (dnsRecordGet e now w options)
  else if command = ascii "dns record dump" then some (dnsRecordDump w)
  else if command = ascii "dns record remove" then some (dnsRecordRemove w options)
  else if command = ascii "dns record clear" then some (dnsRecordClear w)
  else if command = ascii "dns record analyse" then dnsRecordAnalyse e now w
  else if command = ascii "ip area" then ipArea e w options
  else if command = ascii "dns queue list" then some (dnsQueueList w)
  else some (notInvalid, w)

end Impl

end StDns.Console
