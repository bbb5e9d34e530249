import StDns.Utils.Ipv4
import Mathlib.Data.List.AList
import Mathlib.Data.List.Dedup

/-!
# The areas of addresses

`areaip::manager` keeps the area of every address that was looked up in `net_caches`. Each round of `sync_net_area_ip`
puts the lines of a file and the lines of the cache into one set, and when that has more lines than the file it goes
through the set: each line that it accepts is written to a temporary file and read into a new cache, and the new cache
takes the place of the old one.
-/

namespace StDns.Area

open Lib Utils

/-! ## `net_caches` -/

/-- The area of an address. -/
abbrev NetCaches := AList fun _ : UInt32 => Bytes

/-- `area_ip_range`. -/
structure AreaIpRange where
  start : UInt32
  «end» : UInt32
  deriving DecidableEq

/-- The address ranges of an area. -/
abbrev DefaultCaches := AList fun _ : Bytes => List AreaIpRange

/-- `is_area_ip` on the ranges of the areas. -/
def isAreaIp (areaCode : Bytes) (ip : UInt32) (caches : DefaultCaches) : Bool :=
  ((caches.lookup areaCode).getD []).any fun it => ip ≤ it.end ∧ it.start ≤ ip

/-- `get_area` on the ranges of the areas. -/
def getAreaDefault (ip : UInt32) (caches : DefaultCaches) : Bytes :=
  if 0 < ip then (caches.keys.find? fun area => isAreaIp area ip caches).getD [] else []

/-- The text `default`. -/
def defaultArea : Bytes := [100, 101, 102, 97, 117, 108, 116]

/-- `get_area`. -/
def getArea (netCaches : NetCaches) (defaultCaches : DefaultCaches) (ip : UInt32) : Bytes :=
  let area :=
    if ip ≠ 0 then
      let area := (netCaches.lookup ip).getD []
      if area = [] then getAreaDefault ip defaultCaches else area
    else []
  if area = [] then defaultArea else area

/-! ## A round of `sync_net_area_ip` -/

/-- The character between the fields of a line. -/
def tab : UInt8 := 9

/-- The lines that `getline` finds, but for empty ones. -/
def fileLines (content : Bytes) : List Bytes := (content.splitOn newline).filter (· ≠ [])

/-- The line of an address in the cache. -/
def recordLine (ip : UInt32) (area : Bytes) : Bytes := ipToStr ip ++ tab :: area

/-- `final_record`, a set. -/
def finalRecord (content : Bytes) (netCaches : NetCaches) : List Bytes :=
  (fileLines content ++ netCaches.entries.map fun e => recordLine e.1 e.2).dedup

/-- What the loop makes of a line, an address and an area when the line is accepted; nothing when the loop fails,
because `stoi` throws or there is no field behind the first. -/
def readRecord (it : Bytes) : Option (Option (UInt32 × Bytes)) :=
  match split it tab with
  | [] => none
  | first :: fields => do
    let uip ← strToIp first
    match fields with
    | [] => none
    | area :: rest => return if rest = [] ∧ uip ≠ 9 ∧ area ≠ [] then some (uip, area) else none

/-- The loop over the set: the text of the temporary file and the new cache. -/
def collectRecords : List Bytes → Bytes × NetCaches → Option (Bytes × NetCaches)
  | [], result => some result
  | it :: lines, (fs, newCaches) => do
    match ← readRecord it with
    | some (uip, area) => collectRecords lines (fs ++ (it ++ [newline]), newCaches.insert uip area)
    | none => collectRecords lines (fs, newCaches)

/-- The order in which an `unordered_set` gives its lines. -/
structure Iteration where
  order : List Bytes → List Bytes
  perm : ∀ lines, (order lines).Perm lines

/-- What a round makes of the file and the copy of the cache: nothing new when the cache has no line of its own. -/
def merge (it : Iteration) (content : Bytes) (duplicate : NetCaches) : Option (Option (Bytes × NetCaches)) :=
  if (fileLines content).dedup.length ≠ (finalRecord content duplicate).length then
    (collectRecords (it.order (finalRecord content duplicate)) ([], ∅)).map some
  else some none

/-- What a round leaves: the cache, and the new text of the file when it is rewritten. -/
structure Round where
  netCaches : NetCaches
  rewritten : Option Bytes := none

/-- `sync_net_area_ip` on the file, if there is one; `older` says that it was not written since the round began. -/
def syncNetAreaIp (it : Iteration) (older : Bool) (file : Option Bytes) (netCaches : NetCaches) : Option Round :=
  match file with
  | none => some { netCaches := netCaches }
  | some content => do
    match ← merge it content netCaches with
    | none => return { netCaches := netCaches }
    | some (fs, newCaches) => return { netCaches := newCaches, rewritten := if older then some fs else none }

end StDns.Area
