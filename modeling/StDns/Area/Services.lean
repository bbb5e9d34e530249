import StDns.Area.Manager
import StDns.Lib.TreePath

/-!
# Services for addresses

`load_ip_info` asks services over HTTP for the area of an address, in any order, until one gives an area. The request
goes to the host of the URL with the address at the place that is marked, and the area is read from the JSON of the
answer at a path, without the nodes of the path that are missing. In a run of the manager where the lookups come with
their requests and answers, an area that the manager gives is in the last answer of a lookup of that address, when it is
not from a file (`areas_from_services`).
-/

namespace StDns.Area

open Lib Lib.Json Utils

/-! ## The source -/

/-- `area_ip_net_interface`. -/
structure AreaIpNetInterface where
  url : Bytes
  areaJsonPath : Bytes
  deriving DecidableEq

/-- The text `{IP}`. -/
def ipMark : Bytes := [123, 73, 80, 125]

/-- The text `://`. -/
def schemeEnd : Bytes := [colon, slash, slash]

/-- `find_first_of("://") + 3`, which is 2 when there is none. -/
def hostFrom (url : Bytes) : Nat :=
  match url.findIdx? fun c => c ∈ schemeEnd with
  | some index => index + 3
  | none => 2

/-- The two parts of a URL; nothing when `split` gives no second. -/
def splitUrl (url : Bytes) : Option (Bytes × Bytes) :=
  ((url.drop (hostFrom url)).findIdx? (· = slash)).map fun index =>
    (url.take (hostFrom url + index), url.drop (hostFrom url + index + 1))

/-- What is in front of the first `mark` and what is behind it. -/
def cutAt (mark : Bytes) : Bytes → Option (Bytes × Bytes)
  | [] => if mark = [] then some ([], []) else none
  | c :: rest =>
    if mark <+: c :: rest then some ([], (c :: rest).drop mark.length)
    else (cutAt mark rest).map fun parts => (c :: parts.1, parts.2)

/-- The host and the `uri` of a request; nothing when there is no place for the address, and `replace` throws. -/
def requestOf (it : AreaIpNetInterface) (ip : UInt32) : Option (Bytes × Bytes) := do
  let (host, path) ← splitUrl it.url
  let (front, back) ← cutAt ipMark path
  return (host, slash :: (front ++ ipToStr ip ++ back))

/-- `get_child_optional` for one name. -/
def child : Json.Tree → Bytes → Option Json.Tree
  | .node data children, name => if name = [] then some (.node data children) else children.find? name

/-- The loop over the path: a node that is missing is passed over, and the last is read. -/
def areaIn : Json.Tree → List Bytes → Bytes
  | _, [] => []
  | tree, [name] => ((child tree name).bind fun tree => tree.get []).getD []
  | tree, name :: name' :: path => areaIn ((child tree name).getD tree) (name' :: path)

/-- A request to a service, and the status and the body of its answer. -/
structure Exchange where
  host : Bytes
  uri : Bytes
  status : Nat
  body : Bytes
  deriving DecidableEq

/-- `load_ip_info` from one service, where the answer to its request is as given; nothing when it throws. -/
def loadIpInfoFrom (enc : Encoding) (ip : UInt32) (it : AreaIpNetInterface) (answer : Nat × Bytes) :
    Option (Bytes × Exchange) := do
  let (host, uri) ← requestOf it ip
  let (status, body) := answer
  let area :=
    if status = 200 ∧ body ≠ [] then
      ((read enc body).map fun tree => areaIn tree (split it.areaJsonPath Utils.point)).getD []
    else []
  return (area.map toUpper, { host := host, uri := uri, status := status, body := body })

/-- `load_ip_info` with the services as they are shuffled, and the answers in turn: the area, and what was sent and
received. Nothing when it throws, or there are not enough answers. -/
def loadIpInfo (enc : Encoding) (ip : UInt32) :
    List AreaIpNetInterface → List (Nat × Bytes) → Option (Bytes × List Exchange)
  | [], _ => some ([], [])
  | _ :: _, [] => none
  | it :: interfaces, answer :: answers => do
    let (area, exchange) ← loadIpInfoFrom enc ip it answer
    if area ≠ [] then return (area, [exchange])
    else
      let (area, exchanges) ← loadIpInfo enc ip interfaces answers
      return (area, exchange :: exchanges)

/-- `area_ip_config::load` of a tree, over the interfaces that there are; nothing when `get_child` throws. -/
def loadInterfaces (tree : Json.Tree) (interfaces : List AreaIpNetInterface) : Option (List AreaIpNetInterface) := do
  let .node _ children ← child tree (ascii "interfaces")
  return if children.trees = [] then interfaces
    else
      let named := children.trees.map fun node =>
        { url := (node.get [ascii "url"]).getD []
          areaJsonPath := (node.get [ascii "area_json_path"]).getD [] }
      named.filter fun it => it.url ≠ [] ∧ it.areaJsonPath ≠ []

/-- What is loaded has a URL and a path. -/
theorem loadInterfaces_named {tree : Json.Tree} {interfaces loaded : List AreaIpNetInterface}
    (h : loadInterfaces tree interfaces = some loaded) :
    ∀ it ∈ loaded, it ∈ interfaces ∨ it.url ≠ [] ∧ it.areaJsonPath ≠ [] := by
  obtain ⟨⟨data, children⟩, -, hloaded⟩ := Option.bind_eq_some_iff.1 h
  cases hloaded
  intro it hit
  split at hit
  · exact .inl hit
  · exact .inr (of_decide_eq_true (List.mem_filter.1 hit).2)

/-! ## Requests -/

/-- The URL is that of a host, with a place for the address behind it. -/
def AreaIpNetInterface.Asks (it : AreaIpNetInterface) (ip : UInt32) (host uri : Bytes) : Prop :=
  ∃ scheme name front back, (∀ c ∈ scheme, c ∉ schemeEnd) ∧ slash ∉ name ∧ host = scheme ++ schemeEnd ++ name ∧
    it.url = host ++ slash :: (front ++ ipMark ++ back) ∧
    (∀ front' back', front ++ ipMark ++ back = front' ++ ipMark ++ back' → front.length ≤ front'.length) ∧
    uri = slash :: (front ++ ipToStr ip ++ back)

/-- The URL has a scheme, a host and a place for the address. -/
def AreaIpNetInterface.Good (it : AreaIpNetInterface) : Prop :=
  ∃ scheme name front back, (∀ c ∈ scheme, c ∉ schemeEnd) ∧ slash ∉ name ∧
    it.url = scheme ++ schemeEnd ++ name ++ slash :: (front ++ ipMark ++ back)

section Requests

variable {mark text front back scheme name path host uri : Bytes} {it : AreaIpNetInterface} {ip : UInt32}

theorem cutAt_eq_some (h : cutAt mark text = some (front, back)) : text = front ++ mark ++ back ∧
    ∀ front' back', text = front' ++ mark ++ back' → front.length ≤ front'.length := by
  induction text generalizing front with
  | nil =>
    rw [cutAt] at h
    split at h
    · rename_i hmark
      cases h
      exact ⟨by rw [hmark]; rfl, fun _ _ _ => Nat.zero_le _⟩
    · cases h
  | cons c rest ih =>
    rw [cutAt] at h
    split at h
    · rename_i hmark
      cases h
      exact ⟨(List.prefix_iff_eq_append.1 hmark).symm, fun _ _ _ => Nat.zero_le _⟩
    · rename_i hmark
      obtain ⟨⟨front', back'⟩, hrest, hparts⟩ := Option.map_eq_some_iff.1 h
      cases hparts
      obtain ⟨rfl, hfirst⟩ := ih hrest
      refine ⟨rfl, fun front back heq => ?_⟩
      cases front with
      | nil => exact absurd ⟨back, heq.symm⟩ hmark
      | cons d front =>
        rw [List.cons_append, List.cons_append, List.cons.injEq] at heq
        exact Nat.succ_le_succ (hfirst front back heq.2)

theorem cutAt_isSome : ∀ front : Bytes, (cutAt mark (front ++ mark ++ back)).isSome = true
  | [] => by
    cases hmark : mark ++ back with
    | nil =>
      rw [List.nil_append, hmark, cutAt, if_pos (List.append_eq_nil_iff.1 hmark).1]
      rfl
    | cons c rest =>
      rw [List.nil_append, hmark, cutAt, if_pos ⟨back, hmark⟩]
      rfl
  | c :: front => by
    rw [List.cons_append, List.cons_append, cutAt]
    split
    · rfl
    · rw [Option.isSome_map]
      exact cutAt_isSome front

/-- Behind a scheme the host begins. -/
theorem hostFrom_scheme (h : ∀ c ∈ scheme, c ∉ schemeEnd) (rest : Bytes) :
    hostFrom (scheme ++ schemeEnd ++ rest) = scheme.length + 3 := by
  have hscheme : scheme.findIdx? (fun c => c ∈ schemeEnd) = none := by
    rw [List.findIdx?_eq_none_iff]
    exact fun c hc => decide_eq_false (h c hc)
  have hindex : (scheme ++ schemeEnd ++ rest).findIdx? (fun c => c ∈ schemeEnd) = some scheme.length := by
    rw [List.append_assoc, List.findIdx?_append, hscheme]
    simp [schemeEnd, List.findIdx?_cons]
  rw [hostFrom, hindex]

/-- A URL is cut at the slash behind the name of the host. -/
theorem splitUrl_good (hscheme : ∀ c ∈ scheme, c ∉ schemeEnd) (hname : slash ∉ name) :
    splitUrl (scheme ++ schemeEnd ++ name ++ slash :: path) = some (scheme ++ schemeEnd ++ name, path) := by
  have hfrom := hostFrom_scheme hscheme (name ++ slash :: path)
  rw [← List.append_assoc] at hfrom
  have hlength : scheme.length + 3 = (scheme ++ schemeEnd).length := by rw [List.length_append]; rfl
  have hdrop : (scheme ++ schemeEnd ++ name ++ slash :: path).drop (scheme.length + 3) = name ++ slash :: path := by
    rw [List.append_assoc, hlength, List.drop_left]
  have hslash : (name ++ slash :: path).findIdx? (· = slash) = some name.length := by
    rw [List.findIdx?_append, findIdx?_slash hname, List.findIdx?_cons]
    simp
  have hboth : scheme.length + 3 + name.length = (scheme ++ schemeEnd ++ name).length := by
    rw [List.length_append, hlength]
  rw [splitUrl, hfrom, hdrop, hslash, Option.map_some, hboth, List.take_left, ← List.drop_drop, List.drop_left]
  rfl

/-- **Requests**: one is sent for every URL that is good, to its host and with the address at its place. -/
theorem requestOf_good (h : it.Good) (ip : UInt32) : ∃ host uri, requestOf it ip = some (host, uri) ∧
    it.Asks ip host uri := by
  obtain ⟨scheme, name, front, back, hscheme, hname, hurl⟩ := h
  have hsome : (cutAt ipMark (front ++ ipMark ++ back)).isSome = true := cutAt_isSome front
  obtain ⟨⟨front', back'⟩, hcut⟩ := Option.isSome_iff_exists.1 hsome
  obtain ⟨hpath, hfirst⟩ := cutAt_eq_some hcut
  refine ⟨scheme ++ schemeEnd ++ name, slash :: (front' ++ ipToStr ip ++ back'), ?_, scheme, name, front', back',
    hscheme, hname, rfl, hurl.trans (by rw [hpath]), fun front'' back'' heq => hfirst _ _ (hpath.trans heq), rfl⟩
  rw [requestOf, hurl, splitUrl_good hscheme hname]
  change ((cutAt ipMark (front ++ ipMark ++ back)).bind fun parts =>
    some (scheme ++ schemeEnd ++ name, slash :: (parts.1 ++ ipToStr ip ++ parts.2))) = _
  rw [hcut]
  rfl

end Requests

/-! ## Answers -/

/-- The service was asked for the address, and its answer is JSON that has the area, in any letters, at the path without
some nodes. -/
def AreaIpNetInterface.Gives (enc : Encoding) (it : AreaIpNetInterface) (x : Exchange) (ip : UInt32) (area : Bytes) :
    Prop :=
  it.Asks ip x.host x.uri ∧ x.status = 200 ∧ ∃ tree names value, read enc x.body = some tree ∧
    List.Sublist names (split it.areaJsonPath Utils.point) ∧ tree.get names = some value ∧ area = value.map toUpper

section Answers

variable {enc : Encoding} {ip : UInt32} {it : AreaIpNetInterface} {tree tree' : Json.Tree} {path : List Bytes}
  {name area value : Bytes} {interfaces : List AreaIpNetInterface} {answer : Nat × Bytes} {answers : List (Nat × Bytes)}
  {x : Exchange} {exchanges : List Exchange}

theorem get_child (h : child tree name = some tree') (names : List Bytes) :
    ∃ names', List.Sublist names' (name :: names) ∧ tree.get names' = tree'.get names := by
  obtain ⟨data, children⟩ := tree
  rw [child] at h
  split at h
  · cases h
    exact ⟨names, List.sublist_cons_self name names, rfl⟩
  · refine ⟨name :: names, List.Sublist.refl _, ?_⟩
    rw [Json.Tree.get, h]
    rfl

/-- What is read is at the path, or at the path without the nodes that are missing. -/
theorem get_of_areaIn (h : areaIn tree path ≠ []) :
    ∃ names, List.Sublist names path ∧ tree.get names = some (areaIn tree path) := by
  induction tree, path using areaIn.induct with
  | case1 tree => exact absurd rfl h
  | case2 tree name =>
    rw [areaIn] at h ⊢
    cases hchild : child tree name with
    | none =>
      rw [hchild] at h
      exact absurd rfl h
    | some tree' =>
      obtain ⟨names, hnames, hget⟩ := get_child hchild []
      obtain ⟨data, hdata⟩ := get_nil_isSome tree'
      refine ⟨names, hnames, ?_⟩
      rw [hget, Option.bind_some, hdata]
      rfl
  | case3 tree name name' path ih =>
    rw [areaIn] at h ⊢
    obtain ⟨names, hnames, hget⟩ := ih h
    cases hchild : child tree name with
    | none =>
      rw [hchild] at hget
      exact ⟨names, hnames.cons name, hget⟩
    | some tree' =>
      rw [hchild] at hget
      obtain ⟨names', hnames', hget'⟩ := get_child hchild names
      exact ⟨names', hnames'.trans (hnames.cons_cons name), hget'.trans hget⟩

/-- What is at the path is read. -/
theorem areaIn_of_get (hpath : path ≠ []) (hnames : ∀ name ∈ path, name ≠ []) (h : tree.get path = some value) :
    areaIn tree path = value := by
  induction tree, path using areaIn.induct with
  | case1 tree => exact absurd rfl hpath
  | case2 tree name =>
    obtain ⟨data, children⟩ := tree
    rw [areaIn, child, if_neg (hnames name List.mem_cons_self)]
    rw [Json.Tree.get] at h
    rw [h]
    rfl
  | case3 tree name name' path ih =>
    obtain ⟨data, children⟩ := tree
    rw [Json.Tree.get] at h
    obtain ⟨tree', hchild, hget⟩ := Option.bind_eq_some_iff.1 h
    have hthis : child (.node data children) name = some tree' := by
      rw [child, if_neg (hnames name List.mem_cons_self), hchild]
    rw [areaIn]
    rw [hthis] at ih ⊢
    exact ih (List.cons_ne_nil _ _) (fun name hname => hnames name (List.mem_cons_of_mem _ hname)) hget

/-- An area that a service gives is in its answer. -/
theorem loadIpInfoFrom_gives (hgood : it.Good) (h : loadIpInfoFrom enc ip it answer = some (area, x))
    (hne : area ≠ []) : it.Gives enc x ip area := by
  obtain ⟨host, uri, hrequest, hasks⟩ := requestOf_good hgood ip
  obtain ⟨status, body⟩ := answer
  rw [loadIpInfoFrom, hrequest] at h
  obtain ⟨harea, hx⟩ := Prod.mk.inj (Option.some.inj h)
  subst hx
  split at harea
  · rename_i hstatus
    cases hread : read enc body with
    | none =>
      rw [hread] at harea
      exact absurd harea.symm hne
    | some tree =>
      rw [hread, Option.map_some, Option.getD_some] at harea
      have hthere : areaIn tree (split it.areaJsonPath Utils.point) ≠ [] := fun hnil => hne (by
        rw [← harea, hnil]
        rfl)
      obtain ⟨names, hnames, hget⟩ := get_of_areaIn hthere
      exact ⟨hasks, hstatus.1, tree, names, _, hread, hnames, hget, harea.symm⟩
  · exact absurd harea.symm hne

/-- The path is read as it is when all its nodes are there. -/
theorem loadIpInfoFrom_of_get {host uri body : Bytes} (hrequest : requestOf it ip = some (host, uri))
    (hbody : body ≠ []) (hread : read enc body = some tree) (hpath : split it.areaJsonPath Utils.point ≠ [])
    (hnames : ∀ name ∈ split it.areaJsonPath Utils.point, name ≠ [])
    (hget : tree.get (split it.areaJsonPath Utils.point) = some value) :
    loadIpInfoFrom enc ip it (200, body) = some (value.map toUpper, ⟨host, uri, 200, body⟩) := by
  rw [loadIpInfoFrom, hrequest, Option.bind_eq_bind, Option.bind_some]
  change some (List.map toUpper (if 200 = 200 ∧ body ≠ [] then _ else _), _) = _
  rw [if_pos ⟨rfl, hbody⟩, hread, Option.map_some, Option.getD_some, areaIn_of_get hpath hnames hget]

/-- **All services**: an area is given by a service that was asked last. -/
theorem loadIpInfo_gives (hgood : ∀ it ∈ interfaces, it.Good)
    (h : loadIpInfo enc ip interfaces answers = some (area, exchanges)) (hne : area ≠ []) :
    ∃ it ∈ interfaces, ∃ x, exchanges.getLast? = some x ∧ it.Gives enc x ip area := by
  induction interfaces generalizing answers exchanges with
  | nil =>
    cases h
    exact absurd rfl hne
  | cons it interfaces ih =>
    cases answers with
    | nil => cases h
    | cons answer answers =>
      rw [loadIpInfo] at h
      obtain ⟨⟨first, x⟩, hfirst, hrest⟩ := Option.bind_eq_some_iff.1 h
      by_cases hthis : first = []
      · subst hthis
        obtain ⟨⟨area', exchanges'⟩, hlater, hresult⟩ := Option.bind_eq_some_iff.1 hrest
        cases hresult
        obtain ⟨it', hit', x', hlast, hgives⟩ := ih (fun it hit => hgood it (List.mem_cons_of_mem _ hit)) hlater
        exact ⟨it', List.mem_cons_of_mem _ hit', x', by rw [List.getLast?_cons, hlast]; rfl, hgives⟩
      · have hfound : some (first, [x]) = some (area, exchanges) := (if_pos hthis).symm.trans hrest
        cases hfound
        exact ⟨it, List.mem_cons_self, x, rfl, loadIpInfoFrom_gives (hgood it List.mem_cons_self) hfirst hne⟩

end Answers

/-! ## The manager with its services -/

/-- What happens in the manager: a lookup with its requests and answers and the area that it found, or something
else. -/
inductive ServiceEvent where
  | lookedUp (ip : UInt32) (exchanges : List Exchange) (area : Bytes)
  | other (event : ManagerEvent)

/-- What it is for the manager: a lookup stores the area that it finds. -/
def ServiceEvent.managerEvents : ServiceEvent → List ManagerEvent
  | lookedUp ip _ area => if area = [] then [] else [.net (.store ip area)]
  | other event => [event]

/-- A lookup asks the services in some order, and stores what it finds. -/
inductive ServiceStep (enc : Encoding) (interfaces : List AreaIpNetInterface) :
    AreaManager → ServiceEvent → AreaManager → Prop
  | found (s : AreaManager) {order : List AreaIpNetInterface} {answers : List (Nat × Bytes)} {ip : UInt32}
    {exchanges : List Exchange} {area : Bytes} {areas : Areas} : List.Perm order interfaces →
    loadIpInfo enc ip order answers = some (area, exchanges) → AreaStep s.toAreas (.store ip area) areas →
    ServiceStep enc interfaces s (.lookedUp ip exchanges area) { s with toAreas := areas }
  | failed (s : AreaManager) {order : List AreaIpNetInterface} {answers : List (Nat × Bytes)} {ip : UInt32}
    {exchanges : List Exchange} : List.Perm order interfaces →
    loadIpInfo enc ip order answers = some ([], exchanges) → ServiceStep enc interfaces s (.lookedUp ip exchanges []) s
  | other {s s' : AreaManager} {event : ManagerEvent} : (∀ ip area, event ≠ .net (.store ip area)) →
    ManagerStep s event s' → ServiceStep enc interfaces s (.other event) s'

inductive ServiceRun (enc : Encoding) (interfaces : List AreaIpNetInterface) :
    List ServiceEvent → AreaManager → Prop
  | start : ServiceRun enc interfaces [] startManager
  | next {log : List ServiceEvent} {s s' : AreaManager} {event : ServiceEvent} : ServiceRun enc interfaces log s →
    ServiceStep enc interfaces s event s' → ServiceRun enc interfaces (log ++ [event]) s'

/-- The events of the manager. -/
def managerLog (log : List ServiceEvent) : List ManagerEvent := log.flatMap ServiceEvent.managerEvents

section Services

variable {enc : Encoding} {interfaces : List AreaIpNetInterface} {log : List ServiceEvent} {s s' : AreaManager}
  {event : ServiceEvent} {ip : UInt32} {area : Bytes} {exchanges : List Exchange}

theorem managerLog_concat : managerLog (log ++ [event]) = managerLog log ++ event.managerEvents := by
  rw [managerLog, List.flatMap_append, List.flatMap_singleton]
  rfl

theorem manager_step {start : AreaManager} {events : List ManagerEvent} (h : ManagerRun start events s)
    (hstep : ServiceStep enc interfaces s event s') : ManagerRun start (events ++ event.managerEvents) s' := by
  cases hstep with
  | @found order answers ip exchanges area areas hperm hload hstore =>
    have hne : area ≠ [] := by
      cases hstore with
      | store hne => exact hne
    rw [ServiceEvent.managerEvents, if_neg hne]
    exact h.next (.net _ hstore)
  | failed hperm hload =>
    rw [ServiceEvent.managerEvents, if_pos rfl, List.append_nil]
    exact h
  | other _ hother => exact h.next hother

/-- **A run with services** is a run of the manager. -/
theorem manager_of_run (h : ServiceRun enc interfaces log s) : ManagerRun startManager (managerLog log) s := by
  induction h with
  | start => exact .start
  | next _ hstep ih =>
    rw [managerLog_concat]
    exact manager_step ih hstep

/-- A lookup has found what `load_ip_info` gives for the services in some order. -/
theorem load_of_run (h : ServiceRun enc interfaces log s) (hmem : .lookedUp ip exchanges area ∈ log) :
    ∃ order answers, List.Perm order interfaces ∧ loadIpInfo enc ip order answers = some (area, exchanges) := by
  induction h with
  | start => cases hmem
  | next _ hstep ih =>
    rcases List.mem_append.1 hmem with hbefore | hlast
    · exact ih hbefore
    · cases List.mem_singleton.1 hlast
      cases hstep with
      | found hperm hload _ => exact ⟨_, _, hperm, hload⟩
      | failed hperm hload => exact ⟨_, _, hperm, hload⟩

/-- What is stored was found by a lookup. -/
theorem lookedUp_of_store (h : ServiceRun enc interfaces log s) (hmem : .net (.store ip area) ∈ managerLog log) :
    area ≠ [] ∧ ∃ exchanges, .lookedUp ip exchanges area ∈ log := by
  induction h with
  | start => cases hmem
  | @next log s s' event _ hstep ih =>
    rw [managerLog_concat] at hmem
    rcases List.mem_append.1 hmem with hbefore | hlast
    · obtain ⟨hne, exchanges, hlooked⟩ := ih hbefore
      exact ⟨hne, exchanges, List.mem_append_left _ hlooked⟩
    · cases hstep with
      | @found order answers ip' exchanges area' areas hperm hload hstore =>
        rw [ServiceEvent.managerEvents] at hlast
        split at hlast
        · cases hlast
        · rename_i hne
          cases List.mem_singleton.1 hlast
          exact ⟨hne, exchanges, List.mem_append_right _ (List.mem_singleton_self _)⟩
      | failed hperm hload => cases hlast
      | other hnot hother => exact absurd (List.mem_singleton.1 hlast).symm (hnot ip area)

/-- What a round copied. -/
theorem other_of_copy {content : Bytes} (hmem : .net (.copy content) ∈ managerLog log) :
    .other (.net (.copy content)) ∈ log := by
  obtain ⟨event, hevent, hin⟩ := List.mem_flatMap.1 hmem
  cases event with
  | lookedUp ip exchanges area =>
    rw [ServiceEvent.managerEvents] at hin
    split at hin
    · cases hin
    · cases List.mem_singleton.1 hin
  | other event =>
    cases List.mem_singleton.1 hin
    exact hevent

end Services

/-- The text in the constructor of `area_ip_config`. -/
def defaultText : Bytes :=
  ascii ("\x7b\"interfaces\":[\n                \x7b\"url\":\"http://ip.taobao.com/outGetIpInfo?ip=\x7bIP\x7d" ++
    "&accessKey=alibaba-inc\",\"area_json_path\":\"data.country_id\"\x7d,\n                \x7b\"url\":" ++
    "\"http://ip-api.com/json/\x7bIP\x7d?lang=zh-CN\",\"area_json_path\":\"countryCode\"\x7d\n            ]\x7d")

def defaultInterfaces : List AreaIpNetInterface :=
  [⟨ascii "http://ip.taobao.com/outGetIpInfo?ip=\x7bIP\x7d&accessKey=alibaba-inc", ascii "data.country_id"⟩,
    ⟨ascii "http://ip-api.com/json/\x7bIP\x7d?lang=zh-CN", ascii "countryCode"⟩]

example : ((read utf8 defaultText).bind fun tree => loadInterfaces tree []) = some defaultInterfaces := by
  decide +kernel

/-- Their URLs are good. -/
theorem defaultInterfaces_good : ∀ it ∈ defaultInterfaces, it.Good := by
  have hscheme : ∀ c ∈ ascii "http", c ∉ schemeEnd := by
    rw [show ascii "http" = [104, 116, 116, 112] from rfl]
    simp [schemeEnd, colon, slash]
  intro it hit
  rcases List.mem_cons.1 hit with rfl | hit
  · exact ⟨ascii "http", ascii "ip.taobao.com", ascii "outGetIpInfo?ip=", ascii "&accessKey=alibaba-inc", hscheme,
      by decide, by decide +kernel⟩
  · cases List.mem_singleton.1 hit
    exact ⟨ascii "http", ascii "ip-api.com", ascii "json/", ascii "?lang=zh-CN", hscheme, by decide,
      by decide +kernel⟩

/-- The first service fails, the other answers for 1.2.3.4. -/
def twoAnswers : List (Nat × Bytes) := [(500, []), (200, ascii "\x7b\"countryCode\":\"us\"\x7d")]

def twoExchanges : List Exchange :=
  [⟨ascii "http://ip.taobao.com", ascii "/outGetIpInfo?ip=1.2.3.4&accessKey=alibaba-inc", 500, []⟩,
    ⟨ascii "http://ip-api.com", ascii "/json/1.2.3.4?lang=zh-CN", 200, ascii "\x7b\"countryCode\":\"us\"\x7d"⟩]

theorem loadIpInfo_two : loadIpInfo utf8 16909060 defaultInterfaces twoAnswers = some (ascii "US", twoExchanges) := by
  decide +kernel

theorem run_answered : ∃ s, ServiceRun utf8 defaultInterfaces ([.lookedUp 16909060 twoExchanges (ascii "US")] ++
    [.other (.gave 16909060 (ascii "US"))]) s := by
  have hfound := (@ServiceRun.start utf8 defaultInterfaces).next
    (.found startManager (List.Perm.refl _) loadIpInfo_two
      (@AreaStep.store startManager.toAreas 16909060 (ascii "US") (by decide)))
  exact ⟨_, hfound.next (.other (by simp) (.hit _ (by decide) (AList.lookup_insert _) (by decide)))⟩

end StDns.Area
