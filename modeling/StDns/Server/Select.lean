import StDns.Server.ConfigLoad
import StDns.Server.LocalNames

/-!
# What `select_servers` selects

One pass over the servers collects those that do not blacklist the name, and is given up for the first that whitelists
it. The result is that of two passes: a search for a server that whitelists the name, and then the collection
(`selectServers_twoPhase`). An entry of a whitelist is compared with the name as a text first, with the operands the
wrong way round (`entry_law_iff`), and otherwise it is compiled as an expression, which fails for an entry such as
`*.example.com`; so the selection fails unless an earlier entry captures the name (`select_returns_iff`). The entries of
a whitelist stand in the order in which the set gives them, whatever that is.
-/

namespace StDns.Server

open Lib Protocol Proto Store

/-! ## Two phases -/

/-- The server may be asked for the name. -/
def Eligible (domain : Bytes) (server : RemoteDnsServer) : Prop := LocalName domain → lan ∈ server.areas

/-- The loop of `select_servers` with any test of a server in place of the loop over its whitelist. -/
def selectWith (whitelists : RemoteDnsServer → Option Bool) (domain : Bytes) :
    List RemoteDnsServer → List RemoteDnsServer → Option (List RemoteDnsServer)
  | [], result => some result
  | server :: servers, result =>
    if isLocal domain ∧ lan ∉ server.areas then selectWith whitelists domain servers result
    else do
      if ← whitelists server then return [server]
      else if domain ∈ server.blacklist then selectWith whitelists domain servers result
      else selectWith whitelists domain servers (result ++ [server])

section LastLabel

variable {domain : Bytes} {server : RemoteDnsServer}

/-- A name with a dot is split at the last one. -/
theorem exists_lastLabel (h : dot ∈ domain) : ∃ stem label, domain = stem ++ dot :: label ∧ dot ∉ label := by
  obtain ⟨label, stem, hsplit, hlabel⟩ := List.eq_append_cons_of_mem (List.mem_reverse.2 h)
  refine ⟨stem.reverse, label.reverse, ?_, fun hmem => hlabel (List.mem_reverse.1 hmem)⟩
  rw [← List.reverse_reverse domain, hsplit, List.reverse_append, List.reverse_cons, List.append_assoc,
    List.singleton_append]

theorem isLocal_iff : isLocal domain = true ↔ LocalName domain := by
  refine ⟨fun h => ?_, LocalName.isLocal⟩
  by_cases hdot : dot ∈ domain
  · obtain ⟨stem, label, rfl, hlabel⟩ := exists_lastLabel hdot
    refine ⟨stem, label, rfl, ?_⟩
    simpa [isLocal, getFIDomain_append hlabel] using h
  · simp [isLocal, getFIDomain, hdot, lan, arpa] at h

instance : Decidable (LocalName domain) := decidable_of_iff (isLocal domain = true) isLocal_iff

instance : Decidable (Eligible domain server) := inferInstanceAs (Decidable (LocalName domain → lan ∈ server.areas))

theorem eligible_iff : Eligible domain server ↔ ¬(isLocal domain = true ∧ lan ∉ server.areas) := by
  rw [isLocal_iff, not_and, not_not, Eligible]

end LastLabel

/-- The first eligible server that whitelists the name, or else all eligible servers that do not blacklist it. -/
def twoPhase (whitelists : RemoteDnsServer → Bool) (domain : Bytes) (servers : List RemoteDnsServer) :
    List RemoteDnsServer :=
  match servers.find? fun server => decide (Eligible domain server) && whitelists server with
  | some server => [server]
  | none => servers.filter fun server => decide (Eligible domain server) && decide (domain ∉ server.blacklist)

section TwoPhase

variable {regexMatch : Bytes → Bytes → Option Bool} {test : RemoteDnsServer → Option Bool}
  {whitelists : RemoteDnsServer → Bool} {domain : Bytes} {servers result : List RemoteDnsServer}
  {server : RemoteDnsServer}

theorem selectFrom_eq_selectWith : ∀ servers result, selectFrom regexMatch domain servers result =
    selectWith (fun server => inWhitelist regexMatch domain server.whitelist) domain servers result := by
  intro servers
  induction servers with
  | nil => exact fun result => rfl
  | cons server servers ih =>
    intro result
    simp only [selectFrom, selectWith, ih]

theorem selectWith_cons_of_not_eligible (h : ¬Eligible domain server) :
    selectWith test domain (server :: servers) result = selectWith test domain servers result := by
  rw [eligible_iff, not_not] at h
  rw [selectWith, if_pos h]

theorem selectWith_cons_of_eligible (h : Eligible domain server) :
    selectWith test domain (server :: servers) result = (test server).bind fun listed =>
      if listed then some [server]
      else selectWith test domain servers (if domain ∈ server.blacklist then result else result ++ [server]) := by
  rw [eligible_iff] at h
  rw [selectWith, if_neg h, apply_ite (selectWith test domain servers)]
  rfl

/-- What was collected before stands in front, unless a server whitelists the name. -/
theorem selectWith_eq (h : ∀ server ∈ servers, test server = some (whitelists server)) :
    selectWith test domain servers result = some
      (match servers.find? fun server => decide (Eligible domain server) && whitelists server with
      | some server => [server]
      | none => result ++
          servers.filter fun server => decide (Eligible domain server) && decide (domain ∉ server.blacklist)) := by
  induction servers generalizing result with
  | nil => simp [selectWith]
  | cons server servers ih =>
    obtain ⟨hserver, hservers⟩ := List.forall_mem_cons.1 h
    by_cases heligible : Eligible domain server
    · rw [selectWith_cons_of_eligible heligible, hserver, Option.bind_some]
      cases hlisted : whitelists server with
      | true => simp [heligible, hlisted]
      | false =>
        rw [if_neg Bool.false_ne_true, ih hservers, List.find?_cons_of_neg (by simp [hlisted])]
        by_cases hblack : domain ∈ server.blacklist <;> simp [heligible, hblack]
    · rw [selectWith_cons_of_not_eligible heligible, ih hservers, List.find?_cons_of_neg (by simp [heligible]),
        List.filter_cons_of_neg (by simp [heligible])]

end TwoPhase

/-- **Selection**: whatever the test of a whitelist says, unless it fails, one pass finds what two passes do. -/
theorem selectServers_twoPhase (whitelists : RemoteDnsServer → Bool) (domain : Bytes)
    (servers : List RemoteDnsServer) :
    selectWith (fun server => some (whitelists server)) domain servers [] = some (twoPhase whitelists domain servers) ∧
      ∀ regexMatch, (∀ server ∈ servers, inWhitelist regexMatch domain server.whitelist = some (whitelists server)) →
        selectServers regexMatch domain servers = some (twoPhase whitelists domain servers) := by
  refine ⟨selectWith_eq fun server _ => rfl, fun regexMatch h => ?_⟩
  rw [selectServers, selectFrom_eq_selectWith]
  exact selectWith_eq h

/-- The witness: two servers, the second of which whitelists the name. -/
theorem selectServers_twoPhase_at :
    selectServers (fun _ _ => some false) [97] [{ ip := oneIp, port := 53, type := .udp },
      { ip := [50], port := 53, type := .udp, whitelist := [[97]], blacklist := [[97]] }] =
      some [{ ip := [50], port := 53, type := .udp, whitelist := [[97]], blacklist := [[97]] }] :=
  (selectServers_twoPhase (fun server => server.whitelist ≠ []) [97] _).2 _ (by decide)

/-! ## The entries of a whitelist -/

/-- The name captured by the text of an entry: the entry is the name, or has it behind a dot. -/
def NamedBy (domain entry : Bytes) : Prop := domain = entry ∨ (dot :: domain) <:+: entry

instance (domain entry : Bytes) : Decidable (NamedBy domain entry) :=
  inferInstanceAs (Decidable (domain = entry ∨ (dot :: domain) <:+: entry))

/-- The name captured by an entry, as a text or as an expression. -/
def Captures (regexMatch : Bytes → Bytes → Option Bool) (domain entry : Bytes) : Prop :=
  NamedBy domain entry ∨ regexMatch domain entry = some true

section Entries

variable {regexMatch : Bytes → Bytes → Option Bool} {Valid : Bytes → Prop} {domain entry : Bytes}
  {whitelist before after : List Bytes}

theorem inWhitelist_cons_of_named (h : NamedBy domain entry) :
    inWhitelist regexMatch domain (entry :: whitelist) = some true := by
  unfold NamedBy at h
  rw [inWhitelist, if_pos h]

theorem inWhitelist_cons_of_not_named (h : ¬NamedBy domain entry) :
    inWhitelist regexMatch domain (entry :: whitelist) =
      (regexMatch domain entry).bind fun captured =>
        if captured then some true else inWhitelist regexMatch domain whitelist := by
  unfold NamedBy at h
  rw [inWhitelist, if_neg h]
  rfl

theorem inWhitelist_append : inWhitelist regexMatch domain (before ++ after) =
    (inWhitelist regexMatch domain before).bind fun listed =>
      if listed then some true else inWhitelist regexMatch domain after := by
  induction before with
  | nil => rfl
  | cons entry before ih =>
    rw [List.cons_append]
    by_cases hnamed : NamedBy domain entry
    · rw [inWhitelist_cons_of_named hnamed, inWhitelist_cons_of_named hnamed]
      rfl
    · rw [inWhitelist_cons_of_not_named hnamed, inWhitelist_cons_of_not_named hnamed, ih, Option.bind_assoc]
      congr 1
      funext captured
      cases captured <;> rfl

/-- One entry captures the name. -/
theorem inWhitelist_singleton :
    inWhitelist regexMatch domain [entry] = some true ↔ Captures regexMatch domain entry := by
  unfold Captures
  by_cases hnamed : NamedBy domain entry
  · simp [inWhitelist_cons_of_named hnamed, hnamed]
  · rw [inWhitelist_cons_of_not_named hnamed]
    cases hmatch : regexMatch domain entry with
    | none => simp [hnamed]
    | some captured => cases captured <;> simp [hnamed, inWhitelist]

/-! ## Subdomains -/

/-- What the whitelist is for: the name is the entry, or stands under it. -/
def Under (domain entry : Bytes) : Prop := domain = entry ∨ (dot :: entry) <:+ domain

/-- An entry, when it is reached, captures the names that it is or that stand under it, and else only those that it
matches as an expression. -/
def EntryLaw (regexMatch : Bytes → Bytes → Option Bool) (domain entry : Bytes) : Prop :=
  ∀ before after, inWhitelist regexMatch domain before = some false →
    (inWhitelist regexMatch domain (before ++ [entry]) = some true →
      Under domain entry ∨ regexMatch domain entry = some true) ∧
    (Under domain entry → inWhitelist regexMatch domain (before ++ entry :: after) = some true)

theorem inWhitelist_reached (h : inWhitelist regexMatch domain before = some false) :
    inWhitelist regexMatch domain (before ++ after) = inWhitelist regexMatch domain after := by
  rw [inWhitelist_append, h, Option.bind_some, if_neg Bool.false_ne_true]

theorem inWhitelist_of_captures (h : Captures regexMatch domain entry) :
    inWhitelist regexMatch domain (entry :: whitelist) = some true := by
  rw [← List.singleton_append, inWhitelist_append, inWhitelist_singleton.2 h]
  rfl

theorem entryLaw_iff_captures : EntryLaw regexMatch domain entry ↔
    (Captures regexMatch domain entry → Under domain entry ∨ regexMatch domain entry = some true) ∧
      (Under domain entry → Captures regexMatch domain entry) := by
  constructor
  · intro h
    have hlaw := h [] [] rfl
    rw [List.nil_append, inWhitelist_singleton] at hlaw
    exact hlaw
  · rintro ⟨honly, halways⟩ before after hbefore
    rw [inWhitelist_reached hbefore, inWhitelist_reached hbefore, inWhitelist_singleton]
    exact ⟨honly, fun hunder => inWhitelist_of_captures (halways hunder)⟩

/-- A name under the entry is longer than it, and a name inside it is shorter. -/
theorem not_inside_of_under (h : (dot :: entry) <:+ domain) : ¬(dot :: domain) <:+: entry := by
  intro hinside
  have hlong := h.length_le
  have hshort := hinside.length_le
  rw [List.length_cons] at hlong hshort
  omega

end Entries

/-- **An entry of a whitelist** does what it is for iff it is the name, matches it as an expression, or neither contains
the name behind a dot nor has it under it. -/
theorem entry_law_iff (regexMatch : Bytes → Bytes → Option Bool) (domain entry : Bytes) :
    EntryLaw regexMatch domain entry ↔ domain = entry ∨ regexMatch domain entry = some true ∨
      (¬(dot :: domain) <:+: entry ∧ ¬(dot :: entry) <:+ domain) := by
  rw [entryLaw_iff_captures]
  unfold Captures NamedBy Under
  by_cases heq : domain = entry
  · simp [heq]
  by_cases hmatch : regexMatch domain entry = some true
  · simp [hmatch]
  simp only [heq, hmatch, false_or, or_false]
  constructor
  · rintro ⟨honly, halways⟩
    exact ⟨fun hinside => not_inside_of_under (honly hinside) hinside,
      fun hunder => not_inside_of_under hunder (halways hunder)⟩
  · rintro ⟨hinside, hunder⟩
    exact ⟨fun h => absurd h hinside, fun h => absurd h hunder⟩

/-- The entry `b.a` captures the name `a`, and not the name `c.b.a`. -/
theorem not_entry_law : ¬∀ (regexMatch : Bytes → Bytes → Option Bool) (domain entry : Bytes),
    EntryLaw regexMatch domain entry := by
  intro h
  have hlaw := (h (fun domain entry => some (domain = entry)) [97] [98, dot, 97] [] [] rfl).1 (by decide)
  rcases hlaw with (heq | hunder) | hmatch
  · exact absurd heq (by decide)
  · exact absurd hunder (by decide)
  · exact absurd hmatch (by decide)

/-! ## Entries that are no expressions -/

/-- The entries that the name is compared with one after the other, until one captures it. -/
def entriesFor (domain : Bytes) (servers : List RemoteDnsServer) : List Bytes :=
  (servers.filter fun server => decide (Eligible domain server)).flatMap fun server => server.whitelist

/-- An entry that is no expression captures the name as a text, or stands behind an entry that captures it. -/
def Guarded (regexMatch : Bytes → Bytes → Option Bool) (Valid : Bytes → Prop) (domain : Bytes)
    (servers : List RemoteDnsServer) : Prop :=
  ∀ before entry after, entriesFor domain servers = before ++ entry :: after → ¬Valid entry →
    NamedBy domain entry ∨ ∃ earlier ∈ before, Captures regexMatch domain earlier

/-- All that is done with a name and the configured servers returns: the selection, both ways to ask the selected
servers again, and the making of the record. -/
def SelectReturns (o : Outside) (config : Config) (domain : Bytes) : Prop :=
  (selectServers o.regexMatch domain config.servers).isSome = true ∧
    (syncDnsRecordFromRemote o config domain).isSome = true ∧
    (∀ record, (syncLossDnsRecordFromRemote o config domain record).isSome = true) ∧
    ∀ now records, records.domain = domain → (transform o config now records).isSome = true

section Raises

variable {regexMatch : Bytes → Bytes → Option Bool} {Valid : Bytes → Prop} {o : Outside} {config : Config}
  {domain : Bytes} {servers result : List RemoteDnsServer}

/-- The selection fails when the comparison with all entries, one after the other, does. -/
theorem isSome_selectFrom : (selectFrom regexMatch domain servers result).isSome =
    (inWhitelist regexMatch domain (entriesFor domain servers)).isSome := by
  rw [selectFrom_eq_selectWith]
  induction servers generalizing result with
  | nil => rfl
  | cons server servers ih =>
    unfold entriesFor at ih ⊢
    by_cases heligible : Eligible domain server
    · rw [selectWith_cons_of_eligible heligible, List.filter_cons_of_pos (by simpa using heligible),
        List.flatMap_cons, inWhitelist_append]
      cases inWhitelist regexMatch domain server.whitelist with
      | none => rfl
      | some listed =>
        cases listed with
        | true => rfl
        | false => exact ih
    · rw [selectWith_cons_of_not_eligible heligible, List.filter_cons_of_neg (by simpa using heligible)]
      exact ih

theorem isSome_inWhitelist (hvalid : ∀ d e, (regexMatch d e).isSome = true ↔ Valid e) (entries : List Bytes) :
    (inWhitelist regexMatch domain entries).isSome = true ↔
      ∀ before entry after, entries = before ++ entry :: after → ¬Valid entry →
        NamedBy domain entry ∨ ∃ earlier ∈ before, Captures regexMatch domain earlier := by
  induction entries with
  | nil => simp [inWhitelist]
  | cons first entries ih =>
    -- the first entry is the one without others before it, and it is before all others
    have hsplit : (∀ before entry after, first :: entries = before ++ entry :: after → ¬Valid entry →
        NamedBy domain entry ∨ ∃ earlier ∈ before, Captures regexMatch domain earlier) ↔
        (¬Valid first → NamedBy domain first) ∧ (Captures regexMatch domain first ∨
          ∀ before entry after, entries = before ++ entry :: after → ¬Valid entry →
            NamedBy domain entry ∨ ∃ earlier ∈ before, Captures regexMatch domain earlier) := by
      constructor
      · intro h
        refine ⟨fun hv => ?_, or_iff_not_imp_left.2 fun hfirst before entry after heq hv => ?_⟩
        · simpa using h [] first entries rfl hv
        · have hrest := h (first :: before) entry after (by rw [heq, List.cons_append]) hv
          simpa [hfirst] using hrest
      · rintro ⟨hfirst, hrest⟩ before entry after heq hv
        cases before with
        | nil =>
          obtain ⟨rfl, rfl⟩ := List.cons.inj heq
          exact .inl (hfirst hv)
        | cons earlier before =>
          obtain ⟨rfl, rfl⟩ := List.cons.inj heq
          rcases hrest with hcapture | hrest
          · exact .inr ⟨first, List.mem_cons_self, hcapture⟩
          · refine (hrest before entry after rfl hv).imp_right ?_
            rintro ⟨earlier, hmem, hcapture⟩
            exact ⟨earlier, List.mem_cons_of_mem _ hmem, hcapture⟩
    rw [hsplit, ← ih]
    by_cases hnamed : NamedBy domain first
    · simp [inWhitelist_cons_of_named hnamed, hnamed, Captures]
    · rw [inWhitelist_cons_of_not_named hnamed, ← hvalid domain first]
      cases hmatch : regexMatch domain first with
      | none => simp [hnamed]
      | some captured => cases captured <;> simp [hnamed, hmatch, Captures]

theorem isSome_selectServers (hvalid : ∀ d e, (regexMatch d e).isSome = true ↔ Valid e) :
    (selectServers regexMatch domain servers).isSome = true ↔ Guarded regexMatch Valid domain servers := by
  rw [selectServers, isSome_selectFrom, isSome_inWhitelist hvalid, Guarded]

/-- Whatever is done with the name returns when the selection does. -/
theorem selectReturns_iff_isSome :
    SelectReturns o config domain ↔ (selectServers o.regexMatch domain config.servers).isSome = true := by
  refine ⟨fun h => h.1, fun h => ?_⟩
  obtain ⟨selected, hselected⟩ := Option.isSome_iff_exists.1 h
  refine ⟨h, ?_, fun record => ?_, ?_⟩
  · simp [syncDnsRecordFromRemote, hselected]
  · simp [syncLossDnsRecordFromRemote, hselected]
  · rintro now records rfl
    simp [transform, hselected]

/-! A query selects for its host, and for the host without its last label. -/

variable {P : Protobuf} {now : Nat} {m : Manager} {host : Bytes}

theorem isSome_resolve (now : Nat) (m : Manager) (h : SelectReturns o config host) :
    (resolve P o config now m host).isSome = true := by
  obtain ⟨record, hrecord⟩ := Option.isSome_iff_exists.1 (h.2.2.2 now (m.getDnsRecordsPb P now host).1 rfl)
  exact Option.isSome_iff_exists.2 ⟨_, resolve_eq_some.2 ⟨hrecord, rfl⟩⟩

/-- A query returns when both do. -/
theorem isSome_runQuery (hhost : SelectReturns o config host) (hstem : SelectReturns o config (removeFIDomain host)) :
    (runQuery P o config now m host).isSome = true := by
  have hcache : (queryRecordFromCache P o config now m host).isSome = true := by
    obtain ⟨⟨record, m'⟩, hrecord⟩ := Option.isSome_iff_exists.1 (isSome_resolve (P := P) now m hhost)
    obtain ⟨stem, hstem⟩ := Option.isSome_iff_exists.1 (isSome_resolve (P := P) now m' hstem)
    simp only [queryRecordFromCache, hrecord, hstem, Option.bind_eq_bind, Option.bind_some]
    split
    · split <;> rfl
    · rfl
  exact runQuery_isSome_iff.2 (.inr hcache)

/-- A query fails when the selection for its host does. -/
theorem runQuery_eq_none (hne : host ≠ localhost) (h : ¬SelectReturns o config host) :
    runQuery P o config now m host = none := by
  by_contra hsome
  rcases runQuery_isSome_iff.1 (Option.isSome_iff_ne_none.2 hsome) with hlocal | hcache
  · exact hne hlocal
  obtain ⟨p, hp⟩ := Option.isSome_iff_exists.1 hcache
  obtain ⟨servers, hservers⟩ := select_of_cache hp
  exact h (selectReturns_iff_isSome.2 (Option.isSome_iff_exists.2 ⟨servers, hservers⟩))

end Raises

/-- **The selection returns** iff every entry that is no expression captures the name as a text or stands behind an
entry that captures it, among the entries of the servers that may be asked for it. -/
theorem select_returns_iff (o : Outside) (Valid : Bytes → Prop)
    (hvalid : ∀ d e, (o.regexMatch d e).isSome = true ↔ Valid e) (config : Config) (domain : Bytes) :
    SelectReturns o config domain ↔ Guarded o.regexMatch Valid domain config.servers := by
  rw [selectReturns_iff_isSome, isSome_selectServers hvalid]

/-- The entry `*.example.com`. -/
def wildcard : Bytes := [42, 46, 101, 120, 97, 109, 112, 108, 101, 46, 99, 111, 109]

/-- Surroundings in which that entry is no expression, and all others are. -/
def wildcardOutside : Outside where
  __ := plainOutside fun _ _ => true
  regexMatch := fun domain regex => if regex = wildcard then none else some (domain = regex)

/-- A server with the entry `a` and that entry. -/
def wildcardServer : Config :=
  { servers := [{ ip := oneIp, port := 53, type := .udp, whitelist := [[97], wildcard] }], dnsCacheExpire := 60 }

/-- The name `a` is captured in front of the entry, the name `b` is not. -/
theorem select_returns_iff_at :
    SelectReturns wildcardOutside wildcardServer [97] ∧ ¬SelectReturns wildcardOutside wildcardServer [98] := by
  have hvalid : ∀ d e, (wildcardOutside.regexMatch d e).isSome = true ↔ e ≠ wildcard := by
    intro d e
    by_cases he : e = wildcard <;> simp [wildcardOutside, he]
  constructor
  · refine (select_returns_iff wildcardOutside (· ≠ wildcard) hvalid wildcardServer [97]).2
      fun before entry after heq hentry => .inr ⟨[97], ?_, .inl (by decide)⟩
    cases before with
    | nil =>
      rw [List.nil_append] at heq
      obtain rfl : [97] = entry := (List.cons.inj heq).1
      exact absurd (by decide) hentry
    | cons first before =>
      obtain rfl : [97] = first := (List.cons.inj heq).1
      exact List.mem_cons_self
  · intro hreturns
    have hguarded := (select_returns_iff wildcardOutside (· ≠ wildcard) hvalid wildcardServer [98]).1 hreturns
    rcases hguarded [[97]] wildcard [] (by decide) (by simp) with hnamed | ⟨earlier, hearlier, hcaptures⟩
    · exact absurd hnamed (by decide)
    · obtain rfl := List.mem_singleton.1 hearlier
      rcases hcaptures with hnamed | hmatch
      · exact absurd hnamed (by decide)
      · exact absurd hmatch (by decide)

/-- A configuration with that entry is loaded, and then the selection for the name `a` fails. -/
theorem wildcard_raises : ¬∃ o : Outside, (∀ domain, o.regexMatch domain wildcard = none) ∧
    ∀ tree config domain, Config.load tree = some config → SelectReturns o config domain := by
  rintro ⟨o, hwildcard, h⟩
  have hload : Config.load { servers := some [{ ip := some oneIp, whitelist := some [wildcard] }] } =
      some { servers := [{ ip := oneIp, port := 53, type := .udp, whitelist := [wildcard] }], dnsCacheExpire := 600 } :=
    rfl
  have hreturns := (h _ _ [97] hload).1
  have hnamed : ¬NamedBy [97] wildcard := by decide
  have hfails : inWhitelist o.regexMatch [97] [wildcard] = none := by
    rw [inWhitelist_cons_of_not_named hnamed, hwildcard]
    rfl
  rw [selectServers, isSome_selectFrom] at hreturns
  exact absurd (hreturns.symm.trans (congrArg Option.isSome hfails)) (by decide)

end StDns.Server
