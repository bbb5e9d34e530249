import StDns.Console.Command

/-!
# The socket of the console

`udp_console` receives a datagram into a buffer of 1024 bytes, behind whose end it writes a zero when the datagram
fills it, runs the command, copies the answer into a buffer of 10240 bytes whatever its length, sends it and receives
again. So a datagram is answered iff it leaves room for the zero, its options can be parsed, and the command neither
raises nor has too long an answer for what is stored (`console_answers_iff`).
-/

namespace StDns.Console

open Lib Utils Area Protocol Proto Server Store

/-! ## The handlers -/

/-- The operations of the socket. -/
inductive Operation where
  | receiveFrom
  | sendTo (text : Bytes)
  deriving DecidableEq

/-- The console, with the operations that it has started. -/
structure UdpConsole where
  world : World
  operations : List Operation := []

/-- The size of `command_buffer`. -/
def commandSize : Nat := 1024

/-- The size of `response_buffer`. -/
def responseSize : Nat := 10240

namespace UdpConsole

/-- `receive`. -/
def receive (c : UdpConsole) : UdpConsole := { c with operations := c.operations ++ [.receiveFrom] }

/-- `send_response`; nothing when the copy goes beyond the buffer. -/
def sendResponse (c : UdpConsole) (result : Bytes) : Option UdpConsole :=
  if result.length ≤ responseSize then some { c with operations := c.operations ++ [.sendTo result] } else none

/-- The text of a result. -/
def response (result : Bool × Bytes) : Bytes :=
  if result.1 then ascii "success\n" ++ result.2 ++ [newline] else ascii "failed\n" ++ result.2 ++ [newline]

/-- The handler of `receive`, for the bytes of a datagram that the buffer takes; nothing when it writes beyond the
buffer or raises. -/
def onReceived (e : Setting) (now : Nat) (c : UdpConsole) (datagram : Bytes) : Option UdpConsole :=
  let received := datagram.take commandSize
  if received.length < commandSize then do
    let command := trim (cString received)
    let (commands, options) ← parseCommand e command
    let (result, world) ← impl e now c.world options commands
    { c with world := world }.sendResponse (response result)
  else none

/-- The handler of `send_response`. -/
def onSent (c : UdpConsole) : UdpConsole := c.receive

end UdpConsole

/-- The datagram gets one reply, and then the console receives again. -/
def Answers (e : Setting) (now : Nat) (c : UdpConsole) (datagram : Bytes) : Prop :=
  ∃ text world, (c.onReceived e now datagram).map UdpConsole.onSent =
    some { world := world, operations := c.operations ++ [.sendTo text, .receiveFrom] }

/-! ## What is answered -/

/-- The length of a text that the buffer takes with what is sent around it. -/
def textLimit : Nat := 10231

/-- What a command needs of its options and of what is stored: an address that can be read, a selection of servers that
returns, and texts that are not too long. -/
def Fits (e : Setting) (now : Nat) (w : World) (options : Options) (command : Bytes) : Prop :=
  if command = ascii "dns resolve" then
    options.domain ≠ [] → (selectServers e.o.regexMatch options.domain e.config.servers).isSome = true ∧
      ∀ record manager, resolve e.P e.o e.config now w.manager options.domain = some (record, manager) →
        (serializeRecord record).length ≤ textLimit
  else if command = ascii "dns reverse resolve" then
    options.ip ≠ [] → ∃ ip, strToIp options.ip = some ip ∧
      (join (w.manager.reverseResolve e.P now ip).1.domains [comma]).length ≤ textLimit
  else if command = ascii "dns record get" then
    options.domain ≠ [] →
      (join ((getDnsRecordList e.P e.o e.config now w.manager options.domain).1.map serializeRecord)
        [newline]).length ≤ textLimit
  else if command = ascii "dns record analyse" then
    ∀ entry ∈ DiskKv.list e.P now w.manager.db, (e.P.parseRecords entry.2).domain ≠ [] →
      (selectServers e.o.regexMatch (e.P.parseRecords entry.2).domain e.config.servers).isSome = true
  else if command = ascii "ip area" then
    ∃ ip, strToIp options.ip = some ip ∧ (getArea w.netCaches e.defaultCaches ip).length ≤ textLimit
  else True

/-- A result that can be sent. -/
def Sendable (outcome : Option ((Bool × Bytes) × World)) : Prop :=
  ∃ result world, outcome = some (result, world) ∧ (UdpConsole.response result).length ≤ responseSize

section Answered

variable {e : Setting} {now : Nat} {w : World} {options : Options} {command text : Bytes} {commands : List Bytes}
  {c : UdpConsole} {datagram : Bytes} {result : Bool × Bytes}

theorem length_response_true : (UdpConsole.response (true, text)).length = text.length + 9 := by
  have hlen : (ascii "success\n").length = 8 := by decide
  simp only [UdpConsole.response, if_true, List.length_append, hlen, List.length_singleton]
  omega

theorem sendable_true : Sendable (some ((true, text), w)) ↔ text.length ≤ textLimit := by
  constructor
  · rintro ⟨result, world, heq, hlen⟩
    cases heq
    rw [length_response_true, responseSize] at hlen
    rw [textLimit]
    omega
  · intro h
    rw [textLimit] at h
    exact ⟨_, w, rfl, by rw [length_response_true, responseSize]; omega⟩

theorem sendable_notInvalid : Sendable (some (notInvalid, w)) := ⟨_, w, rfl, by decide⟩

theorem not_sendable_none : ¬Sendable none := by
  rintro ⟨result, world, heq, -⟩
  cases heq

theorem sendable_dnsResolve : Sendable (dnsResolve e now w options) ↔ (options.domain ≠ [] →
    (selectServers e.o.regexMatch options.domain e.config.servers).isSome = true ∧
      ∀ record manager, resolve e.P e.o e.config now w.manager options.domain = some (record, manager) →
        (serializeRecord record).length ≤ textLimit) := by
  by_cases hdomain : options.domain = []
  · simp [dnsResolve, hdomain, sendable_notInvalid]
  · have hselect : (resolve e.P e.o e.config now w.manager options.domain).isSome = true ↔
        (selectServers e.o.regexMatch options.domain e.config.servers).isSome = true := by
      have hmade : (transform e.o e.config now (w.manager.getDnsRecordsPb e.P now options.domain).1).isSome = true ↔
          (selectServers e.o.regexMatch options.domain e.config.servers).isSome = true := isSome_transform
      cases htransform : transform e.o e.config now (w.manager.getDnsRecordsPb e.P now options.domain).1 with
      | none => simpa [resolve, htransform] using hmade
      | some record => simpa [resolve, htransform] using hmade
    rw [← hselect]
    cases hresolve : resolve e.P e.o e.config now w.manager options.domain with
    | none => simp [dnsResolve, hdomain, hresolve, not_sendable_none]
    | some pair =>
      obtain ⟨record, manager⟩ := pair
      simp [dnsResolve, hdomain, hresolve, sendable_true]

theorem sendable_dnsReverseResolve : Sendable (dnsReverseResolve e now w options) ↔ (options.ip ≠ [] →
    ∃ ip, strToIp options.ip = some ip ∧
      (join (w.manager.reverseResolve e.P now ip).1.domains [comma]).length ≤ textLimit) := by
  by_cases hip : options.ip = []
  · simp [dnsReverseResolve, hip, sendable_notInvalid]
  · cases hread : strToIp options.ip with
    | none => simp [dnsReverseResolve, hip, hread, not_sendable_none]
    | some ip => simp [dnsReverseResolve, hip, hread, sendable_true]

theorem sendable_dnsRecordGet : Sendable (some (dnsRecordGet e now w options)) ↔ (options.domain ≠ [] →
    (join ((getDnsRecordList e.P e.o e.config now w.manager options.domain).1.map serializeRecord)
      [newline]).length ≤ textLimit) := by
  by_cases hdomain : options.domain = []
  · simp [dnsRecordGet, hdomain, sendable_notInvalid]
  · simp [dnsRecordGet, hdomain, sendable_true]

theorem sendable_dnsRecordRemove : Sendable (some (dnsRecordRemove w options)) := by
  rw [dnsRecordRemove]
  split
  · exact sendable_true.2 (by decide)
  · exact sendable_notInvalid

theorem sendable_dnsRecordAnalyse : Sendable (dnsRecordAnalyse e now w) ↔
    ∀ entry ∈ DiskKv.list e.P now w.manager.db, (e.P.parseRecords entry.2).domain ≠ [] →
      (selectServers e.o.regexMatch (e.P.parseRecords entry.2).domain e.config.servers).isSome = true := by
  rw [← isSome_stats]
  cases hstats : stats e.P e.o e.config now w.manager with
  | none => simp [dnsRecordAnalyse, hstats, not_sendable_none]
  | some stats =>
    have hlen := stats.length_serialize_le
    have hsend : stats.serialize.length ≤ textLimit := by
      rw [textLimit]
      omega
    simp [dnsRecordAnalyse, hstats, sendable_true, hsend]

theorem sendable_ipArea : Sendable (ipArea e w options) ↔
    ∃ ip, strToIp options.ip = some ip ∧ (getArea w.netCaches e.defaultCaches ip).length ≤ textLimit := by
  cases hread : strToIp options.ip with
  | none => simp [ipArea, hread, not_sendable_none]
  | some ip => simp [ipArea, hread, sendable_true]

/-- **A command** has a result that can be sent iff it fits. -/
theorem sendable_impl : Sendable (impl e now w options commands) ↔ Fits e now w options (join commands [space]) := by
  rw [impl, Fits]
  generalize join commands [space] = command
  by_cases hresolve : command = ascii "dns resolve"
  · rw [if_pos hresolve, if_pos hresolve]
    exact sendable_dnsResolve
  rw [if_neg hresolve, if_neg hresolve]
  by_cases hreverse : command = ascii "dns reverse resolve"
  · rw [if_pos hreverse, if_pos hreverse]
    exact sendable_dnsReverseResolve
  rw [if_neg hreverse, if_neg hreverse]
  by_cases hget : command = ascii "dns record get"
  · rw [if_pos hget, if_pos hget]
    exact sendable_dnsRecordGet
  rw [if_neg hget, if_neg hget]
  by_cases hdump : command = ascii "dns record dump"
  · subst hdump
    rw [if_pos rfl, if_neg (by decide), if_neg (by decide)]
    exact iff_of_true (sendable_true.2 (by decide)) trivial
  rw [if_neg hdump]
  by_cases hremove : command = ascii "dns record remove"
  · subst hremove
    rw [if_pos rfl, if_neg (by decide), if_neg (by decide)]
    exact iff_of_true sendable_dnsRecordRemove trivial
  rw [if_neg hremove]
  by_cases hclear : command = ascii "dns record clear"
  · subst hclear
    rw [if_pos rfl, if_neg (by decide), if_neg (by decide)]
    exact iff_of_true (sendable_true.2 (by decide)) trivial
  rw [if_neg hclear]
  by_cases hanalyse : command = ascii "dns record analyse"
  · rw [if_pos hanalyse, if_pos hanalyse]
    exact sendable_dnsRecordAnalyse
  rw [if_neg hanalyse, if_neg hanalyse]
  by_cases harea : command = ascii "ip area"
  · rw [if_pos harea, if_pos harea]
    exact sendable_ipArea
  rw [if_neg harea, if_neg harea]
  by_cases hqueue : command = ascii "dns queue list"
  · rw [if_pos hqueue]
    exact iff_of_true ⟨_, w, rfl, by decide⟩ trivial
  · rw [if_neg hqueue]
    exact iff_of_true sendable_notInvalid trivial

theorem map_sendResponse : (c.sendResponse text).map UdpConsole.onSent = if text.length ≤ responseSize then
    some { world := c.world, operations := c.operations ++ [.sendTo text, .receiveFrom] } else none := by
  rw [UdpConsole.sendResponse]
  split
  · simp [UdpConsole.onSent, UdpConsole.receive]
  · rfl

/-- A datagram is answered iff it leaves room for a zero and its command has a result that can be sent. -/
theorem answers_iff_sendable : Answers e now c datagram ↔ datagram.length < commandSize ∧ ∃ options,
    e.parseOptions (splitCommand (trim (cString datagram))).2 = some options ∧
      Sendable (impl e now c.world options (splitCommand (trim (cString datagram))).1) := by
  by_cases hlen : datagram.length < commandSize
  · have htake : datagram.take commandSize = datagram := List.take_of_length_le hlen.le
    simp only [Answers, UdpConsole.onReceived, htake, hlen, if_true, true_and, parseCommand]
    cases hparse : e.parseOptions (splitCommand (trim (cString datagram))).2 with
    | none => simp
    | some options =>
      cases hrun : impl e now c.world options (splitCommand (trim (cString datagram))).1 with
      | none => simp [hrun, not_sendable_none]
      | some outcome =>
        obtain ⟨result, world⟩ := outcome
        simp only [Option.pure_def, Option.bind_eq_bind, Option.bind_some, hrun, map_sendResponse,
          Option.some.injEq, exists_eq_left', Sendable, Prod.mk.injEq]
        constructor
        · rintro ⟨text, world', h⟩
          split at h
          · exact ⟨result, world, ⟨rfl, rfl⟩, ‹_›⟩
          · cases h
        · rintro ⟨_, _, ⟨rfl, rfl⟩, hle⟩
          exact ⟨_, _, if_pos hle⟩
  · simp [Answers, UdpConsole.onReceived, hlen]

end Answered

/-- **The console** answers a datagram and receives again iff the datagram leaves room for a zero, its options can be
parsed, and its command fits. -/
theorem console_answers_iff (e : Setting) (now : Nat) (c : UdpConsole) (datagram : Bytes) :
    Answers e now c datagram ↔ datagram.length < commandSize ∧ ∃ options,
      e.parseOptions (splitCommand (trim (cString datagram))).2 = some options ∧
        Fits e now c.world options (join (splitCommand (trim (cString datagram))).1 [space]) := by
  simp only [answers_iff_sendable, sendable_impl]

/-- The surroundings in which every option is empty. -/
def plainSetting : Setting where
  P := wire
  o := plainOutside fun _ _ => true
  config := oneServer
  parseOptions _ := some {}
  defaultCaches := ∅

/-- A datagram of 1024 bytes is too long. -/
theorem console_overruns : ¬∀ (e : Setting) (now : Nat) (c : UdpConsole) (datagram : Bytes),
    datagram.length ≤ commandSize → Answers e now c datagram := by
  intro h
  have hanswers := h plainSetting 0 { world := { manager := {}, netCaches := ∅ } } (List.replicate 1024 97)
    (by rw [List.length_replicate]; exact Nat.le_refl _)
  have hlt := ((answers_iff_sendable).1 hanswers).1
  rw [List.length_replicate] at hlt
  exact absurd hlt (Nat.lt_irrefl _)

/-! ## One datagram after the other -/

/-- The console serves datagrams at their times. -/
def serve (e : Setting) (c : UdpConsole) (datagrams : List (Nat × Bytes)) : Option UdpConsole :=
  datagrams.foldlM (fun c d => (c.onReceived e d.1 d.2).map UdpConsole.onSent) c

section Serve

variable {e : Setting} {now : Nat} {c c' : UdpConsole} {datagram : Bytes} {datagrams : List (Nat × Bytes)}

theorem onReceived_operations (h : (c.onReceived e now datagram).map UdpConsole.onSent = some c') :
    ∃ text, c'.operations = c.operations ++ [.sendTo text, .receiveFrom] := by
  obtain ⟨sent, hreceived, rfl⟩ := Option.map_eq_some_iff.1 h
  rw [UdpConsole.onReceived] at hreceived
  split at hreceived
  · obtain ⟨⟨commands, options⟩, -, hreceived⟩ := Option.bind_eq_some_iff.1 hreceived
    obtain ⟨⟨result, world⟩, -, hreceived⟩ := Option.bind_eq_some_iff.1 hreceived
    simp only [UdpConsole.sendResponse] at hreceived
    split at hreceived
    · cases hreceived
      exact ⟨_, List.append_assoc _ _ _⟩
    · cases hreceived
  · cases hreceived

/-- **As long as nothing fails**, every datagram gets one reply, and then one operation waits for the next. -/
theorem serve_operations (h : serve e c datagrams = some c') : ∃ texts : List Bytes,
    texts.length = datagrams.length ∧
      c'.operations = c.operations ++ texts.flatMap fun text => [.sendTo text, .receiveFrom] := by
  induction datagrams generalizing c with
  | nil =>
    cases h
    exact ⟨[], rfl, (List.append_nil _).symm⟩
  | cons d datagrams ih =>
    rw [serve, List.foldlM_cons] at h
    obtain ⟨served, hserved, h⟩ := Option.bind_eq_some_iff.1 h
    obtain ⟨text, htext⟩ := onReceived_operations hserved
    obtain ⟨texts, hlen, htexts⟩ := ih h
    refine ⟨text :: texts, by simp [hlen], ?_⟩
    rw [htexts, htext, List.flatMap_cons, List.append_assoc]

end Serve

end StDns.Console
