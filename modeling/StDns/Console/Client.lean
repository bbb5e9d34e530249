import StDns.Console.UdpConsole
import StDns.Store.Reverse

/-!
# The client of the console

`command::dns::reverse_resolve` asks the console for the domains of an address. The console joins them with commas and
puts lines around them, and the client takes the reply as a C string of at most 10238 bytes, trims it and splits it at
the commas. What comes back is the list of domains iff the reply is short enough, no domain has a zero byte or a comma,
the first is not empty, and no space is at the very beginning or end (`reverse_resolve_iff`).
-/

namespace StDns.Console

open Lib Utils Area Protocol Proto Server Store

/-! ## The source -/

/-- The size of the client's buffer. -/
def replySize : Nat := 10240

/-- `client::command` on the reply to it; nothing when the zero behind the reply is written beyond the buffer, or
`substr` raises. -/
def clientCommand (reply : Bytes) : Option (Bool × Bytes) :=
  let res := reply.take replySize
  if res.length + 1 < replySize then
    let result := cString res
    match split result newline with
    | [] => some (false, ascii "network error!")
    | first :: _ =>
      if first = ascii "success" then some (true, trim (result.drop 7))
      else if 6 ≤ result.length then some (false, trim (result.drop 6))
      else none
  else none

/-- The request for the domains of an address. -/
def reverseRequest (ip : UInt32) : Bytes := ascii "dns reverse resolve --ip=" ++ ipToStr ip

/-- The reply that the console has sent. -/
def replyOf (c : UdpConsole) : Option Bytes :=
  c.operations.findSome? fun operation =>
    match operation with
    | .sendTo text => some text
    | .receiveFrom => none

/-- `command::dns::reverse_resolve`, when its request is delivered to a console with this `world` and the reply is
delivered to it. -/
def reverseResolveCommand (e : Setting) (now : Nat) (world : World) (ip : UInt32) : Option (List Bytes) := do
  let console ← UdpConsole.onReceived e now { world := world } (reverseRequest ip)
  let reply ← replyOf console
  let result ← clientCommand reply
  return if result.1 then split result.2 comma else []

/-! ## The request -/

section Request

variable {e : Setting} {now : Nat} {w : World} {ip : UInt32} {c : UInt8}

/-- The option of the request. -/
def ipOption (ip : UInt32) : Bytes := ascii "--ip=" ++ ipToStr ip

theorem isSpace_of_mem_ipToStr (h : c ∈ ipToStr ip) : isSpace c = false := by
  rcases isDigit_or_of_mem_ipToStr h with hdigit | rfl
  · exact isSpace_of_isDigit hdigit
  · rfl

theorem ipToStr_ne_nil : ipToStr ip ≠ [] := List.append_ne_nil_of_left_ne_nil (decimal_ne_nil _) _

/-- A text in front of an address is not trimmed, unless it begins with space itself. -/
theorem trim_append_ipToStr {text : Bytes} (hne : text ≠ []) (h : ∀ c ∈ text.head?, isSpace c = false) :
    trim (text ++ ipToStr ip) = text ++ ipToStr ip := by
  refine trim_eq_self_iff.2 ⟨fun c hc => ?_, fun c hc => ?_⟩
  · rw [List.head?_append_of_ne_nil _ hne] at hc
    exact h c hc
  · rw [List.getLast?_append_of_ne_nil _ ipToStr_ne_nil] at hc
    exact isSpace_of_mem_ipToStr (List.mem_of_getLast? hc)

theorem trim_cString_reverseRequest : trim (cString (reverseRequest ip)) = reverseRequest ip := by
  have hzero : (0 : UInt8) ∉ reverseRequest ip := by
    rw [reverseRequest, List.mem_append, not_or]
    exact ⟨by decide, notMem_ipToStr rfl (by decide)⟩
  rw [cString_of_zeroFree hzero]
  exact trim_append_ipToStr (by decide) (by rintro c ⟨⟩; rfl)

theorem reverseRequest_eq_join :
    reverseRequest ip = join [ascii "dns", ascii "reverse", ascii "resolve", ipOption ip] [space] := by
  have htext : ascii "dns reverse resolve --ip=" =
      ascii "dns" ++ space :: (ascii "reverse" ++ space :: (ascii "resolve" ++ space :: ascii "--ip=")) := by decide
  rw [reverseRequest, htext, join_cons (by decide)]
  simp [ipOption]

/-- The request has three words and one option. -/
theorem splitCommand_reverseRequest : splitCommand (reverseRequest ip) =
    ([ascii "dns", ascii "reverse", ascii "resolve"], [ipOption ip]) := by
  have hspace : space ∉ ipOption ip := by
    rw [ipOption, List.mem_append, not_or]
    exact ⟨by decide, notMem_ipToStr rfl (by decide)⟩
  have hsplit : split (reverseRequest ip) space =
      [ascii "dns", ascii "reverse", ascii "resolve", ipOption ip] := by
    rw [reverseRequest_eq_join]
    have hwords : ∀ word ∈ [ascii "dns", ascii "reverse", ascii "resolve"], space ∉ word := by decide
    refine split_join_iff.2 ⟨fun value hvalue => ?_, fun h => absurd (Option.some.inj h) (by decide)⟩
    rcases List.mem_append.1 (show value ∈ [ascii "dns", ascii "reverse", ascii "resolve"] ++ [ipOption ip] from hvalue)
      with hvalue | hvalue
    · exact hwords value hvalue
    · rwa [List.mem_singleton.1 hvalue]
  have htrim : trim (ipOption ip) = ipOption ip := trim_append_ipToStr (by decide) (by rintro c ⟨⟩; rfl)
  rw [splitCommand, hsplit, List.map_cons, List.map_cons, List.map_cons, List.map_cons, htrim]
  rfl

theorem length_reverseRequest_lt : (reverseRequest ip).length < commandSize := by
  have hlen := length_ipToStr_le ip
  have htext : (ascii "dns reverse resolve --ip=").length = 25 := by decide
  rw [reverseRequest, List.length_append, htext, commandSize]
  omega

/-- **The request** is answered with the domains of the address, when the answer is not too long. -/
theorem onReceived_reverseRequest (hoption : e.parseOptions [ipOption ip] = some { ip := ipToStr ip }) :
    UdpConsole.onReceived e now { world := w } (reverseRequest ip) =
      UdpConsole.sendResponse { world := { w with manager := (w.manager.reverseResolve e.P now ip).2 } }
        (UdpConsole.response (true, join (w.manager.reverseResolve e.P now ip).1.domains [comma])) := by
  have htake : (reverseRequest ip).take commandSize = reverseRequest ip :=
    List.take_of_length_le length_reverseRequest_lt.le
  have hcommand : join [ascii "dns", ascii "reverse", ascii "resolve"] [space] = ascii "dns reverse resolve" := by
    decide
  have hne : ascii "dns reverse resolve" ≠ ascii "dns resolve" := by decide
  simp only [UdpConsole.onReceived, htake, length_reverseRequest_lt, if_true, trim_cString_reverseRequest, parseCommand,
    splitCommand_reverseRequest, hoption, Option.bind_eq_bind, Option.bind_some, Option.pure_def, impl, hcommand,
    if_neg hne, dnsReverseResolve, ne_eq, ipToStr_ne_nil, not_false_eq_true, strToIp_ipToStr]

end Request

/-! ## The reply -/

/-- The domains that the client gets back from the reply with them: few and short enough, without zero bytes and commas,
the first not empty, and no space at the beginning of the first or at the end of the last. -/
structure ReadBack (domains : List Bytes) : Prop where
  short : (join domains [comma]).length + 10 < replySize
  zeroFree : ∀ domain ∈ domains, (0 : UInt8) ∉ domain
  commaFree : ∀ domain ∈ domains, comma ∉ domain
  named : domains.head? ≠ some []
  begins : ∀ domain ∈ domains.head?, ∀ c ∈ domain.head?, isSpace c = false
  ends : ∀ domain ∈ domains.getLast?, ∀ c ∈ domain.getLast?, isSpace c = false

section Reply

variable {e : Setting} {now : Nat} {w : World} {ip : UInt32} {text : Bytes} {domains : List Bytes}

/-- A successful reply that the buffer takes gives its text, trimmed, up to a zero byte. -/
theorem clientCommand_response : clientCommand (UdpConsole.response (true, text)) =
    if text.length + 10 < replySize then some (true, trim (cString (text ++ [newline]))) else none := by
  have hsuccess : ascii "success\n" = ascii "success" ++ [newline] := by decide
  have hresponse : UdpConsole.response (true, text) = ascii "success" ++ newline :: (text ++ [newline]) := by
    simp [UdpConsole.response, hsuccess]
  by_cases hlen : text.length + 10 < replySize
  · have htake : (UdpConsole.response (true, text)).take replySize = UdpConsole.response (true, text) := by
      refine List.take_of_length_le ?_
      rw [length_response_true]
      omega
    have hroom : (UdpConsole.response (true, text)).length + 1 < replySize := by
      rwa [length_response_true]
    have hstring : cString (UdpConsole.response (true, text)) =
        ascii "success" ++ newline :: cString (text ++ [newline]) := by
      rw [hresponse, cString, List.takeWhile_append_of_pos (List.all_eq_true.1 (by decide)),
        List.takeWhile_cons_of_pos (by decide)]
      rfl
    have hdrop : (ascii "success" ++ newline :: cString (text ++ [newline])).drop 7 =
        newline :: cString (text ++ [newline]) := rfl
    rw [if_pos hlen, clientCommand, htake, if_pos hroom, hstring]
    simp only [split_append_cons (show newline ∉ ascii "success" by decide), if_true, hdrop, trim_cons (show
      isSpace newline = true from rfl)]
  · have hroom : ¬((UdpConsole.response (true, text)).take replySize).length + 1 < replySize := by
      rw [List.length_take, length_response_true]
      omega
    rw [if_neg hlen, clientCommand, if_neg hroom]

theorem split_cString_iff : split (trim (cString (join domains [comma] ++ [newline]))) comma = domains ↔
    (∀ domain ∈ domains, (0 : UInt8) ∉ domain) ∧ split (trim (join domains [comma])) comma = domains := by
  have hfree : (∀ domain ∈ domains, (0 : UInt8) ∉ domain) →
      trim (cString (join domains [comma] ++ [newline])) = trim (join domains [comma]) := by
    intro hzero
    have hjoin : (0 : UInt8) ∉ join domains [comma] ++ [newline] := by
      intro h
      rcases List.mem_append.1 h with h | h
      · rcases mem_join h with ⟨domain, hdomain, hc⟩ | h
        · exact hzero domain hdomain hc
        · exact absurd h (by decide)
      · exact absurd h (by decide)
    rw [cString_of_zeroFree hjoin, trim_concat rfl]
  constructor
  · intro h
    have hzero : ∀ domain ∈ domains, (0 : UInt8) ∉ domain := by
      intro domain hdomain hc
      rw [← h] at hdomain
      exact zero_notMem_cString _ (mem_of_mem_trim (mem_of_mem_split hdomain hc))
    exact ⟨hzero, by rwa [hfree hzero] at h⟩
  · rintro ⟨hzero, h⟩
    rwa [hfree hzero]

/-- What the client returns, when the console and the client have room for the reply. -/
theorem reverseResolveCommand_eq (hoption : e.parseOptions [ipOption ip] = some { ip := ipToStr ip })
    (hdomains : (w.manager.reverseResolve e.P now ip).1.domains = domains) : reverseResolveCommand e now w ip =
      if (join domains [comma]).length + 10 < replySize then
        some (split (trim (cString (join domains [comma] ++ [newline]))) comma)
      else none := by
  rw [reverseResolveCommand, onReceived_reverseRequest hoption, hdomains]
  simp only [UdpConsole.sendResponse, length_response_true]
  by_cases hsend : (join domains [comma]).length + 9 ≤ responseSize
  · rw [if_pos hsend]
    simp only [List.nil_append, Option.bind_eq_bind, Option.bind_some, replyOf, List.findSome?_cons,
      clientCommand_response]
    split <;> rfl
  · rw [responseSize] at hsend
    rw [responseSize, if_neg hsend, replySize, if_neg (by omega)]
    rfl

end Reply

/-- **The client** gets back the domains of the address iff they fit into the reply and can be told apart in it. -/
theorem reverse_resolve_iff (e : Setting) (now : Nat) (w : World) (ip : UInt32)
    (hoption : e.parseOptions [ipOption ip] = some { ip := ipToStr ip }) :
    reverseResolveCommand e now w ip = some (w.manager.reverseResolve e.P now ip).1.domains ↔
      ReadBack (w.manager.reverseResolve e.P now ip).1.domains := by
  rw [reverseResolveCommand_eq hoption rfl]
  generalize (w.manager.reverseResolve e.P now ip).1.domains = domains
  have hread := (@split_cString_iff domains).trans (and_congr_right fun _ => split_trim_join_iff rfl)
  constructor
  · intro h
    split at h
    · rename_i hshort
      obtain ⟨hzero, hcomma, hnamed, hbegins, hends⟩ := hread.1 (Option.some.inj h)
      exact ⟨hshort, hzero, hcomma, hnamed, hbegins, hends⟩
    · cases h
  · intro h
    rw [if_pos h.short, hread.2 ⟨h.zeroFree, h.commaFree, h.named, h.begins, h.ends⟩]

/-- The surroundings in which the option of an address is parsed. -/
def addressSetting : Setting :=
  { plainSetting with parseOptions := fun options => some { ip := options.flatten.drop 5 } }

/-- A world in which the domains were added with the address `0.0.0.1`. -/
def worldWith (domains : List Bytes) : World where
  manager := run wire (domains.map fun domain => .add 1700000000000 domain [1] server1 60)
  netCaches := ∅

theorem addressSetting_option (ip : UInt32) :
    addressSetting.parseOptions [ipOption ip] = some { ip := ipToStr ip } := by
  change some ({ ip := [ipOption ip].flatten.drop 5 } : Options) = some { ip := ipToStr ip }
  rw [List.flatten_singleton]
  rfl

/-- The witness: two domains that can be told apart. -/
theorem reverse_resolve_iff_at :
    reverseResolveCommand addressSetting 1700000000000 (worldWith [test01, [98]]) 1 = some [test01, [98]] ↔
      ReadBack [test01, [98]] := by
  have hdomains : ((worldWith [test01, [98]]).manager.reverseResolve addressSetting.P 1700000000000 1).1.domains =
      [test01, [98]] := by decide
  have h := reverse_resolve_iff addressSetting 1700000000000 (worldWith [test01, [98]]) 1 (addressSetting_option 1)
  rwa [hdomains] at h

/-- The domain `a,b`, which a query can have, is read as two. -/
theorem reverse_resolve_splits : ¬∀ (e : Setting) (now : Nat) (w : World) (ip : UInt32),
    e.parseOptions [ipOption ip] = some { ip := ipToStr ip } →
      reverseResolveCommand e now w ip = some (w.manager.reverseResolve e.P now ip).1.domains := by
  intro h
  have hdomains : ((worldWith [[97, comma, 98]]).manager.reverseResolve addressSetting.P 1700000000000 1).1.domains =
      [[97, comma, 98]] := by decide
  have hreturned := h addressSetting 1700000000000 (worldWith [[97, comma, 98]]) 1 (addressSetting_option 1)
  rw [reverseResolveCommand_eq (addressSetting_option 1) hdomains, hdomains] at hreturned
  exact absurd hreturned (by decide)

end StDns.Console
