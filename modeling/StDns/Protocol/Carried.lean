import StDns.Protocol.HostText
import StDns.Protocol.HostsWritten
import StDns.Protocol.QueryExact

/-!
# The name that is asked upstream

The text of a question is its labels joined by dots, each up to its first zero byte; the encoder takes the text apart at
its dots. The query for the host of a request asks for the name of the client's question iff no label of that has a zero
byte or a dot, and such names never share a text (`carries_iff`).
-/

namespace StDns.Protocol

open Lib Wire

/-! ## Labels and texts -/

section Labels

theorem labelBytes_eq_flatten (ls : List Bytes) :
    labelBytes ls = (ls.map fun l => UInt8.ofNat l.length :: l).flatten := by
  induction ls with
  | nil => rfl
  | cons l ls ih => rw [labelBytes, ih, List.map_cons, List.flatten_cons]

/-- The bytes of labels determine them. -/
theorem labelBytes_injective : ∀ {ls ls' : List Bytes}, (∀ l ∈ ls, l.length < 256) → (∀ l ∈ ls', l.length < 256) →
    labelBytes ls = labelBytes ls' → ls = ls'
  | [], [], _, _, _ => rfl
  | [], _ :: _, _, _, h => by simp [labelBytes] at h
  | _ :: _, [], _, _, h => by simp [labelBytes] at h
  | l :: ls, l' :: ls', hl, hl', h => by
    rw [labelBytes, labelBytes, List.cons_append, List.cons_append, List.cons.injEq] at h
    obtain ⟨hcount, hrest⟩ := h
    have h1 := hl l List.mem_cons_self
    have h2 := hl' l' List.mem_cons_self
    have hlen : l.length = l'.length := by
      have hnat := congrArg UInt8.toNat hcount
      rw [UInt8.toNat_ofNat', UInt8.toNat_ofNat'] at hnat
      omega
    obtain ⟨rfl, htail⟩ := List.append_inj hrest hlen
    rw [labelBytes_injective (fun x hx => hl x (List.mem_cons_of_mem _ hx))
      (fun x hx => hl' x (List.mem_cons_of_mem _ hx)) htail]

/-- Labels without dots are the pieces of their text. -/
theorem splitOn_joinLabels {ls : List Bytes} (hne : ls ≠ []) (hdot : ∀ l ∈ ls, dot ∉ l) :
    (joinLabels ls).splitOn dot = ls := by
  rw [joinLabels_eq_intercalate]
  exact List.splitOn_intercalate dot hdot hne

/-- A piece of a text has no dot, and no byte that the text does not have. -/
theorem not_mem_of_mem_splitOn {text piece : Bytes} (h : piece ∈ text.splitOn dot) :
    dot ∉ piece ∧ ((0 : UInt8) ∉ text → (0 : UInt8) ∉ piece) := by
  rw [← spans_text] at h
  obtain ⟨s, hs, rfl⟩ := List.mem_map.1 h
  obtain ⟨-, hend, hdot, -, -⟩ := isSpan_of_mem hs
  refine ⟨fun hmem => ?_, fun hz hmem => hz (List.mem_of_mem_drop (List.mem_of_mem_take hmem))⟩
  obtain ⟨j, hj, hget⟩ := List.mem_iff_getElem.1 hmem
  rw [spanText, List.length_take, List.length_drop] at hj
  refine hdot (s.1 + j) (Nat.le_add_right _ _) (by omega) ?_
  rw [← hget, ← List.getElem?_eq_getElem, spanText, List.getElem?_take_of_lt (by omega), List.getElem?_drop]

end Labels

/-! ## The bytes of a short host -/

section Short

variable {host bytes : Bytes} {s : Nat × Nat}

theorem ofInt_natCast (n : Nat) : UInt8.ofInt (n : Int) = UInt8.ofNat n := by
  apply UInt8.toNat_inj.1
  rw [UInt8.ofInt, UInt8.toNat_ofNat', UInt8.toNat_ofNat']
  omega

/-- A label in the first 255 characters is written as it is when it is not empty at the beginning. -/
theorem subLenBytes_short (hspan : IsSpan host s) (h255 : host.length ≤ 255) (h0 : s.2 ≠ 0) :
    subLenBytes host (kept s) = some (UInt8.ofNat (spanText host s).length :: spanText host s) := by
  obtain ⟨hle, hend, -, -, hbegin⟩ := hspan
  have hmod : s.1 % 256 = s.1 := Nat.mod_eq_of_lt (by omega)
  have hlen : (spanText host s).length = s.2 - s.1 := by
    rw [spanText, List.length_take, List.length_drop]
    omega
  refine subLenBytes_kept.2 ⟨spanText host s, ?_, ?_, ?_⟩
  · rw [hmod]
    exact List.take_prefix _ _
  · rw [hlen, keptCount]
    omega
  · rw [hlen, ← ofInt_natCast]
    congr 2
    omega

/-- **A short host** is written as its labels. -/
theorem nameBytes_short (hz : (0 : UInt8) ∉ host) (h255 : host.length ≤ 255) (h0 : (host ++ [dot])[0]? ≠ some dot) :
    nameBytes host = some (labelBytes (host.splitOn dot) ++ [0]) := by
  refine (nameBytes_eq_some hz).2 ⟨(host.splitOn dot).map fun l => UInt8.ofNat l.length :: l, ?_, ?_⟩
  · rw [← spans_text, List.map_map]
    refine List.forall₂_map_right_iff.2 (List.forall₂_same.2 fun s hs => ?_)
    have hspan := isSpan_of_mem hs
    exact subLenBytes_short hspan h255 fun he => h0 (he ▸ hspan.2.2.2.1)
  · rw [labelBytes_eq_flatten]

/-- The first label of a host and the bytes written for it. -/
theorem first_of_nameBytes (hz : (0 : UInt8) ∉ host) (h : nameBytes host = some bytes) :
    ∃ e count chars rest, (0, e) ∈ spans host ∧ Holds host 0 chars ∧ chars.length = keptCount (0, e) ∧
      bytes = count :: chars ++ rest := by
  obtain ⟨labels, hlabels, rfl⟩ := (nameBytes_eq_some hz).1 h
  have hcons := consecutive_spansFrom host (Nat.le_refl 0)
  obtain ⟨s, hs, -⟩ := spans_cover (Nat.zero_le host.length)
  obtain ⟨⟨b, e⟩, ss, hss⟩ := List.exists_cons_of_ne_nil (List.ne_nil_of_mem hs)
  rw [spans] at hss
  rw [hss] at hcons
  obtain rfl : b = 0 := hcons.1
  rw [spans, hss] at hlabels ⊢
  cases hlabels with
  | cons hfirst hrest =>
    obtain ⟨chars, hchars, hlen, rfl⟩ := subLenBytes_kept.1 hfirst
    exact ⟨e, _, chars, _, List.mem_cons_self, hchars, hlen, List.append_assoc ..⟩

/-- A short host that begins with a dot is not written. -/
theorem head_of_nameBytes (hz : (0 : UInt8) ∉ host) (h255 : host.length ≤ 255) (h : nameBytes host = some bytes) :
    (host ++ [dot])[0]? ≠ some dot := by
  intro hdot
  obtain ⟨e, -, chars, -, hmem, hchars, hlen, -⟩ := first_of_nameBytes hz h
  obtain rfl : e = 0 := by
    by_contra he
    exact (isSpan_of_mem hmem).no_dot (Nat.le_refl 0) (Nat.pos_of_ne_zero he) hdot
  rw [show keptCount (0, 0) = 256 from rfl] at hlen
  have hle := hchars.length_le (List.length_pos_iff.1 (by omega))
  omega

/-- The second byte of a name is the first character of the host. -/
theorem second_of_nameBytes (hz : (0 : UInt8) ∉ host) (h : nameBytes host = some bytes) :
    ∃ ch ∈ host, bytes[1]? = some ch := by
  obtain ⟨e, count, chars, rest, -, hchars, hlen, rfl⟩ := first_of_nameBytes hz h
  have hpos : chars ≠ [] := by
    refine List.length_pos_iff.1 ?_
    rw [hlen, keptCount]
    omega
  obtain ⟨ch, chars, rfl⟩ := List.exists_cons_of_ne_nil hpos
  exact ⟨ch, List.mem_of_getElem? (holds_cons.1 hchars).1, rfl⟩

end Short

/-! ## The queries of a short host -/

section Sent

variable {host bytes : Bytes} {id : Nat}

/-- The part in the middle of what a memory begins with. -/
theorem middle_of_padded (size : Nat) (front bs rest : Bytes) :
    ((padded size (front ++ bs ++ rest)).take (front.length + bs.length)).drop front.length = bs := by
  have htake : (padded size (front ++ bs ++ rest)).take (front.length + bs.length) = front ++ bs := by
    rw [padded, List.append_assoc, ← List.length_append, List.take_left]
  rw [htake, List.drop_left]

/-- **Both queries** of a host whose bytes are what it declares. -/
theorem udp_eq (hbytes : nameBytes host = some bytes) (hlen : bytes.length = u32 (finalDataLen host))
    (hroom : DnsHeader.defaultLen + 2 * questionLen host ≤ 1024) :
    UdpRequest.ofHosts id [host] =
      some (padded 1024 (DnsHeader.initBytes id 1 0 0 false ++ (bytes ++ DnsQuery.defaultFlags) ++
        (bytes ++ DnsQuery.defaultFlags)), hostRequest 0 id host) := by
  have hwritten : ∀ other ∈ [host], Written (fun _ => bytes ++ DnsQuery.defaultFlags) other := by
    simpa using ⟨bytes, hbytes, hlen, rfl⟩
  have hudp := @udp_hosts _ id _ hwritten (by simpa using hroom)
  rwa [List.flatMap_singleton] at hudp

theorem tcp_eq (hbytes : nameBytes host = some bytes) (hlen : bytes.length = u32 (finalDataLen host))
    (hroom : DnsHeader.defaultLen + 2 * questionLen host ≤ 1024) :
    TcpRequest.ofHosts id [host] =
      some (padded 1026 (writeBytes 2 ((hostRequest 2 id host).len % 2 ^ 16) ++ DnsHeader.initBytes id 1 0 0 false ++
        (bytes ++ DnsQuery.defaultFlags) ++ (bytes ++ DnsQuery.defaultFlags)),
        { hostRequest 2 id host with len := (hostRequest 2 id host).len + TcpRequest.sizeHeader }) := by
  have hwritten : ∀ other ∈ [host], Written (fun _ => bytes ++ DnsQuery.defaultFlags) other := by
    simpa using ⟨bytes, hbytes, hlen, rfl⟩
  have htcp := @tcp_hosts _ id _ hwritten (by simpa using hroom)
  rw [List.flatMap_singleton, ← List.append_assoc (writeBytes _ _), ← List.append_assoc (writeBytes _ _)] at htcp
  exact htcp

/-- The question that the server asks for a name. -/
def nameQuestion (labels : List Bytes) : Question := { labels := labels, type := 1, cls := 1 }

/-- The queries for a host carry these labels: what is sent behind the header is the question for their name. -/
def Carries (labels : List Bytes) (host : Bytes) : Prop :=
  ∀ id, (∃ m request, UdpRequest.ofHosts id [host] = some (m, request) ∧
      (m.take request.len).drop DnsHeader.defaultLen = (nameQuestion labels).bytes) ∧
    ∃ m request, TcpRequest.ofHosts id [host] = some (m, request) ∧
      (m.take request.len).drop (TcpRequest.sizeHeader + DnsHeader.defaultLen) = (nameQuestion labels).bytes

/-- The queries for a short host carry its pieces. -/
theorem carries_pieces (ht : HostText host) (h255 : host.length ≤ 255) (h0 : (host ++ [dot])[0]? ≠ some dot) :
    Carries (host.splitOn dot) host := by
  intro id
  have hbytes := nameBytes_short ht.1 h255 h0
  have hencodable : Encodable host := ⟨by omega, h0, fun h => absurd h (by omega)⟩
  obtain ⟨bytes, hbytes', hexact⟩ := (nameBytes_iff ht.1 (by omega) ht.2).2 hencodable
  obtain rfl := Option.some.inj (hbytes.symm.trans hbytes')
  have hdecl := finalDataLen_eq ht.1
  have hu32 : u32 (finalDataLen host) = finalDataLen host := u32_of_lt (by omega)
  have hlen : questionLen host = host.length + 6 := by
    rw [questionLen, hu32, hdecl]
    rfl
  let question := labelBytes (host.splitOn dot) ++ [0] ++ DnsQuery.defaultFlags
  have hquestion : (nameQuestion (host.splitOn dot)).bytes = question := by
    change _ ++ (beBytes 2 1 ++ beBytes 2 1) = _ ++ DnsQuery.defaultFlags
    rw [show beBytes 2 1 ++ beBytes 2 1 = DnsQuery.defaultFlags by decide]
    rfl
  have hqlen : question.length = questionLen host := by
    rw [List.length_append, hexact, ← hu32]
    rfl
  rw [hquestion]
  have hroom : DnsHeader.defaultLen + 2 * questionLen host ≤ 1024 := by
    rw [hlen, DnsHeader.defaultLen]
    omega
  constructor
  · refine ⟨_, _, udp_eq hbytes (by rw [hexact, hu32]) hroom, ?_⟩
    have hmid := middle_of_padded 1024 (DnsHeader.initBytes id 1 0 0 false) question question
    rw [length_initBytes, hqlen] at hmid
    exact hmid
  · refine ⟨_, _, tcp_eq hbytes (by rw [hexact, hu32]) hroom, ?_⟩
    have hmid := middle_of_padded 1026
      (writeBytes 2 ((hostRequest 2 id host).len % 2 ^ 16) ++ DnsHeader.initBytes id 1 0 0 false) question question
    rw [List.length_append, length_initBytes, hqlen,
      show (writeBytes 2 _).length = TcpRequest.sizeHeader from rfl] at hmid
    rw [← hmid]
    congr 2
    change DnsHeader.defaultLen + questionLen host + 2 = 2 + DnsHeader.defaultLen + questionLen host
    omega

/-- A query for a short host carries labels iff they are its pieces and it does not begin with a dot. -/
theorem carries_short_iff {labels : List Bytes} (ht : HostText host) (h255 : host.length ≤ 255)
    (hok : ∀ l ∈ labels, LabelOk l) :
    Carries labels host ↔ labels = host.splitOn dot ∧ (host ++ [dot])[0]? ≠ some dot := by
  constructor
  · intro h
    obtain ⟨⟨m, request, hbuilt, hsent⟩, -⟩ := h 0
    obtain ⟨bytes, -, -, -, -, -, hbytes, -⟩ := init_eq_some.1 hbuilt
    have h0 := head_of_nameBytes ht.1 h255 hbytes
    obtain ⟨⟨m', request', hbuilt', hsent'⟩, -⟩ := carries_pieces ht h255 h0 0
    obtain ⟨rfl, rfl⟩ := Prod.mk.inj (Option.some.inj (hbuilt.symm.trans hbuilt'))
    have hsame := hsent.symm.trans hsent'
    have hbytes : labelBytes labels = labelBytes (host.splitOn dot) :=
      List.append_cancel_right (List.append_cancel_right hsame)
    refine ⟨labelBytes_injective (fun l hl => ?_) (fun l hl => ?_) hbytes, h0⟩
    · exact Nat.lt_of_le_of_lt (hok l hl).2 (by decide)
    · exact Nat.lt_of_le_of_lt (ht.2 l hl) (by decide)
  · rintro ⟨rfl, h0⟩
    exact carries_pieces ht h255 h0

/-- No query carries a name whose first label begins with a zero byte. -/
theorem not_carries_zero {l : Bytes} {ls : List Bytes} (hz : (0 : UInt8) ∉ host) : ¬Carries ((0 :: l) :: ls) host := by
  intro h
  obtain ⟨⟨m, request, hbuilt, hsent⟩, -⟩ := h 0
  obtain ⟨bytes, m₁, m₂, m₃, question, hm₁, hbytes, hm₂, hm₃, -, hm, rfl⟩ := init_eq_some.1 hbuilt
  have h12 : DnsHeader.defaultLen = 12 := rfl
  have hlen := congrArg List.length hsent
  rw [Question.length_bytes, Question.len, nameQuestion, labelsLen, List.length_cons, List.length_drop,
    List.length_take] at hlen
  have hq : (hostRequest 0 0 host).len = 12 + questionLen host := rfl
  have h4 : questionLen host = u32 (finalDataLen host) + 4 := rfl
  have hget : m[13]? = some 0 := by
    have hsecond := congrArg (fun bs : Bytes => bs[1]?) hsent
    rw [List.getElem?_drop, List.getElem?_take_of_lt (by omega)] at hsecond
    exact hsecond
  obtain ⟨ch, hch, hfirst⟩ := second_of_nameBytes hz hbytes
  have h2 := (List.getElem?_eq_some_iff.1 hfirst).1
  rw [getElem?_store hm, if_neg (by omega), getElem?_store hm₃, if_neg (by omega), getElem?_store hm₂,
    if_pos (by omega)] at hget
  have heq : some ch = some 0 := hfirst.symm.trans hget
  cases heq
  exact hz hch

end Sent

/-! ## The name of the first question -/

/-- No label has a zero byte or a dot. -/
def PlainLabels (labels : List Bytes) : Prop := ∀ l ∈ labels, (0 : UInt8) ∉ l ∧ dot ∉ l

instance (labels : List Bytes) : Decidable (PlainLabels labels) := inferInstanceAs (Decidable (∀ l ∈ labels, _))

/-- A datagram is accepted in its buffer, and its first question holds the uncompressed name with these labels. -/
structure AsksName (d tail : Bytes) (r : UdpRequest) (labels : List Bytes) : Prop where
  small : d.length ≤ 1024
  parsed : UdpRequest.parse (d ++ tail) d.length = some r
  valid : r.valid = true
  name : Holds d DnsHeader.defaultLen (labelBytes labels ++ [0])
  labelsOk : ∀ l ∈ labels, LabelOk l
  labelsNe : labels ≠ []
  labelsShort : labelsLen labels + 1 ≤ 255

section First

variable {d tail : Bytes} {r : UdpRequest} {labels : List Bytes}

theorem question_text {m : Bytes} {i len : Nat} {q : DnsQuery}
    (hat : WireName.At ((m.drop i).take len) 0 (.plain labels)) (hcov : labelsLen labels + 1 ≤ len)
    (hlen : len < 2 ^ 32) (h : DnsQuery.parse m i len = some q) :
    q.text = decodedLabels labels := by
  have hname : parseDomain (m.drop i) len 0 len [] = ⟨decodedLabels labels, some (labelsLen labels + 1)⟩ :=
    parseRe_plain hat (by omega) hcov
  simp only [DnsQuery.parse, DnsDomain.parse, u32_of_lt hlen, hname, DnsDomain.ofParsed, Option.map_some,
    Nat.succ_ne_zero, if_false, Option.bind_eq_bind, Option.bind_some, if_true, Option.bind_eq_some_iff,
    Option.pure_def, Option.some.injEq] at h
  obtain ⟨v, -, rfl⟩ := h
  rfl

/-- The text of the first question comes first among the hosts, when it is not empty. -/
theorem AsksName.getHost_eq (h : AsksName d tail r labels) (hne : decodedLabels labels ≠ []) :
    r.getHost = decodedLabels labels := by
  obtain ⟨header, zone, -, -, hzone, hzv, hquerys, -, -, hhosts⟩ := accepted h.parsed h.valid
  obtain ⟨qs, hchain, rfl⟩ := zone_iff_chain.1 ⟨hzone, hzv⟩
  obtain ⟨q, qs, rfl⟩ := List.exists_cons_of_ne_nil hquerys
  have hend := h.name.length_le (by simp)
  rw [List.length_append, length_labelBytes, List.length_singleton] at hend
  have hsmall := h.small
  have hat : WireName.At (((d ++ tail).drop DnsHeader.defaultLen).take (d.length - DnsHeader.defaultLen)) 0
      (.plain labels) := by
    refine ⟨h.labelsOk, (holds_take ?_).2 (holds_drop.2 (h.name.mono (List.prefix_append d tail)))⟩
    rw [WireName.length_ownBytes, WireName.ownLen]
    omega
  have htext : q.text = decodedLabels labels := question_text hat (by omega) (by omega) hchain.1.2.1
  rw [← htext] at hne ⊢
  rw [UdpRequest.getHost, hhosts]
  exact (head_hosts_iff q qs).2 fun he => absurd he hne

theorem length_foldl_appendLabel_le (ls : List Bytes) : ∀ domain : Bytes,
    (ls.foldl appendLabel domain).length ≤ domain.length + labelsLen ls := by
  induction ls with
  | nil => exact fun _ => Nat.le_refl _
  | cons l ls ih =>
    intro domain
    have hrest := ih (appendLabel domain l)
    have hstep := length_appendLabel_le domain l
    rw [List.foldl_cons, labelsLen]
    omega

theorem AsksName.hostText_getHost (h : AsksName d tail r labels) : HostText r.getHost := by
  rw [UdpRequest.getHost]
  cases hhosts : r.hosts with
  | nil => exact hostText_nil
  | cons host hosts =>
    have hmem : host ∈ r.hosts := by
      rw [hhosts]
      exact List.mem_cons_self
    exact hostText_of_mem h.parsed hmem

/-- The host of a request for plain labels is their text. -/
theorem AsksName.getHost_plain (h : AsksName d tail r labels) (hp : PlainLabels labels) :
    r.getHost = joinLabels labels := by
  have hdec := decodedLabels_eq (fun l hl => (hp l hl).1) h.labelsOk
  rw [← hdec]
  exact h.getHost_eq (hdec ▸ joinLabels_ne_nil h.labelsNe h.labelsOk)

end First

/-- **The name asked upstream** for an accepted request is the name of its first question iff no label of that has a
zero byte or a dot, and two such names with the same host are the same. -/
theorem carries_iff (d tail : Bytes) (r : UdpRequest) (labels : List Bytes) (h : AsksName d tail r labels) :
    (Carries labels r.getHost ↔ PlainLabels labels) ∧
      ∀ (d' tail' : Bytes) (r' : UdpRequest) (labels' : List Bytes), AsksName d' tail' r' labels' →
        PlainLabels labels → PlainLabels labels' → r.getHost = r'.getHost → labels = labels' := by
  have hlen : (decodedLabels labels).length ≤ 255 := by
    have hle := length_foldl_appendLabel_le labels []
    have hshort := h.labelsShort
    rw [List.length_nil, Nat.zero_add] at hle
    exact Nat.le_trans hle (by omega)
  refine ⟨⟨fun hc => ?_, fun hp => ?_⟩, fun d' tail' r' labels' h' hp hp' heq => ?_⟩
  · by_cases hne : decodedLabels labels = []
    · -- the first label begins with a zero byte
      obtain ⟨l, ls, rfl⟩ := List.exists_cons_of_ne_nil h.labelsNe
      obtain ⟨x, l, rfl⟩ := List.exists_cons_of_ne_nil
        (List.length_pos_iff.1 (h.labelsOk l List.mem_cons_self).1)
      obtain rfl : x = 0 := by
        by_contra hx
        refine decodedLabels_ne_nil.2 ⟨x :: l, List.mem_cons_self, ?_⟩ hne
        rw [cString, List.takeWhile_cons_of_pos (by simpa using hx)]
        exact List.cons_ne_nil _ _
      exact absurd hc (not_carries_zero h.hostText_getHost.1)
    · have hhost := h.getHost_eq hne
      obtain ⟨hpieces, -⟩ := (carries_short_iff h.hostText_getHost (hhost ▸ hlen) h.labelsOk).1 hc
      intro l hl
      rw [hpieces] at hl
      exact ⟨(not_mem_of_mem_splitOn hl).2 h.hostText_getHost.1, (not_mem_of_mem_splitOn hl).1⟩
  · have hhost := h.getHost_plain hp
    have hpieces := splitOn_joinLabels h.labelsNe fun l hl => (hp l hl).2
    have hdec := decodedLabels_eq (fun l hl => (hp l hl).1) h.labelsOk
    refine (carries_short_iff h.hostText_getHost (hhost ▸ hdec ▸ hlen) h.labelsOk).2 ⟨hhost ▸ hpieces.symm, ?_⟩
    intro hdot
    obtain ⟨ch, rest, hcons⟩ := List.exists_cons_of_ne_nil (joinLabels_ne_nil h.labelsNe h.labelsOk)
    rw [hhost, hcons] at hdot
    obtain rfl : ch = dot := Option.some.inj hdot
    have hempty : [] ∈ labels := by
      rw [← hpieces, hcons]
      change [] ∈ ([] ++ dot :: rest).splitOn dot
      rw [List.splitOn_append_cons_self_of_not_mem List.not_mem_nil]
      exact List.mem_cons_self
    exact absurd (h.labelsOk [] hempty).1 (Nat.lt_irrefl 0)
  · rw [h.getHost_plain hp, h'.getHost_plain hp'] at heq
    rw [← splitOn_joinLabels h.labelsNe fun l hl => (hp l hl).2, heq,
      splitOn_joinLabels h'.labelsNe fun l hl => (hp' l hl).2]

theorem carries_iff_at : ∃ r, UdpRequest.parse (oneQuestion ++ [0]) 19 = some r ∧
    (Carries [[97]] r.getHost ↔ PlainLabels [[97]]) := by
  let parsed := UdpRequest.parse (oneQuestion ++ [0]) 19
  have hv : parsed.any (fun r => r.valid) = true := by decide
  obtain ⟨r, hr, hv⟩ := (Option.any_eq_true _ _).1 hv
  have hasks : AsksName oneQuestion [0] r [[97]] :=
    { small := by decide, parsed := hr, valid := hv, name := by decide, labelsOk := by decide, labelsNe := by decide,
      labelsShort := by decide }
  exact ⟨r, hr, (carries_iff oneQuestion [0] r [[97]] hasks).1⟩

/-- A datagram with one question, whose name is the single label `a.b`. -/
def dottedQuestion : Bytes := [0, 7, 1, 0, 0, 1, 0, 0, 0, 0, 0, 0, 3, 97, 46, 98, 0, 0, 1, 0, 1]

/-- The query for the label `a.b` asks for the two labels `a` and `b`. -/
theorem not_carries : ¬∀ (d tail : Bytes) (r : UdpRequest) (labels : List Bytes), AsksName d tail r labels →
    Carries labels r.getHost ∧ ∀ (d' tail' : Bytes) (r' : UdpRequest) (labels' : List Bytes),
      AsksName d' tail' r' labels' → r.getHost = r'.getHost → labels = labels' := by
  intro h
  let parsed := UdpRequest.parse (dottedQuestion ++ [0]) dottedQuestion.length
  have hp : parsed.any (fun r => r.valid && decide (r.getHost = [97, 46, 98])) = true := by decide
  obtain ⟨r, hr, hp⟩ := (Option.any_eq_true _ _).1 hp
  rw [Bool.and_eq_true, decide_eq_true_eq] at hp
  have hasks : AsksName dottedQuestion [0] r [[97, 46, 98]] :=
    { small := by decide, parsed := hr, valid := hp.1, name := by decide, labelsOk := by decide,
      labelsNe := by decide, labelsShort := by decide }
  have hcarried := (h _ _ _ _ hasks).1
  have hpieces := ((carries_short_iff hasks.hostText_getHost (by rw [hp.2]; decide) hasks.labelsOk).1 hcarried).1
  rw [hp.2] at hpieces
  exact absurd hpieces (by decide)

end StDns.Protocol
