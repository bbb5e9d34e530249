import StDns.Protocol.Request
import StDns.Protocol.Upstream

/-!
# The texts that requests give

What the decoder appends to its text is a label without its zero bytes, or the text of another name behind a dot. So
every host of a request is a `HostText`, and it can be sent upstream iff it is written as it is (`hosts_buildable_iff`).
-/

namespace StDns.Protocol

open Lib Wire

/-- A text without zero bytes whose pieces between dots are as short as labels. -/
def HostText (text : Bytes) : Prop := (0 : UInt8) ∉ text ∧ ∀ piece ∈ text.splitOn dot, piece.length ≤ 63

section Text

variable {text text' l : Bytes}

theorem hostText_nil : HostText [] := ⟨by simp, by simp⟩

/-- No piece of a text is longer than the text. -/
theorem length_le_of_mem_splitOn {piece : Bytes} (h : piece ∈ text.splitOn dot) : piece.length ≤ text.length := by
  rw [← spans_text] at h
  obtain ⟨s, -, rfl⟩ := List.mem_map.1 h
  rw [spanText, List.length_take, List.length_drop]
  omega

theorem hostText_label (h : LabelOk l) : HostText (cString l) := by
  have hle : (cString l).length ≤ l.length := (List.takeWhile_sublist _).length_le
  refine ⟨fun h0 => ?_, fun piece hpiece => ?_⟩
  · simpa using List.mem_takeWhile_imp h0
  · exact Nat.le_trans (length_le_of_mem_splitOn hpiece) (Nat.le_trans hle h.2)

/-- Texts joined by a dot. -/
theorem HostText.join (h : HostText text) (h' : HostText text') : HostText (text ++ dot :: text') := by
  refine ⟨?_, ?_⟩
  · rw [List.mem_append, List.mem_cons]
    rintro (h0 | h0 | h0)
    · exact h.1 h0
    · cases h0
    · exact h'.1 h0
  · rw [List.splitOn_append_cons_self]
    exact List.forall_mem_append.2 ⟨h.2, h'.2⟩

theorem HostText.appendLabel (h : HostText text) (hl : LabelOk l) : HostText (appendLabel text l) := by
  by_cases hne : text = []
  · subst hne
    exact hostText_label hl
  · rw [appendLabel_of_ne_nil hne]
    exact h.join (hostText_label hl)

end Text

/-- **Every text of the decoder** is a host text. -/
theorem parseRe_hostText {m : Bytes} {n : Nat} : ∀ (levels : Nat) {b w : Nat} {domain : Bytes}, w < 2 ^ 64 →
    HostText domain → HostText (parseRe m n levels b w domain).domain
  | 0, _, _, _, _, h => h
  | levels + 1, b, w, domain, hw, h => by
    have hbelow : ∀ pos, HostText (below m n levels pos (sub64 n pos)).domain := fun pos =>
      parseRe_hostText levels (sub64_lt n pos) hostText_nil
    rw [parseRe_succ]
    refine decodeFrom_rule hw (I := fun c => HostText c.domain) (Q := fun r => HostText r.domain) ?_ ?_ _ h
    · intro c c' hc hround
      cases hround with
      | label hl => exact hc.appendLabel hl
      | @pointerJoin _ pos k hp =>
        rw [List.append_assoc]
        exact hc.join (hbelow pos)
    · intro c r hc hround
      cases hround with
      | pointerFirst => exact hbelow _
      | _ => exact hc

/-! ## The hosts of a request -/

/-- The text of a parsed question. -/
def DnsQuery.text (q : DnsQuery) : Bytes := (q.domain.map fun domain => domain.domain).getD []

/-- The hosts of a request are the texts of its questions that are not empty. -/
theorem hostsOf_eq (querys : List DnsQuery) : hostsOf querys = (querys.map DnsQuery.text).filter fun t => t ≠ [] := by
  induction querys with
  | nil => rfl
  | cons q querys ih =>
    have hcons : hostsOf (q :: querys) =
        (q.domain.bind fun domain => if domain.domain = [] then none else some domain.domain).toList ++
          hostsOf querys := by
      unfold hostsOf
      rw [List.filterMap_cons]
      cases q.domain.bind fun domain => if domain.domain = [] then none else some domain.domain <;> rfl
    rw [hcons, ih, List.map_cons, List.filter_cons, DnsQuery.text]
    cases q.domain with
    | none => simp
    | some domain => by_cases ht : domain.domain = [] <;> simp [ht]

/-- The host is the text of the first question iff that is not empty, or all are. -/
theorem head_hosts_iff (q : DnsQuery) (querys : List DnsQuery) :
    (hostsOf (q :: querys)).head?.getD [] = q.text ↔ (q.text = [] → ∀ q' ∈ querys, q'.text = []) := by
  rw [hostsOf_eq, List.map_cons]
  by_cases ht : q.text = []
  · rw [List.filter_cons_of_neg (by simp [ht]), ht]
    refine ⟨fun h _ q' hq' => ?_, fun h => ?_⟩
    · by_contra hne
      have hmem : q'.text ∈ (querys.map DnsQuery.text).filter fun t => t ≠ [] :=
        List.mem_filter.2 ⟨List.mem_map_of_mem hq', by simpa using hne⟩
      obtain ⟨t, ts, hts⟩ := List.exists_cons_of_ne_nil (List.ne_nil_of_mem hmem)
      have ht' : t ∈ (querys.map DnsQuery.text).filter fun t => t ≠ [] := by rw [hts]; exact List.mem_cons_self
      rw [hts] at h
      exact absurd h (by simpa using (List.mem_filter.1 ht').2)
    · rw [List.filter_eq_nil_iff.2 fun t ht => ?_]
      · rfl
      · obtain ⟨q', hq', rfl⟩ := List.mem_map.1 ht
        simp [h rfl q' hq']
  · rw [List.filter_cons_of_pos (by simp [ht])]
    exact iff_of_true rfl fun h => absurd h ht

section Hosts

variable {m : Bytes} {n : Nat} {r : UdpRequest}

theorem question_hostText {q : DnsQuery} {i len : Nat} (h : DnsQuery.parse m i len = some q) {dom : DnsDomain}
    (hdom : q.domain = some dom) : HostText dom.domain := by
  simp only [DnsQuery.parse, DnsDomain.parse, DnsDomain.ofParsed, Option.bind_eq_bind, Option.bind_eq_some_iff,
    Option.map_eq_some_iff] at h
  obtain ⟨dom', ⟨k, hk, rfl⟩, h⟩ := h
  have hlen : u32 len < 2 ^ 64 := Nat.lt_of_lt_of_le (Nat.mod_lt len (by decide)) (by decide)
  have htext : HostText (parseDomain (m.drop i) (u32 len) 0 (u32 len) []).domain :=
    parseRe_hostText parseLevels hlen hostText_nil
  by_cases h0 : k = 0
  · simp only [h0, if_true, Bool.false_eq_true, if_false, Option.pure_def, Option.some.injEq] at h
    rw [← h] at hdom
    cases hdom
  · simp only [if_neg h0, if_true, Option.bind_eq_some_iff, Option.pure_def, Option.some.injEq] at h
    obtain ⟨v, -, rfl⟩ := h
    obtain rfl := Option.some.inj hdom
    exact htext

/-- The hosts of a request are host texts. -/
theorem hostText_of_mem (h : UdpRequest.parse m n = some r) {host : Bytes} (hmem : host ∈ r.hosts) : HostText host := by
  by_cases hv : r.valid = true
  swap
  · rw [(empty_of_rejected h hv).2] at hmem
    cases hmem
  obtain ⟨header, zone, -, -, hzone, hzv, -, -, -, hhosts⟩ := accepted h hv
  obtain ⟨qs, hchain, rfl⟩ := zone_iff_chain.1 ⟨hzone, hzv⟩
  have parsed : ∀ {qs : List DnsQuery} {size reset data : Nat},
      QuestionChain m (n - DnsHeader.defaultLen) size reset data qs →
        ∀ q ∈ qs, ∃ i, DnsQuery.parse m i (n - DnsHeader.defaultLen) = some q := by
    intro qs
    induction qs with
    | nil => simp
    | cons q qs ih => exact fun hc => List.forall_mem_cons.2 ⟨⟨_, hc.1.2.1⟩, ih hc.2⟩
  rw [hhosts, hostsOf, List.mem_filterMap] at hmem
  obtain ⟨q, hq, hbind⟩ := hmem
  obtain ⟨dom, hdom, hhost⟩ := Option.bind_eq_some_iff.1 hbind
  obtain ⟨i, hparse⟩ := parsed hchain q hq
  split at hhost
  · cases hhost
  · cases hhost
    exact question_hostText hparse hdom

end Hosts

/-- **Upstream queries**: for every host of a request and for the empty host, the queries are built inside their own
buffers from characters of the host, with the length they declare, iff the host is written as it is. -/
theorem hosts_buildable_iff (d tail : Bytes) (r : UdpRequest) (host : Bytes)
    (h : UdpRequest.parse (d ++ tail) d.length = some r) (hhost : host ∈ r.hosts ∨ host = []) :
    Buildable host ↔ Encodable host := by
  have htext : HostText host := by
    rcases hhost with hmem | rfl
    · exact hostText_of_mem h hmem
    · exact hostText_nil
  exact buildable_iff htext.1 htext.2

theorem hosts_buildable_iff_at : ∃ r, UdpRequest.parse (oneQuestion ++ [0]) 19 = some r ∧ [97] ∈ r.hosts ∧
    (Buildable [97] ↔ Encodable [97]) := by
  let parsed := UdpRequest.parse (oneQuestion ++ [0]) 19
  have hp : parsed.any (fun r => decide ([97] ∈ r.hosts)) = true := by decide
  obtain ⟨r, hr, hp⟩ := (Option.any_eq_true _ _).1 hp
  rw [decide_eq_true_eq] at hp
  exact ⟨r, hr, hp, hosts_buildable_iff oneQuestion [0] r [97] hr (.inl hp)⟩

/-- For the empty host 256 characters are read where there are none. -/
theorem root_not_buildable : ¬∀ (d tail : Bytes) (r : UdpRequest) (host : Bytes), d.length ≤ 1024 →
    UdpRequest.parse (d ++ tail) d.length = some r → (host ∈ r.hosts ∨ host = []) → Buildable host := by
  intro h
  let root : Bytes := [0, 7, 1, 0, 0, 1, 0, 0, 0, 0, 0, 0, 0, 0, 1, 0, 1]
  let parsed := UdpRequest.parse (root ++ [0]) root.length
  obtain ⟨r, hr⟩ := Option.isSome_iff_exists.1 (show parsed.isSome by decide)
  obtain ⟨-, -, bytes, hbytes, -⟩ := h root [0] r [] (by decide) hr (.inr rfl) 0
  rw [show nameBytes [] = none by decide] at hbytes
  cases hbytes

end StDns.Protocol
