import StDns.Protocol.Decoder

/-!
# What the decoder makes of a well-formed name

`parseRe` goes on behind a pointer that follows decoded text. A well-formed name is read as itself exactly when the
bytes behind such pointers end the loop at once: with nothing consumed at the outermost level (`StopsAt`), with nothing
appended at the levels below (`SettlesAt`). `parseDomain_stopsClean` and `parseDomain_not_stopsClean` decide the
returned length and the text for every well-formed name, `parseDomain_exact` compares the text with that of the name.
-/

namespace StDns.Protocol

open Lib Wire

/-! ## The text that the labels of a name add up to -/

/-- The text after a run of labels. -/
def decodedLabels (ls : List Bytes) : Bytes := ls.foldl appendLabel []

/-- The text that the decoder builds from a name when nothing behind its pointers gets in. -/
def decoded : WireName → Bytes
  | .plain ls => decodedLabels ls
  | .pointed ls _ t => if decodedLabels ls = [] then decoded t else decodedLabels ls ++ [dot] ++ decoded t

/-- Some label puts bytes into the text: it does not begin with a zero byte. -/
def HasText (ls : List Bytes) : Prop := ∃ l ∈ ls, cString l ≠ []

/-- No label comes before a pointer to a name without labels. -/
def Joins : WireName → Prop
  | .plain _ => True
  | .pointed ls _ t => (ls ≠ [] → t.labels ≠ []) ∧ Joins t

theorem appendLabel_nil (l : Bytes) : appendLabel [] l = cString l := rfl

theorem appendLabel_of_ne_nil {domain : Bytes} (h : domain ≠ []) (l : Bytes) :
    appendLabel domain l = domain ++ dot :: cString l := by
  have hl : domain.length ≠ 0 := fun e => h (List.length_eq_zero_iff.1 e)
  simp [appendLabel, hl]

theorem foldl_appendLabel_ne_nil (ls : List Bytes) : ∀ {domain : Bytes}, domain ≠ [] →
    ls.foldl appendLabel domain ≠ [] := by
  induction ls with
  | nil => exact id
  | cons l ls ih =>
    intro domain hd
    rw [List.foldl_cons]
    apply ih
    rw [appendLabel_of_ne_nil hd]
    simp

theorem decodedLabels_ne_nil {ls : List Bytes} : decodedLabels ls ≠ [] ↔ HasText ls := by
  unfold decodedLabels HasText
  induction ls with
  | nil => simp
  | cons l ls ih =>
    rw [List.foldl_cons, appendLabel_nil]
    by_cases hl : cString l = []
    · rw [hl, ih]; simp [hl]
    · exact ⟨fun _ => ⟨l, by simp, hl⟩, fun _ => foldl_appendLabel_ne_nil ls hl⟩

theorem foldl_appendLabel {ls : List Bytes} (hz : ∀ l ∈ ls, (0 : UInt8) ∉ l) (hne : ls ≠ []) :
    ∀ {domain : Bytes}, domain ≠ [] → ls.foldl appendLabel domain = domain ++ dot :: joinLabels ls := by
  induction ls with
  | nil => exact absurd rfl hne
  | cons l ls ih =>
    intro domain hd
    have hl : appendLabel domain l = domain ++ dot :: l := by
      rw [appendLabel_of_ne_nil hd, cString_of_zeroFree (hz l (by simp))]
    rw [List.foldl_cons, hl]
    cases ls with
    | nil => rfl
    | cons k ls =>
      have hne' : domain ++ dot :: l ≠ [] := by simp
      rw [ih (fun x hx => hz x (by simp [hx])) (by simp) hne', joinLabels_cons_cons]
      simp [dot, sep]

/-- Labels without zero bytes are joined by dots. -/
theorem decodedLabels_eq {ls : List Bytes} (hz : ∀ l ∈ ls, (0 : UInt8) ∉ l) (hok : ∀ l ∈ ls, LabelOk l) :
    decodedLabels ls = joinLabels ls := by
  cases ls with
  | nil => rfl
  | cons l ls =>
    have hl : appendLabel [] l = l := by rw [appendLabel_nil, cString_of_zeroFree (hz l (by simp))]
    rw [decodedLabels, List.foldl_cons, hl]
    cases ls with
    | nil => rfl
    | cons k ls =>
      have hne : l ≠ [] := List.length_pos_iff.1 (hok l (by simp)).1
      rw [foldl_appendLabel (fun x hx => hz x (by simp [hx])) (by simp) hne]
      rfl

theorem decodedLabels_eq_nil {ls : List Bytes} (hz : ∀ l ∈ ls, (0 : UInt8) ∉ l) (hok : ∀ l ∈ ls, LabelOk l) :
    decodedLabels ls = [] ↔ ls = [] := by
  rw [decodedLabels_eq hz hok]
  constructor
  · intro h
    by_contra hne
    exact joinLabels_ne_nil hne hok h
  · rintro rfl; rfl

/-- The decoder's text of a name is the name's text, or longer by the dots before missing labels. -/
theorem decoded_text {m : Bytes} : ∀ {b : Nat} {t : WireName}, t.At m b → t.ZeroFree →
    (Joins t → decoded t = t.text) ∧ (¬Joins t → t.text.length < (decoded t).length)
  | _, .plain ls, h, hz => ⟨fun _ => decodedLabels_eq hz h.1, fun hj => absurd trivial hj⟩
  | _, .pointed ls pos t, h, hz => by
    have hzl : ∀ l ∈ ls, (0 : UInt8) ∉ l := fun l hl => hz l (List.mem_append_left _ hl)
    have hzt : t.ZeroFree := fun l hl => hz l (List.mem_append_right _ hl)
    obtain ⟨ih, ih'⟩ := decoded_text h.2.2.2.2 hzt
    have hd := decodedLabels_eq hzl h.1
    simp only [decoded, decodedLabels_eq_nil hzl h.1, Joins, WireName.text, WireName.labels] at ih ih' ⊢
    by_cases hls : ls = []
    · subst hls; simpa using ⟨ih, ih'⟩
    · simp only [hls, if_false, hd, ne_eq, not_false_eq_true, true_implies]
      by_cases hlt : t.labels = []
      · have : t.text = [] := by rw [WireName.text, hlt]; rfl
        simp [hlt]
      · rw [joinLabels_append hls hlt]
        constructor
        · rintro ⟨_, hj⟩; rw [ih hj]; simp [dot, sep]
        · intro hj
          have := ih' fun h => hj ⟨hlt, h⟩
          simp only [List.length_append, List.length_cons, List.length_nil]; omega

/-! ## What stands behind a pointer -/

/-- The loop of a window that ends at `e` stops at index `i` with nothing consumed. -/
def StopsAt (m : Bytes) (e i : Nat) : Prop := e ≤ i ∨ ∃ x : UInt8, m[i]? = some x ∧ 64 ≤ x.toNat ∧ x.toNat < 192

/-- The loop of a level that began at `b` stops at index `i` with nothing appended. -/
def SettlesAt (m : Bytes) (b e i : Nat) : Prop := StopsAt m e i ∨ m[i]? = some 0 ∨ PointsTo m i b

/-- Below the outermost level, nothing is appended behind the pointers of a name that follow decoded text. -/
def Settled (m : Bytes) (n : Nat) : Nat → WireName → Prop
  | _, .plain _ => True
  | b, .pointed ls pos t => Settled m n pos t ∧ (HasText ls → SettlesAt m b n (b + labelsLen ls + 2))

/-- At the outermost level moreover nothing is consumed behind the pointer. -/
def StopsClean (m : Bytes) (n b w : Nat) : WireName → Prop
  | .plain _ => True
  | .pointed ls pos t => Settled m n pos t ∧ (HasText ls → StopsAt m (b + w) (b + labelsLen ls + 2))

/-- The decoding failed, or its text is longer than `text`. -/
def Overshoots (text : Bytes) (p : Parsed) : Prop :=
  p.ret = none ∨ p.ret = some 0 ∨ text.length < p.domain.length

section Behind

variable {m : Bytes} {n levels b w a : Nat} {domain : Bytes}

/-- A round that goes on from some text makes it longer. -/
theorem RoundOf.length_lt {c c' : Cursor} {self : Nat → Nat → Parsed} (h : RoundOf m n b w self c (.next c'))
    (hd : c.domain ≠ []) : c.domain.length < c'.domain.length := by
  cases h with
  | label =>
    rw [appendLabel_of_ne_nil hd]
    simp only [List.length_append, List.length_cons]; omega
  | pointerJoin => simp only [List.length_append, List.length_cons]; omega

theorem decodeFrom_stopsAt (hw : w < 2 ^ 64) (h : StopsAt m (b + w) (b + a)) :
    decodeFrom m n levels b w ⟨a, domain⟩ = ⟨domain, some a⟩ := by
  rcases Nat.lt_or_ge a w with haw | haw
  · rcases h with h | ⟨x, hx, hlo, hhi⟩
    · omega
    · exact decodeFrom_done hw (.reserved haw hx hlo hhi)
  · exact decodeFrom_done hw (.windowEnd haw)

theorem decodeFrom_settlesAt (hw : w < 2 ^ 64) (ha : a ≠ 0) (h : SettlesAt m b (b + w) (b + a)) :
    ∃ k, k ≠ 0 ∧ decodeFrom m n levels b w ⟨a, domain⟩ = ⟨domain, some k⟩ := by
  rcases Nat.lt_or_ge a w with haw | haw
  · rcases h with h | h | h
    · exact ⟨a, ha, decodeFrom_stopsAt hw h⟩
    · exact ⟨a + 1, by omega, decodeFrom_done hw (.zero haw h)⟩
    · exact ⟨a + 2, by omega, decodeFrom_done hw (.selfPointer haw h)⟩
  · exact ⟨a, ha, decodeFrom_done hw (.windowEnd haw)⟩

/-- Every way not to settle fails or appends. -/
theorem decodeFrom_not_settlesAt (hw : w < 2 ^ 64) (hd : domain ≠ []) (h : ¬SettlesAt m b (b + w) (b + a)) :
    Overshoots domain (decodeFrom m n levels b w ⟨a, domain⟩) := by
  have hs : RoundOf m n b w (below m n levels) ⟨a, domain⟩ _ := round_spec hw
  cases hr : parseReRound m n b w (below m n levels) ⟨a, domain⟩ with
  | next c' =>
    rw [hr] at hs
    rw [decodeFrom_next hw hs]
    exact .inr (.inr (Nat.lt_of_lt_of_le (hs.length_lt hd) (length_le_decodeFrom hw c')))
  | done r =>
    rw [hr] at hs
    rw [decodeFrom_done hw hs]
    cases hs with
    | windowEnd hwin => exact absurd (.inl (.inl (Nat.add_le_add_left hwin b))) h
    | zero _ hx => exact absurd (.inr (.inl hx)) h
    | reserved _ hx hlo hhi => exact absurd (.inl (.inr ⟨_, hx, hlo, hhi⟩)) h
    | selfPointer _ hp => exact absurd (.inr (.inr hp)) h
    | labelLong => exact .inr (.inl rfl)
    | pointerFail => exact .inr (.inl rfl)
    | pointerFirst _ _ _ _ _ hd' => exact absurd hd' hd
    | _ => exact .inl rfl

/-- A level that succeeds returns at least what it has consumed. -/
theorem actualLen_le_ret (hw : w < 2 ^ 64) {c : Cursor} {k : Nat} (h : (decodeFrom m n levels b w c).ret = some k)
    (hk : k ≠ 0) : c.actualLen ≤ k := by
  revert k
  refine decodeFrom_rule hw (I := fun c' => c.actualLen ≤ c'.actualLen)
    (Q := fun r => ∀ {k}, r.ret = some k → k ≠ 0 → c.actualLen ≤ k) ?_ ?_ c (Nat.le_refl _)
  · intro c' c'' hI h
    cases h with
    | label => simp only; omega
    | pointerJoin => simp only; omega
  · intro c' r hI h k hr hk
    cases h with
    | windowEnd => cases hr; exact hI
    | zero => cases hr; omega
    | reserved => cases hr; exact hI
    | labelLong => cases hr; exact absurd rfl hk
    | selfPointer => cases hr; omega
    | pointerFail => cases hr; exact absurd rfl hk
    | pointerFirst => cases hr; omega
    | _ => cases hr

/-- Behind text, a level returns what it has consumed iff it stops there. -/
theorem ret_eq_iff_stopsAt (hw : w < 2 ^ 64) {a k : Nat} {domain : Bytes} (hd : domain ≠ [])
    (h : (decodeFrom m n levels b w ⟨a, domain⟩).ret = some k) (hk : k ≠ 0) : k = a ↔ StopsAt m (b + w) (b + a) := by
  constructor
  · rintro rfl
    have hs : RoundOf m n b w (below m n levels) ⟨k, domain⟩ _ := round_spec hw
    cases hr : parseReRound m n b w (below m n levels) ⟨k, domain⟩ with
    | next c' =>
      rw [hr] at hs
      rw [decodeFrom_next hw hs] at h
      have hle := actualLen_le_ret hw h hk
      cases hs with
      | label => simp only at hle; omega
      | pointerJoin => simp only at hle; omega
    | done r =>
      rw [hr] at hs
      rw [decodeFrom_done hw hs] at h
      cases hs with
      | windowEnd hwin => exact .inl (Nat.add_le_add_left hwin b)
      | reserved _ hx hlo hhi => exact .inr ⟨_, hx, hlo, hhi⟩
      | zero => simp at h
      | selfPointer => simp at h
      | labelLong => exact absurd (Option.some.inj h).symm hk
      | pointerFail => exact absurd (Option.some.inj h).symm hk
      | pointerFirst _ _ _ _ _ hd' => exact absurd hd' hd
      | _ => cases h
  · intro hs
    rw [decodeFrom_stopsAt hw hs] at h
    exact (Option.some.inj h).symm

end Behind

/-! ## The decoding of a well-formed name -/

section Name

variable {m : Bytes} {n levels b w : Nat}

theorem parseRe_plain {ls : List Bytes} (hat : WireName.At (m.take n) b (.plain ls)) (hw : w < 2 ^ 64)
    (hcov : labelsLen ls + 1 ≤ w) :
    parseRe m n (levels + 1) b w [] = ⟨decodedLabels ls, some (labelsLen ls + 1)⟩ := by
  have hh := Holds.mono hat.2 (List.take_prefix n m)
  simp only [WireName.ownBytes, holds_append, holds_cons, holds_nil, and_true, length_labelBytes] at hh
  rw [parseRe_succ, decodeFrom_labels hw hat.1 (by simpa using hh.1) (by omega), Nat.zero_add]
  exact decodeFrom_done hw (.zero (show labelsLen ls < w by omega) hh.2)

/-- A pointed name is its labels, then what the decoding of its target gives. -/
theorem parseRe_pointed {ls : List Bytes} {pos : Nat} {t : WireName} (hn : n < 2 ^ 64)
    (hat : WireName.At (m.take n) b (.pointed ls pos t)) (hw : w < 2 ^ 64) (hcov : labelsLen ls + 2 ≤ w) :
    parseRe m n (levels + 1) b w [] =
      match (parseRe m n levels pos (n - pos) []).ret with
      | none => ⟨decodedLabels ls, none⟩
      | some consume =>
        if consume = 0 then ⟨decodedLabels ls, some 0⟩
        else if decodedLabels ls = [] then ⟨(parseRe m n levels pos (n - pos) []).domain, some (labelsLen ls + 2)⟩
        else decodeFrom m n levels b w
          ⟨labelsLen ls + 2, decodedLabels ls ++ [dot] ++ (parseRe m n levels pos (n - pos) []).domain⟩ := by
  have hlen := hat.length_le
  obtain ⟨hok, hh, hpos, hlt, hatt⟩ := hat
  have hh := Holds.mono hh (List.take_prefix n m)
  simp only [WireName.ownBytes, holds_append, length_labelBytes] at hh
  rw [WireName.ownLen, List.length_take] at hlen
  have hp : PointsTo m (b + labelsLen ls) pos := ⟨hpos, hh.2⟩
  have hsub : sub64 n pos = n - pos := sub64_of_le (by omega) hn
  have hne : pos ≠ b := by omega
  have haw : labelsLen ls < w := by omega
  rw [parseRe_succ, decodeFrom_labels hw hok (by simpa using hh.1) (by omega), Nat.zero_add]
  change decodeFrom m n levels b w ⟨labelsLen ls, decodedLabels ls⟩ = _
  rw [← hsub]
  cases hr : (parseRe m n levels pos (sub64 n pos) []).ret with
  | none => exact decodeFrom_done hw (.pointerFault haw hp hne hr)
  | some k =>
    by_cases hk : k = 0
    · subst hk; exact decodeFrom_done hw (.pointerFail haw hp hne hr)
    · by_cases hd : decodedLabels ls = []
      · simp only [if_neg hk, if_pos hd]
        exact decodeFrom_done hw (.pointerFirst haw hp hne hr hk hd)
      · simp only [if_neg hk, if_neg hd]
        exact decodeFrom_next hw (.pointerJoin haw hp hne hr hk hd)

/-- Below the outermost level a settled name is decoded, and the text is that of the name. -/
theorem parseRe_settled (hn : n < 2 ^ 64) : ∀ {t : WireName} {levels b : Nat}, t.At (m.take n) b → t.hops < levels →
    Settled m n b t → ∃ k, k ≠ 0 ∧ parseRe m n levels b (n - b) [] = ⟨decoded t, some k⟩
  | _, 0, _, _, hl, _ => absurd hl (Nat.not_lt_zero _)
  | .plain ls, levels + 1, b, hat, _, _ => by
    have hlen := hat.length_le
    rw [WireName.ownLen, List.length_take] at hlen
    exact ⟨labelsLen ls + 1, by omega, parseRe_plain hat (by omega) (by omega)⟩
  | .pointed ls pos t, levels + 1, b, hat, hl, ⟨hst, hse⟩ => by
    have hlen := hat.length_le
    rw [WireName.ownLen, List.length_take] at hlen
    obtain ⟨k, hk, hr⟩ := parseRe_settled hn hat.2.2.2.2 (Nat.lt_of_succ_lt_succ hl) hst
    rw [parseRe_pointed hn hat (by omega) (by omega), hr]
    simp only [hk, if_false, decoded]
    by_cases hd : decodedLabels ls = []
    · simp only [hd, if_true]; exact ⟨labelsLen ls + 2, by omega, rfl⟩
    · simp only [hd, if_false]
      apply decodeFrom_settlesAt (by omega) (by omega)
      rw [show b + (n - b) = n by omega]
      exact hse (decodedLabels_ne_nil.1 hd)

/-- A name whose target fails or grows fails or grows itself. -/
theorem overshoots_pointed {ls : List Bytes} {pos : Nat} {t : WireName} (hn : n < 2 ^ 64)
    (hat : WireName.At (m.take n) b (.pointed ls pos t)) (hw : w < 2 ^ 64) (hcov : labelsLen ls + 2 ≤ w)
    (h : Overshoots (decoded t) (parseRe m n levels pos (n - pos) [])) :
    Overshoots (decoded (.pointed ls pos t)) (parseRe m n (levels + 1) b w []) := by
  rw [parseRe_pointed hn hat hw hcov]
  cases hr : (parseRe m n levels pos (n - pos) []).ret with
  | none => exact .inl rfl
  | some k =>
    rcases h with h | h | h
    · rw [hr] at h; cases h
    · rw [hr] at h; cases h; exact .inr (.inl rfl)
    · by_cases hk : k = 0
      · subst hk; exact .inr (.inl rfl)
      · simp only [hk, if_false, decoded]
        by_cases hd : decodedLabels ls = []
        · simp only [hd, if_true]; exact .inr (.inr h)
        · simp only [hd, if_false]
          refine .inr (.inr (Nat.lt_of_lt_of_le ?_ (length_le_decodeFrom hw _)))
          simp only [List.length_append]; omega

/-- Below the outermost level a name that does not settle fails or grows. -/
theorem parseRe_not_settled (hn : n < 2 ^ 64) : ∀ {t : WireName} {levels b : Nat}, t.At (m.take n) b →
    t.hops < levels → ¬Settled m n b t → Overshoots (decoded t) (parseRe m n levels b (n - b) [])
  | _, 0, _, _, hl, _ => absurd hl (Nat.not_lt_zero _)
  | .plain _, _ + 1, _, _, _, hs => absurd trivial hs
  | .pointed ls pos t, levels + 1, b, hat, hl, hs => by
    have hlen := hat.length_le
    rw [WireName.ownLen, List.length_take] at hlen
    have hw : n - b < 2 ^ 64 := by omega
    have hl' : t.hops < levels := Nat.lt_of_succ_lt_succ hl
    by_cases hst : Settled m n pos t
    · obtain ⟨k, hk, hr⟩ := parseRe_settled hn hat.2.2.2.2 hl' hst
      have hd : decodedLabels ls ≠ [] := fun hd => hs ⟨hst, fun h => absurd hd (decodedLabels_ne_nil.2 h)⟩
      have hse : ¬SettlesAt m b n (b + labelsLen ls + 2) := fun h => hs ⟨hst, fun _ => h⟩
      rw [parseRe_pointed hn hat hw (by omega), hr]
      simp only [hk, if_false, hd, decoded]
      apply decodeFrom_not_settlesAt hw (by simp)
      rw [show b + (n - b) = n by omega]
      exact hse
    · exact overshoots_pointed hn hat hw (by omega) (parseRe_not_settled hn hat.2.2.2.2 hl' hst)

variable {t : WireName}

/-- **A well-formed name that stops clean** is decoded with its own length and text. -/
theorem parseDomain_stopsClean (hn : n < 2 ^ 64) (hw : w < 2 ^ 64) (hat : t.At (m.take n) b) (hh : t.hops ≤ 20)
    (hcov : t.ownLen ≤ w) (hs : StopsClean m n b w t) :
    parseDomain m n b w [] = ⟨decoded t, some t.ownLen⟩ := by
  cases t with
  | plain ls => exact parseRe_plain hat hw hcov
  | pointed ls pos t =>
    obtain ⟨hst, hse⟩ := hs
    have hl : t.hops < 20 := hh
    obtain ⟨k, hk, hr⟩ := parseRe_settled hn hat.2.2.2.2 hl hst
    rw [parseDomain, parseLevels, parseRe_pointed hn hat hw hcov, hr]
    simp only [hk, if_false, decoded, WireName.ownLen]
    by_cases hd : decodedLabels ls = []
    · simp only [hd, if_true]
    · simp only [hd, if_false]
      exact decodeFrom_stopsAt hw (hse (decodedLabels_ne_nil.1 hd))

/-- A well-formed name that does not stop clean is decoded with another length or a longer text. -/
theorem parseDomain_not_stopsClean (hn : n < 2 ^ 64) (hw : w < 2 ^ 64) (hat : t.At (m.take n) b) (hh : t.hops ≤ 20)
    (hcov : t.ownLen ≤ w) (hs : ¬StopsClean m n b w t) :
    (parseDomain m n b w []).ret ≠ some t.ownLen ∨ (decoded t).length < (parseDomain m n b w []).domain.length := by
  cases t with
  | plain ls => exact absurd trivial hs
  | pointed ls pos t =>
    have hl : t.hops < 20 := hh
    by_cases hst : Settled m n pos t
    · obtain ⟨k, hk, hr⟩ := parseRe_settled hn hat.2.2.2.2 hl hst
      have hd : decodedLabels ls ≠ [] := fun hd => hs ⟨hst, fun h => absurd hd (decodedLabels_ne_nil.2 h)⟩
      rw [parseDomain, parseLevels, parseRe_pointed hn hat hw hcov, hr]
      simp only [hk, if_false, hd, WireName.ownLen]
      exact .inl fun h => hs ⟨hst, fun _ => (ret_eq_iff_stopsAt hw (by simp) h (by omega)).1 rfl⟩
    · have ho := overshoots_pointed hn hat hw hcov (parseRe_not_settled hn hat.2.2.2.2 hl hst)
      rw [parseDomain, parseLevels]
      rcases ho with h | h | h
      · rw [h]; exact .inl (by simp)
      · rw [h]; exact .inl (by simp [WireName.ownLen])
      · exact .inr h

end Name

/-- **Exact decoding**: a well-formed name without zero bytes is decoded as itself, whatever follows it, iff the
bytes behind its pointers stop the decoder and no label is joined to a name without labels. -/
theorem parseDomain_exact (m : Bytes) (n b w : Nat) (t : WireName) (hn : n < 2 ^ 64) (hw : w < 2 ^ 64)
    (hat : t.At (m.take n) b) (hz : t.ZeroFree) (hh : t.hops ≤ 20) (hcov : t.ownLen ≤ w) :
    parseDomain m n b w [] = ⟨t.text, some t.ownLen⟩ ↔ StopsClean m n b w t ∧ Joins t := by
  obtain ⟨hj, hnj⟩ := decoded_text hat hz
  constructor
  · intro h
    have hs : StopsClean m n b w t := by
      by_contra hs
      have hle : t.text.length ≤ (decoded t).length := by
        by_cases hjo : Joins t
        · rw [hj hjo]
        · exact (hnj hjo).le
      rcases parseDomain_not_stopsClean hn hw hat hh hcov hs with hr | hr
      · exact hr (by rw [h])
      · rw [h] at hr; simp only at hr; omega
    refine ⟨hs, ?_⟩
    by_contra hjo
    have hlt := hnj hjo
    rw [parseDomain_stopsClean hn hw hat hh hcov hs, Parsed.mk.injEq] at h
    rw [h.1] at hlt
    exact Nat.lt_irrefl _ hlt
  · rintro ⟨hs, hjo⟩
    rw [parseDomain_stopsClean hn hw hat hh hcov hs, hj hjo]

/-- `b`, then `a` with a pointer to it; a byte of a reserved kind behind the pointer. -/
theorem parseDomain_exact_at :
    parseDomain [1, 98, 0, 1, 97, 192, 0, 64] 8 3 5 [] = ⟨[97, 46, 98], some 4⟩ ↔
      StopsClean [1, 98, 0, 1, 97, 192, 0, 64] 8 3 5 (.pointed [[97]] 0 (.plain [[98]])) ∧
        Joins (.pointed [[97]] 0 (.plain [[98]])) :=
  parseDomain_exact [1, 98, 0, 1, 97, 192, 0, 64] 8 3 5 (.pointed [[97]] 0 (.plain [[98]])) (by decide) (by decide)
    (by decide) (by decide) (by decide) (by decide)

/-- With a zero byte behind the pointer the name takes one byte too many. -/
theorem parseDomain_inexact : ¬∀ (m : Bytes) (n b w : Nat) (t : WireName), n < 2 ^ 64 → w < 2 ^ 64 →
    t.At (m.take n) b → t.ZeroFree → t.hops ≤ 20 → t.ownLen ≤ w →
    parseDomain m n b w [] = ⟨t.text, some t.ownLen⟩ := by
  intro h
  have := h [1, 98, 0, 1, 97, 192, 0, 0] 8 3 5 (.pointed [[97]] 0 (.plain [[98]])) (by decide) (by decide) (by decide)
    (by decide) (by decide) (by decide)
  exact absurd this (by decide)

end StDns.Protocol
