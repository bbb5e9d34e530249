import StDns.Protocol.Message
import StDns.Wire.Name

/-!
# The name decoder, round by round

`RoundOf` lists what one round of `parseRe` can do, one constructor for each way it ends or goes on; `round_spec` and
`RoundOf.eq` say that the list is complete and exact. The loop of one level from any state of its variables is
`decodeFrom`; it runs through the labels it meets (`decodeFrom_labels`), never shortens its text
(`length_le_decodeFrom`), and is stable under more memory (`parseRe_stable`).
-/

namespace StDns.Protocol

open Lib Wire

/-! ## Machine arithmetic -/

theorem sub64_lt (a b : Nat) : sub64 a b < 2 ^ 64 := Nat.mod_lt _ (by decide)

theorem sub64_of_le {a b : Nat} (h : b ≤ a) (ha : a < 2 ^ 64) : sub64 a b = a - b := by
  unfold sub64; omega

theorem sub32_of_le {a b : Nat} (h : b ≤ a) (ha : a < 2 ^ 32) : sub32 a b = a - b := by
  unfold sub32; omega

theorem u32_of_lt {a : Nat} (h : a < 2 ^ 32) : u32 a = a := Nat.mod_eq_of_lt h

/-- A statement about every byte, checked on the 256 values. -/
theorem forall_byte {P : UInt8 → Prop} (h : ∀ i : Fin 256, P (UInt8.ofNat i.val)) (b : UInt8) : P b := by
  have := h ⟨b.toNat, b.toNat_lt⟩
  simpa using this

theorem top_bits_set (b : UInt8) : b &&& 0b11000000 = 0b11000000 ↔ 192 ≤ b.toNat :=
  forall_byte (P := fun b => b &&& 0b11000000 = 0b11000000 ↔ 192 ≤ b.toNat) (by decide +kernel) b

theorem top_bits_clear (b : UInt8) : b &&& 0b11000000 = 0 ↔ b.toNat < 64 :=
  forall_byte (P := fun b => b &&& 0b11000000 = 0 ↔ b.toNat < 64) (by decide +kernel) b

theorem low_bits (b : UInt8) : (b &&& 0b00111111).toNat = b.toNat % 64 :=
  forall_byte (P := fun b => (b &&& 0b00111111).toNat = b.toNat % 64) (by decide +kernel) b

theorem shiftLeft_or_byte (a : Nat) (b : UInt8) : (a <<< 8) ||| b.toNat = a * 256 + b.toNat := by
  have h := Nat.two_pow_add_eq_or_of_lt (i := 8) (b := b.toNat) (by have := b.toNat_lt; omega) a
  rw [Nat.shiftLeft_eq, Nat.mul_comm a, ← h]

theorem pointerPos_eq (hi lo : UInt8) : pointerPos hi lo = hi.toNat % 64 * 256 + lo.toNat := by
  rw [pointerPos, low_bits, shiftLeft_or_byte]

/-! ## Pointers -/

/-- `m` has a compression pointer to `pos` at index `i`. -/
def PointsTo (m : Bytes) (i pos : Nat) : Prop := pos < 2 ^ 14 ∧ Holds m i (pointerBytes pos)

theorem pointsTo_iff {m : Bytes} {i pos : Nat} :
    PointsTo m i pos ↔ ∃ hi lo, m[i]? = some hi ∧ 192 ≤ hi.toNat ∧ m[i + 1]? = some lo ∧ pointerPos hi lo = pos := by
  simp only [PointsTo, pointerBytes, holds_cons, holds_nil, and_true]
  constructor
  · rintro ⟨hp, h1, h2⟩
    refine ⟨_, _, h1, ?_, h2, ?_⟩
    · rw [UInt8.toNat_ofNat']; omega
    · rw [pointerPos_eq, UInt8.toNat_ofNat', UInt8.toNat_ofNat']; omega
  · rintro ⟨hi, lo, h1, hhi, h2, rfl⟩
    have hlt := hi.toNat_lt
    have llt := lo.toNat_lt
    rw [pointerPos_eq]
    refine ⟨by omega, ?_, ?_⟩
    · rw [h1]; congr 1
      apply UInt8.toNat_inj.1
      rw [UInt8.toNat_ofNat']; omega
    · rw [h2]; congr 1
      apply UInt8.toNat_inj.1
      rw [UInt8.toNat_ofNat']; omega

/-! ## What one round does -/

section Round

variable {m : Bytes} {n b w : Nat} {self : Nat → Nat → Parsed} {c : Cursor}

/-- What one round of the loop does: the window is at its end, or the byte at the head says how to go on. -/
inductive RoundOf (m : Bytes) (n b w : Nat) (self : Nat → Nat → Parsed) (c : Cursor) : Round Cursor Parsed → Prop
  | windowEnd (h : w ≤ c.actualLen) : RoundOf m n b w self c (.done ⟨c.domain, some c.actualLen⟩)
  | headBeyond (h : c.actualLen < w) (hx : m[b + c.actualLen]? = none) : RoundOf m n b w self c (.done ⟨c.domain, none⟩)
  | zero (h : c.actualLen < w) (hx : m[b + c.actualLen]? = some 0) :
      RoundOf m n b w self c (.done ⟨c.domain, some (c.actualLen + 1)⟩)
  | reserved (h : c.actualLen < w) {x : UInt8} (hx : m[b + c.actualLen]? = some x) (hlo : 64 ≤ x.toNat)
      (hhi : x.toNat < 192) : RoundOf m n b w self c (.done ⟨c.domain, some c.actualLen⟩)
  | labelLong (h : c.actualLen < w) {x : UInt8} (hx : m[b + c.actualLen]? = some x) (hlo : 0 < x.toNat)
      (hhi : x.toNat < 64) (hw : w < c.actualLen + 1 + x.toNat) : RoundOf m n b w self c (.done ⟨c.domain, some 0⟩)
  | labelBeyond (h : c.actualLen < w) {x : UInt8} (hx : m[b + c.actualLen]? = some x) (hlo : 0 < x.toNat)
      (hhi : x.toNat < 64) (hw : c.actualLen + 1 + x.toNat ≤ w) (hs : m.length < b + (c.actualLen + 1) + x.toNat) :
      RoundOf m n b w self c (.done ⟨c.domain, none⟩)
  | label {l : Bytes} (hl : LabelOk l) (hx : Holds m (b + c.actualLen) (UInt8.ofNat l.length :: l))
      (hw : c.actualLen + 1 + l.length ≤ w) :
      RoundOf m n b w self c (.next ⟨c.actualLen + 1 + l.length, appendLabel c.domain l⟩)
  | pointerBeyond (h : c.actualLen < w) {x : UInt8} (hx : m[b + c.actualLen]? = some x) (hlo : 192 ≤ x.toNat)
      (hx' : m[b + c.actualLen + 1]? = none) : RoundOf m n b w self c (.done ⟨c.domain, none⟩)
  | selfPointer (h : c.actualLen < w) (hp : PointsTo m (b + c.actualLen) b) :
      RoundOf m n b w self c (.done ⟨c.domain, some (c.actualLen + 2)⟩)
  | pointerFault (h : c.actualLen < w) {pos : Nat} (hp : PointsTo m (b + c.actualLen) pos) (hne : pos ≠ b)
      (hr : (self pos (sub64 n pos)).ret = none) : RoundOf m n b w self c (.done ⟨c.domain, none⟩)
  | pointerFail (h : c.actualLen < w) {pos : Nat} (hp : PointsTo m (b + c.actualLen) pos) (hne : pos ≠ b)
      (hr : (self pos (sub64 n pos)).ret = some 0) : RoundOf m n b w self c (.done ⟨c.domain, some 0⟩)
  | pointerFirst (h : c.actualLen < w) {pos k : Nat} (hp : PointsTo m (b + c.actualLen) pos) (hne : pos ≠ b)
      (hr : (self pos (sub64 n pos)).ret = some k) (hk : k ≠ 0) (hd : c.domain = []) :
      RoundOf m n b w self c (.done ⟨(self pos (sub64 n pos)).domain, some (c.actualLen + 2)⟩)
  | pointerJoin (h : c.actualLen < w) {pos k : Nat} (hp : PointsTo m (b + c.actualLen) pos) (hne : pos ≠ b)
      (hr : (self pos (sub64 n pos)).ret = some k) (hk : k ≠ 0) (hd : c.domain ≠ []) :
      RoundOf m n b w self c (.next ⟨c.actualLen + 2, c.domain ++ [dot] ++ (self pos (sub64 n pos)).domain⟩)

/-- A round at the end of the window. -/
theorem round_windowEnd (h : w ≤ c.actualLen) : parseReRound m n b w self c = .done ⟨c.domain, some c.actualLen⟩ := by
  unfold parseReRound; rw [if_neg (by omega)]

/-- A round whose head byte is outside the memory, zero, or of a reserved kind. -/
theorem round_headBeyond (h : c.actualLen < w) (hx : m[b + c.actualLen]? = none) :
    parseReRound m n b w self c = .done ⟨c.domain, none⟩ := by
  unfold parseReRound; simp only [h, if_true, hx]

theorem round_zero (h : c.actualLen < w) (hx : m[b + c.actualLen]? = some 0) :
    parseReRound m n b w self c = .done ⟨c.domain, some (c.actualLen + 1)⟩ := by
  unfold parseReRound; simp [h, hx]

theorem round_reserved (h : c.actualLen < w) {x : UInt8} (hx : m[b + c.actualLen]? = some x) (hlo : 64 ≤ x.toNat)
    (hhi : x.toNat < 192) : parseReRound m n b w self c = .done ⟨c.domain, some c.actualLen⟩ := by
  have h1 : ¬x &&& 0b11000000 = 0b11000000 := fun e => by have := (top_bits_set x).1 e; omega
  have h2 : ¬x &&& 0b11000000 = 0 := fun e => by have := (top_bits_clear x).1 e; omega
  unfold parseReRound
  simp only [h, if_true, hx, h1, h2, if_false]

/-- A round whose head byte counts the bytes of a label. -/
theorem round_count (hw : w < 2 ^ 64) (h : c.actualLen < w) {x : UInt8} (hx : m[b + c.actualLen]? = some x)
    (hlo : 0 < x.toNat) (hhi : x.toNat < 64) :
    parseReRound m n b w self c =
      if w < c.actualLen + 1 + x.toNat then .done ⟨c.domain, some 0⟩
      else
        match slice m (b + (c.actualLen + 1)) x.toNat with
        | none => .done ⟨c.domain, none⟩
        | some label => .next ⟨c.actualLen + 1 + x.toNat, appendLabel c.domain label⟩ := by
  have h1 : ¬x &&& 0b11000000 = 0b11000000 := fun e => by have := (top_bits_set x).1 e; omega
  have h2 := (top_bits_clear x).2 hhi
  have h0 : x ≠ 0 := fun e => by subst e; simp at hlo
  have hsub : sub64 w (c.actualLen + 1) = w - (c.actualLen + 1) := sub64_of_le h hw
  have hlt : w - (c.actualLen + 1) < x.toNat ↔ w < c.actualLen + 1 + x.toNat := by omega
  unfold parseReRound
  rw [if_pos h]
  simp only [hx]
  rw [if_neg h1, if_pos h2, if_neg h0, hsub]
  exact if_congr hlt rfl rfl

/-- A round whose head byte begins a pointer. -/
theorem round_pointerBeyond (h : c.actualLen < w) {x : UInt8} (hx : m[b + c.actualLen]? = some x)
    (hlo : 192 ≤ x.toNat) (hx' : m[b + c.actualLen + 1]? = none) :
    parseReRound m n b w self c = .done ⟨c.domain, none⟩ := by
  have h1 := (top_bits_set x).2 hlo
  unfold parseReRound
  simp only [h, if_true, hx, h1, hx']

theorem round_pointsTo (h : c.actualLen < w) {pos : Nat} (hp : PointsTo m (b + c.actualLen) pos) :
    parseReRound m n b w self c =
      if pos = b then .done ⟨c.domain, some (c.actualLen + 2)⟩
      else
        match (self pos (sub64 n pos)).ret with
        | none => .done ⟨c.domain, none⟩
        | some consume =>
          if consume = 0 then .done ⟨c.domain, some 0⟩
          else if c.domain = [] then .done ⟨(self pos (sub64 n pos)).domain, some (c.actualLen + 2)⟩
          else .next ⟨c.actualLen + 2, c.domain ++ [dot] ++ (self pos (sub64 n pos)).domain⟩ := by
  obtain ⟨x, y, hx, hlo, hy, rfl⟩ := pointsTo_iff.1 hp
  have h1 := (top_bits_set x).2 hlo
  unfold parseReRound
  rw [if_pos h]
  simp only [hx]
  rw [if_pos h1]
  simp only [hy]
  by_cases hpos : pointerPos x y = b
  · rw [if_neg (not_not.2 hpos), if_pos hpos]
  · rw [if_pos hpos, if_neg hpos]
    cases (self (pointerPos x y) (sub64 n (pointerPos x y))).ret with
    | none => rfl
    | some consume => simp only [ne_eq, ite_not, List.length_eq_zero_iff]

/-- A byte under 64 and the bytes it counts are a label. -/
theorem holds_label {x : UInt8} {l : Bytes} {i : Nat} (hx : m[i]? = some x) (hpos : 0 < x.toNat)
    (hs : slice m (i + 1) x.toNat = some l) : l.length = x.toNat ∧ Holds m i (UInt8.ofNat l.length :: l) := by
  obtain ⟨hl, he⟩ := (slice_eq_some hpos).1 hs
  refine ⟨he, holds_cons.2 ⟨?_, hl⟩⟩
  rw [hx, he]
  simp

/-- The count of a label is the length of its bytes. -/
theorem slice_of_holds_label {l : Bytes} {i : Nat} (hl : LabelOk l) (h : Holds m i (UInt8.ofNat l.length :: l)) :
    m[i]? = some (UInt8.ofNat l.length) ∧ (UInt8.ofNat l.length).toNat = l.length ∧
      slice m (i + 1) l.length = some l := by
  obtain ⟨h0, hs⟩ := holds_cons.1 h
  have h63 := hl.2
  exact ⟨h0, by rw [UInt8.toNat_ofNat']; omega, hs.slice (List.length_pos_iff.1 hl.1)⟩

/-- **What a round does**: every round is one of the list. -/
theorem round_spec (hw : w < 2 ^ 64) : RoundOf m n b w self c (parseReRound m n b w self c) := by
  rcases Nat.lt_or_ge c.actualLen w with h | h
  swap
  · rw [round_windowEnd h]; exact .windowEnd h
  cases hx : m[b + c.actualLen]? with
  | none => rw [round_headBeyond h hx]; exact .headBeyond h hx
  | some x =>
    by_cases h0 : x = 0
    · subst h0; rw [round_zero h hx]; exact .zero h hx
    have hpos : 0 < x.toNat := Nat.pos_of_ne_zero fun e => h0 (UInt8.toNat_inj.1 (by simpa using e))
    rcases Nat.lt_or_ge x.toNat 64 with h64 | h64
    · rw [round_count hw h hx hpos h64]
      split
      · rename_i hlong; exact .labelLong h hx hpos h64 hlong
      · rename_i hfit
        cases hs : slice m (b + (c.actualLen + 1)) x.toNat with
        | none =>
          refine .labelBeyond h hx hpos h64 (by omega) ?_
          unfold slice at hs
          split at hs
          · cases hs
          · omega
        | some l =>
          obtain ⟨hll, hl⟩ := holds_label hx hpos hs
          simp only [← hll]
          exact .label ⟨by omega, by omega⟩ hl (by omega)
    rcases Nat.lt_or_ge x.toNat 192 with h192 | h192
    · rw [round_reserved h hx h64 h192]; exact .reserved h hx h64 h192
    cases hx' : m[b + c.actualLen + 1]? with
    | none => rw [round_pointerBeyond h hx h192 hx']; exact .pointerBeyond h hx h192 hx'
    | some y =>
      have hp : PointsTo m (b + c.actualLen) (pointerPos x y) := pointsTo_iff.2 ⟨x, y, hx, h192, hx', rfl⟩
      rw [round_pointsTo h hp]
      split
      · rename_i he; exact .selfPointer h (he ▸ hp)
      rename_i hne
      cases hr : (self (pointerPos x y) (sub64 n (pointerPos x y))).ret with
      | none => exact .pointerFault h hp hne hr
      | some k =>
        by_cases hk : k = 0
        · subst hk; exact .pointerFail h hp hne hr
        · by_cases hd : c.domain = []
          · simp only [hk, if_false, hd, if_true]; exact .pointerFirst h hp hne hr hk hd
          · simp only [hk, if_false, hd]; exact .pointerJoin h hp hne hr hk hd

/-- The list is exact: what it gives for a state is what the round does there. -/
theorem RoundOf.eq (hw : w < 2 ^ 64) {r : Round Cursor Parsed} (h : RoundOf m n b w self c r) :
    parseReRound m n b w self c = r := by
  cases h with
  | windowEnd h => exact round_windowEnd h
  | headBeyond h hx => exact round_headBeyond h hx
  | zero h hx => exact round_zero h hx
  | reserved h hx hlo hhi => exact round_reserved h hx hlo hhi
  | labelLong h hx hlo hhi hlong => rw [round_count hw h hx hlo hhi, if_pos hlong]
  | labelBeyond h hx hlo hhi hfit hs =>
    rw [round_count hw h hx hlo hhi, if_neg (by omega), slice, if_neg (by omega)]
  | @label l hl hx hfit =>
    have hlen := hl.1
    have h63 := hl.2
    obtain ⟨h0, hn, hs⟩ := slice_of_holds_label hl hx
    rw [round_count hw (by omega) h0 (by omega) (by omega), hn, if_neg (by omega)]
    rw [show b + (c.actualLen + 1) = b + c.actualLen + 1 from rfl, hs]
  | pointerBeyond h hx hlo hx' => exact round_pointerBeyond h hx hlo hx'
  | selfPointer h hp => rw [round_pointsTo h hp, if_pos rfl]
  | pointerFault h hp hne hr => rw [round_pointsTo h hp, if_neg hne]; simp only [hr]
  | pointerFail h hp hne hr => rw [round_pointsTo h hp, if_neg hne]; simp only [hr, if_true]
  | pointerFirst h hp hne hr hk hd =>
    rw [round_pointsTo h hp, if_neg hne]; simp only [hr, hk, if_false, hd, if_true]
  | pointerJoin h hp hne hr hk hd =>
    rw [round_pointsTo h hp, if_neg hne]; simp only [hr, hk, if_false, hd]

end Round

/-! ## The loop of one level -/

/-- The loop of a level with `levels` more below it, from any state of its variables. -/
def decodeFrom (m : Bytes) (n levels b w : Nat) (c : Cursor) : Parsed :=
  loop (parseReRound m n b w fun pos rest => parseRe m n levels pos rest []) (fun c => ⟨c.domain, some c.actualLen⟩)
    (fun c => w - c.actualLen) c

section Level

variable {m : Bytes} {n levels b w : Nat}

theorem parseRe_succ (domain : Bytes) :
    parseRe m n (levels + 1) b w domain = decodeFrom m n levels b w ⟨0, domain⟩ := rfl

/-- The recursive calls of a level. -/
abbrev below (m : Bytes) (n levels : Nat) : Nat → Nat → Parsed := fun pos rest => parseRe m n levels pos rest []

theorem round_descends (hw : w < 2 ^ 64) (self : Nat → Nat → Parsed) :
    Descends (parseReRound m n b w self) fun c => w - c.actualLen := by
  intro c c' h
  have hs : RoundOf m n b w self c _ := round_spec hw
  rw [h] at hs
  cases hs with
  | label hl _ hfit => have := hl.1; simp only; omega
  | pointerJoin h => simp only; omega

theorem decodeFrom_next (hw : w < 2 ^ 64) {c c' : Cursor} (h : RoundOf m n b w (below m n levels) c (.next c')) :
    decodeFrom m n levels b w c = decodeFrom m n levels b w c' :=
  loop_next (round_descends hw _) (h.eq hw)

theorem decodeFrom_done (hw : w < 2 ^ 64) {c : Cursor} {r : Parsed}
    (h : RoundOf m n b w (below m n levels) c (.done r)) : decodeFrom m n levels b w c = r :=
  loop_done (h.eq hw)

/-- The invariant rule of a level. -/
theorem decodeFrom_rule (hw : w < 2 ^ 64) {I : Cursor → Prop} {Q : Parsed → Prop}
    (next : ∀ c c', I c → RoundOf m n b w (below m n levels) c (.next c') → I c')
    (done : ∀ c r, I c → RoundOf m n b w (below m n levels) c (.done r) → Q r) (c : Cursor) (hc : I c) :
    Q (decodeFrom m n levels b w c) := by
  refine loop_rule (round_descends hw _) ?_ ?_ c hc
  · intro c c' hI h
    exact next c c' hI (h ▸ round_spec hw)
  · intro c r hI h
    exact done c r hI (h ▸ round_spec hw)

theorem length_appendLabel_le (domain label : Bytes) :
    (appendLabel domain label).length ≤ domain.length + 1 + label.length := by
  have hl : (cString label).length ≤ label.length := (List.takeWhile_prefix _).length_le
  unfold appendLabel
  rw [List.length_append]
  split
  · rw [List.length_append, List.length_singleton]; omega
  · omega

/-- The text of a level only grows. -/
theorem length_le_decodeFrom (hw : w < 2 ^ 64) (c : Cursor) :
    c.domain.length ≤ (decodeFrom m n levels b w c).domain.length := by
  refine decodeFrom_rule hw (I := fun c' => c.domain.length ≤ c'.domain.length)
    (Q := fun r => c.domain.length ≤ r.domain.length) ?_ ?_ c (Nat.le_refl _)
  · intro c' c'' hI h
    cases h with
    | label =>
      simp only [appendLabel, List.length_append]
      split
      · rw [List.length_append]; omega
      · omega
    | pointerJoin => simp only [List.length_append]; omega
  · intro c' r hI h
    cases h with
    | pointerFirst _ _ _ _ _ hd => simp only [hd, List.length_nil] at hI; omega
    | _ => exact hI

/-- A level runs through the labels it meets. -/
theorem decodeFrom_labels (hw : w < 2 ^ 64) {ls : List Bytes} (hok : ∀ l ∈ ls, LabelOk l) :
    ∀ {a : Nat} {domain : Bytes}, Holds m (b + a) (labelBytes ls) → a + labelsLen ls ≤ w →
      decodeFrom m n levels b w ⟨a, domain⟩ =
        decodeFrom m n levels b w ⟨a + labelsLen ls, ls.foldl appendLabel domain⟩ := by
  induction ls with
  | nil => intro a domain _ _; rfl
  | cons l ls ih =>
    intro a domain hh hfit
    simp only [labelBytes, holds_append, labelsLen] at hh hfit
    have hr : RoundOf m n b w (below m n levels) ⟨a, domain⟩ (.next ⟨a + 1 + l.length, appendLabel domain l⟩) :=
      .label (hok l (by simp)) hh.1 (show a + 1 + l.length ≤ w by omega)
    have hi : b + (a + 1 + l.length) = b + a + (UInt8.ofNat l.length :: l).length := by
      simp only [List.length_cons]; omega
    rw [decodeFrom_next hw hr, ih (fun x hx => hok x (by simp [hx])) (hi ▸ hh.2) (by omega), List.foldl_cons, labelsLen]
    congr 2; omega

end Level

/-! ## More memory -/

theorem PointsTo.mono {m m' : Bytes} {i pos : Nat} (h : PointsTo m i pos) (hm : m <+: m') : PointsTo m' i pos :=
  ⟨h.1, Holds.mono h.2 hm⟩

/-- A round that does not fault is the same round over more memory, when the calls it makes are the same. -/
theorem RoundOf.mono {m m' : Bytes} {n b w : Nat} {self self' : Nat → Nat → Parsed} {c : Cursor}
    {r : Round Cursor Parsed} (hm : m <+: m') (hself : ∀ pos, (self pos (sub64 n pos)).ret ≠ none →
      self' pos (sub64 n pos) = self pos (sub64 n pos)) (h : RoundOf m n b w self c r)
    (hr : ∀ p, r = .done p → p.ret ≠ none) : RoundOf m' n b w self' c r := by
  cases h with
  | windowEnd h => exact .windowEnd h
  | headBeyond => exact absurd rfl (hr _ rfl)
  | zero h hx => exact .zero h (getElem?_mono hm hx)
  | reserved h hx hlo hhi => exact .reserved h (getElem?_mono hm hx) hlo hhi
  | labelLong h hx hlo hhi hlong => exact .labelLong h (getElem?_mono hm hx) hlo hhi hlong
  | labelBeyond => exact absurd rfl (hr _ rfl)
  | label hl hx hfit => exact .label hl (Holds.mono hx hm) hfit
  | pointerBeyond => exact absurd rfl (hr _ rfl)
  | selfPointer h hp => exact .selfPointer h (hp.mono hm)
  | pointerFault => exact absurd rfl (hr _ rfl)
  | @pointerFail h pos hp hne hret =>
    have he := hself pos (by rw [hret]; simp)
    exact .pointerFail h (hp.mono hm) hne (he ▸ hret)
  | @pointerFirst h pos k hp hne hret hk hd =>
    have he := hself pos (by rw [hret]; simp)
    rw [← he]
    exact .pointerFirst h (hp.mono hm) hne (he ▸ hret) hk hd
  | @pointerJoin h pos k hp hne hret hk hd =>
    have he := hself pos (by rw [hret]; simp)
    rw [← he]
    exact .pointerJoin h (hp.mono hm) hne (he ▸ hret) hk hd

/-- **Stability**: a decoding that stays inside the memory is the decoding over every memory that continues it. -/
theorem parseRe_stable {m m' : Bytes} {n : Nat} (hm : m <+: m') : ∀ (levels : Nat) {b w : Nat} {domain : Bytes},
    w < 2 ^ 64 → (parseRe m n levels b w domain).ret ≠ none →
      parseRe m' n levels b w domain = parseRe m n levels b w domain
  | 0, _, _, _, _, _ => rfl
  | levels + 1, b, w, domain, hw, h => by
    rw [parseRe_succ] at h ⊢
    have hself : ∀ pos, (below m n levels pos (sub64 n pos)).ret ≠ none →
        below m' n levels pos (sub64 n pos) = below m n levels pos (sub64 n pos) :=
      fun pos hp => parseRe_stable hm levels (sub64_lt n pos) hp
    refine loop_agree (P := fun p => p.ret ≠ none) (round_descends hw _) (round_descends hw _) ?_ ?_ _ h
    · intro c c' hb _
      exact (RoundOf.mono hm hself (hb ▸ round_spec hw) (fun p hp => by cases hp)).eq hw
    · intro c r hb hok
      exact (RoundOf.mono hm hself (hb ▸ round_spec hw) (fun p hp => by cases hp; exact hok)).eq hw

end StDns.Protocol
