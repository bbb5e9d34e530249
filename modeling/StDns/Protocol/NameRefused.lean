import StDns.Protocol.DomainExact

/-!
# Which bytes are refused as a name

The loop of `parseRe` has exits that return nothing and exits that return what was consumed so far. `LeadsTo` says of
the bytes alone which of the two kinds they lead to, at any state of a level; `leadsTo_of_ret` and `ret_of_leadsTo`
compare it with the decoder. Bytes that are no whole name are therefore refused only when they lead to an exit of the
first kind (`parse_refuses_iff`): a cut label does, a cut name does not.
-/

namespace StDns.Protocol

open Lib Wire

/-- A whole name at `b` within `w` bytes: labels and a zero byte, or labels and a pointer to another place of the
message, with a whole name there. -/
inductive Whole (m : Bytes) (n : Nat) : Nat → Nat → Prop
  | plain {b w : Nat} {ls : List Bytes} (hat : OwnName.At m b ⟨ls, none⟩) (hfit : labelsLen ls + 1 ≤ w) : Whole m n b w
  | pointed {b w pos : Nat} {ls : List Bytes} (hat : OwnName.At m b ⟨ls, some pos⟩) (hfit : labelsLen ls + 2 ≤ w)
      (hne : pos ≠ b) (ht : Whole m n pos (n - pos)) : Whole m n b w

/-- `LeadsTo m n levels b w a text taken`: from index `a` of the window `w` at `b`, behind some text or behind none, and
with `levels` more levels for pointers, the bytes are taken as a name or refused. -/
inductive LeadsTo (m : Bytes) (n : Nat) : Nat → Nat → Nat → Nat → Bool → Bool → Prop
  | windowEnd {levels b w a : Nat} {text taken : Bool} (h : w ≤ a) (htaken : taken = true ↔ a ≠ 0) :
      LeadsTo m n levels b w a text taken
  | reserved {levels b w a : Nat} {text taken : Bool} (h : a < w) {x : UInt8} (hx : m[b + a]? = some x)
      (hlo : 64 ≤ x.toNat) (hhi : x.toNat < 192) (htaken : taken = true ↔ a ≠ 0) : LeadsTo m n levels b w a text taken
  | zero {levels b w a : Nat} {text : Bool} (h : a < w) (hx : m[b + a]? = some 0) : LeadsTo m n levels b w a text true
  | labelLong {levels b w a : Nat} {text : Bool} (h : a < w) {x : UInt8} (hx : m[b + a]? = some x)
      (hlo : 0 < x.toNat) (hhi : x.toNat < 64) (hlong : w < a + 1 + x.toNat) : LeadsTo m n levels b w a text false
  | label {levels b w a : Nat} {text taken : Bool} {l : Bytes} (hl : LabelOk l)
      (hx : Holds m (b + a) (UInt8.ofNat l.length :: l)) (hfit : a + 1 + l.length ≤ w)
      (hrest : LeadsTo m n levels b w (a + 1 + l.length) (text || decide (cString l ≠ [])) taken) :
      LeadsTo m n levels b w a text taken
  | selfPointer {levels b w a : Nat} {text : Bool} (h : a < w) (hp : PointsTo m (b + a) b) :
      LeadsTo m n levels b w a text true
  | tooDeep {b w a pos : Nat} {text : Bool} (h : a < w) (hp : PointsTo m (b + a) pos) (hne : pos ≠ b) :
      LeadsTo m n 0 b w a text false
  | refusedTarget {levels b w a pos : Nat} {text : Bool} (h : a < w) (hp : PointsTo m (b + a) pos) (hne : pos ≠ b)
      (ht : LeadsTo m n levels pos (sub64 n pos) 0 false false) : LeadsTo m n (levels + 1) b w a text false
  | firstTarget {levels b w a pos : Nat} (h : a < w) (hp : PointsTo m (b + a) pos) (hne : pos ≠ b)
      (ht : LeadsTo m n levels pos (sub64 n pos) 0 false true) : LeadsTo m n (levels + 1) b w a false true
  | joinTarget {levels b w a pos : Nat} {taken : Bool} (h : a < w) (hp : PointsTo m (b + a) pos) (hne : pos ≠ b)
      (ht : LeadsTo m n levels pos (sub64 n pos) 0 false true)
      (hrest : LeadsTo m n (levels + 1) b w (a + 2) true taken) :
      LeadsTo m n (levels + 1) b w a true taken

/-- The bytes at `b` are refused. -/
def Refused (m : Bytes) (n b w : Nat) : Prop := LeadsTo m n 20 b w 0 false false

section LeadsTo

variable {m : Bytes} {n levels b w a k : Nat} {domain : Bytes} {text taken : Bool}

theorem appendLabel_eq_nil {l : Bytes} : appendLabel domain l = [] ↔ domain = [] ∧ cString l = [] := by
  by_cases hd : domain = []
  · subst hd
    simp [appendLabel_nil]
  · simp [appendLabel_of_ne_nil hd, hd]

/-- What the bytes that a pointer goes to lead to, with `levels` more levels from the pointer on. -/
def TargetLeadsTo (m : Bytes) (n pos : Nat) (taken : Bool) : Nat → Prop
  | 0 => taken = false
  | levels + 1 => LeadsTo m n levels pos (sub64 n pos) 0 false taken

section Target

variable {pos : Nat} (h : a < w) (hp : PointsTo m (b + a) pos) (hne : pos ≠ b)

include h hp hne

theorem LeadsTo.of_refused (ht : TargetLeadsTo m n pos false levels) : LeadsTo m n levels b w a text false := by
  cases levels with
  | zero => exact .tooDeep h hp hne
  | succ levels => exact .refusedTarget h hp hne ht

theorem LeadsTo.of_first (ht : TargetLeadsTo m n pos true levels) : LeadsTo m n levels b w a false true := by
  cases levels with
  | zero => cases ht
  | succ levels => exact .firstTarget h hp hne ht

theorem LeadsTo.of_join (ht : TargetLeadsTo m n pos true levels) (hrest : LeadsTo m n levels b w (a + 2) true taken) :
    LeadsTo m n levels b w a true taken := by
  cases levels with
  | zero => cases ht
  | succ levels => exact .joinTarget h hp hne ht hrest

end Target

/-- What one level returns, the bytes lead to, when this holds of the levels below it. -/
theorem leadsTo_of_level (hw : w < 2 ^ 64) (hbelow : ∀ pos j, (below m n levels pos (sub64 n pos)).ret = some j →
    TargetLeadsTo m n pos (decide (j ≠ 0)) levels) (h : (decodeFrom m n levels b w ⟨a, domain⟩).ret = some k) :
    LeadsTo m n levels b w a (decide (domain ≠ [])) (decide (k ≠ 0)) := by
  induction hd : w - a using Nat.strong_induction_on generalizing a domain with
  | _ d ih =>
    have hs : RoundOf m n b w (below m n levels) ⟨a, domain⟩ _ := round_spec hw
    cases hr : parseReRound m n b w (below m n levels) ⟨a, domain⟩ with
    | next c =>
      rw [hr] at hs
      rw [decodeFrom_next hw hs] at h
      cases hs with
      | @label l hl hx hfit =>
        have hrest := ih (w - (a + 1 + l.length)) (by have := hl.1; simp only at hfit; omega) h rfl
        refine .label hl hx hfit ?_
        simpa [appendLabel_eq_nil, imp_iff_not_or] using hrest
      | @pointerJoin hlt pos j hp hne hret hj hdomain =>
        have hrest := ih (w - (a + 2)) (by simp only at hlt; omega) h rfl
        have ht := hbelow pos j hret
        simp only [ne_eq, hj, hdomain, not_false_eq_true, decide_true] at ht ⊢
        exact .of_join hlt hp hne ht (by simpa using hrest)
    | done r =>
      rw [hr] at hs
      rw [decodeFrom_done hw hs] at h
      cases hs with
      | windowEnd hwin => cases h; exact .windowEnd hwin (by simp)
      | zero hlt hx => cases h; exact .zero hlt hx
      | reserved hlt hx hlo hhi => cases h; exact .reserved hlt hx hlo hhi (by simp)
      | labelLong hlt hx hlo hhi hlong => cases h; exact .labelLong hlt hx hlo hhi hlong
      | selfPointer hlt hp => cases h; exact .selfPointer hlt hp
      | pointerFail hlt hp hne hret => cases h; exact .of_refused hlt hp hne (hbelow _ _ hret)
      | @pointerFirst hlt pos j hp hne hret hj hdomain =>
        cases h
        have ht := hbelow pos j hret
        simp only [ne_eq, hj, not_false_eq_true, decide_true] at ht
        simp only at hdomain
        subst hdomain
        exact .of_first hlt hp hne ht
      | _ => cases h

/-- What the decoder returns, the bytes lead to. -/
theorem leadsTo_of_ret (hw : w < 2 ^ 64) (h : (decodeFrom m n levels b w ⟨a, domain⟩).ret = some k) :
    LeadsTo m n levels b w a (decide (domain ≠ [])) (decide (k ≠ 0)) := by
  induction levels generalizing b w a domain k with
  | zero =>
    refine leadsTo_of_level hw (fun pos j hj => ?_) h
    cases hj
    rfl
  | succ levels ih => exact leadsTo_of_level hw (fun pos j hj => ih (sub64_lt n pos) hj) h

/-- What the bytes lead to, the decoder returns. -/
theorem ret_of_leadsTo (hw : w < 2 ^ 64) (h : LeadsTo m n levels b w a text taken) (hd : domain ≠ [] ↔ text = true) :
    ∃ k, (decodeFrom m n levels b w ⟨a, domain⟩).ret = some k ∧ (taken = true ↔ k ≠ 0) := by
  induction h generalizing domain with
  | windowEnd h htaken => exact ⟨_, by rw [decodeFrom_done hw (.windowEnd h)], htaken⟩
  | reserved h hx hlo hhi htaken => exact ⟨_, by rw [decodeFrom_done hw (.reserved h hx hlo hhi)], htaken⟩
  | zero h hx => exact ⟨_, by rw [decodeFrom_done hw (.zero h hx)], by simp⟩
  | labelLong h hx hlo hhi hlong => exact ⟨0, by rw [decodeFrom_done hw (.labelLong h hx hlo hhi hlong)], by simp⟩
  | label hl hx hfit _ ih =>
    rw [decodeFrom_next hw (.label hl hx hfit)]
    apply ih hw
    simp [appendLabel_eq_nil, ← hd, imp_iff_not_or]
  | selfPointer h hp => exact ⟨_, by rw [decodeFrom_done hw (.selfPointer h hp)], by simp⟩
  | tooDeep h hp hne => exact ⟨0, by rw [decodeFrom_done hw (.pointerFail h hp hne rfl)], by simp⟩
  | @refusedTarget levels b w a pos text h hp hne _ ih =>
    obtain ⟨k, hret, hk⟩ := @ih [] (sub64_lt n pos) (by simp)
    obtain rfl : k = 0 := by simpa using hk
    have hret : (below m n (levels + 1) pos (sub64 n pos)).ret = some 0 := hret
    exact ⟨0, by rw [decodeFrom_done hw (.pointerFail h hp hne hret)], by simp⟩
  | @firstTarget levels b w a pos h hp hne _ ih =>
    obtain ⟨k, hret, hk⟩ := @ih [] (sub64_lt n pos) (by simp)
    have hret : (below m n (levels + 1) pos (sub64 n pos)).ret = some k := hret
    have hnil : domain = [] := by simpa using hd
    exact ⟨_, by rw [decodeFrom_done hw (.pointerFirst h hp hne hret (hk.1 rfl) hnil)], by simp⟩
  | @joinTarget levels b w a pos taken h hp hne _ _ ih ihrest =>
    obtain ⟨k, hret, hk⟩ := @ih [] (sub64_lt n pos) (by simp)
    have hret : (below m n (levels + 1) pos (sub64 n pos)).ret = some k := hret
    rw [decodeFrom_next hw (.pointerJoin h hp hne hret (hk.1 rfl) (hd.2 rfl))]
    exact ihrest hw (by simp)

/-- The decoder returns nothing for the bytes that are refused, and for no others. -/
theorem ret_eq_zero_iff (hw : w < 2 ^ 64) : (parseDomain m n b w []).ret = some 0 ↔ Refused m n b w := by
  constructor
  · intro h
    exact leadsTo_of_ret hw h
  · intro h
    obtain ⟨k, hret, hk⟩ := @ret_of_leadsTo _ _ _ _ _ _ [] _ _ hw h (by simp)
    obtain rfl : k = 0 := by simpa using hk
    exact hret

end LeadsTo

/-- **Refusal**: bytes without a whole name are returned as invalid iff they are refused. -/
theorem parse_refuses_iff (m : Bytes) (n b w : Nat) (hw : w < 2 ^ 64) :
    (¬Whole m n b w → (parseDomain m n b w []).ret = some 0) ↔ Whole m n b w ∨ Refused m n b w := by
  rw [ret_eq_zero_iff hw, or_iff_not_imp_left]

/-- A label that is cut. -/
theorem parse_refuses_iff_at : (¬Whole [2, 97] 2 0 2 → (parseDomain [2, 97] 2 0 2 []).ret = some 0) ↔
    Whole [2, 97] 2 0 2 ∨ Refused [2, 97] 2 0 2 :=
  parse_refuses_iff [2, 97] 2 0 2 (by decide)

/-- The label `a` with nothing behind it is returned as a name of two bytes. -/
theorem parse_not_refuses : ¬∀ (m : Bytes) (n b w : Nat), w < 2 ^ 64 → ¬Whole m n b w →
    (parseDomain m n b w []).ret = some 0 := by
  intro h
  refine absurd (h [1, 97] 2 0 2 (by decide) ?_) (by decide)
  have hshort : ∀ {ls : List Bytes} {closing : Option Nat}, OwnName.At [1, 97] 0 ⟨ls, closing⟩ →
      labelsLen ls + 1 ≤ 2 → ls = [] := by
    rintro (_ | ⟨l, ls⟩) closing hat hfit
    · rfl
    · have hl := (hat.1 l List.mem_cons_self).1
      simp only [labelsLen] at hfit
      omega
  intro hwhole
  cases hwhole with
  | @plain _ _ ls hat hfit =>
    obtain rfl := hshort hat hfit
    exact absurd hat (by decide)
  | @pointed _ _ pos ls hat hfit hne ht =>
    obtain rfl := hshort hat (by omega)
    obtain ⟨hi, lo, hx, hhi, -⟩ := pointsTo_iff.1 ⟨hat.2.1 pos rfl, hat.2.2⟩
    cases hx
    exact absurd hhi (by decide)

end StDns.Protocol
