import StDns.Protocol.DomainExact

/-!
# The length that the decoder returns

A level returns hardly more than its window (`ret_le`). A name that is decoded at all, wherever its pointer goes, is
returned with its own length iff what stands behind its pointer stops the loop (`ret_eq_len_iff`).
-/

namespace StDns.Protocol

open Lib Wire

section Length

variable {m : Bytes} {n levels b w : Nat}

/-- What a level consumes passes its window by one byte at most. -/
theorem ret_le (hw : w < 2 ^ 64) {c : Cursor} (hc : c.actualLen ≤ w + 1) {k : Nat}
    (h : (decodeFrom m n levels b w c).ret = some k) : k ≤ w + 1 := by
  revert k
  refine decodeFrom_rule hw (I := fun c => c.actualLen ≤ w + 1) (Q := fun r => ∀ {k}, r.ret = some k → k ≤ w + 1) ?_ ?_
    c hc
  · intro c c' hI h
    cases h with
    | label => simp only; omega
    | pointerJoin => simp only; omega
  · intro c r hI h k hr
    cases h with
    | windowEnd => cases hr; exact hI
    | zero => cases hr; omega
    | reserved => cases hr; omega
    | labelLong => cases hr; omega
    | selfPointer => cases hr; omega
    | pointerFail => cases hr; omega
    | pointerFirst => cases hr; omega
    | _ => cases hr

/-- **Own length**: a name that the decoder accepts is returned with its own length iff a pointer that follows text,
and is not the name's pointer to itself, has something behind it that stops the loop. -/
theorem ret_eq_len_iff {o : OwnName} (hw : w < 2 ^ 64) (hat : o.At m b) (hcov : o.len ≤ w) {k : Nat}
    (h : (parseRe m n (levels + 1) b w []).ret = some k) (hk : k ≠ 0) :
    k = o.len ↔ ∀ pos ∈ o.pointer, pos ≠ b → HasText o.labels → StopsAt m (b + w) (b + o.len) := by
  obtain ⟨ls, pointer⟩ := o
  obtain ⟨hok, hpos, hh⟩ := hat
  simp only [OwnName.bytes, holds_append, length_labelBytes, OwnName.len] at hok hpos hh hcov ⊢
  have hcl := OwnName.closing_length_pos ⟨ls, pointer⟩
  rw [parseRe_succ, decodeFrom_labels hw hok (by simpa using hh.1) (by omega), Nat.zero_add] at h
  change (decodeFrom m n levels b w ⟨labelsLen ls, decodedLabels ls⟩).ret = some k at h
  cases pointer with
  | none =>
    simp only [OwnName.closing, holds_cons, List.length_cons, List.length_nil] at hh hcov ⊢
    rw [decodeFrom_done hw (.zero (show labelsLen ls < w by omega) hh.2.1)] at h
    simp only [Option.some.injEq] at h
    simp [h]
  | some pos =>
    simp only [OwnName.closing, length_pointerBytes] at hh hcov ⊢
    have hp : PointsTo m (b + labelsLen ls) pos := ⟨hpos pos rfl, hh.2⟩
    have haw : labelsLen ls < w := by omega
    by_cases hself : pos = b
    · subst hself
      rw [decodeFrom_done hw (.selfPointer haw hp)] at h
      simp only [Option.some.injEq] at h
      simp [h]
    · have hiff : (∀ p ∈ some pos, p ≠ b → HasText ls → StopsAt m (b + w) (b + (labelsLen ls + 2))) ↔
          (HasText ls → StopsAt m (b + w) (b + (labelsLen ls + 2))) := by simp [hself]
      rw [hiff]
      cases hr : (below m n levels pos (sub64 n pos)).ret with
      | none =>
        rw [decodeFrom_done hw (.pointerFault haw hp hself hr)] at h
        cases h
      | some j =>
        by_cases hj : j = 0
        · subst hj
          rw [decodeFrom_done hw (.pointerFail haw hp hself hr)] at h
          exact absurd (Option.some.inj h).symm hk
        · by_cases hd : decodedLabels ls = []
          · rw [decodeFrom_done hw (.pointerFirst haw hp hself hr hj hd)] at h
            have ht : ¬HasText ls := fun ht => decodedLabels_ne_nil.2 ht hd
            simp only [Option.some.injEq] at h
            simp [h, ht]
          · rw [decodeFrom_next hw (.pointerJoin haw hp hself hr hj hd)] at h
            have ht : HasText ls := decodedLabels_ne_nil.1 hd
            rw [ret_eq_iff_stopsAt hw (by simp) h hk]
            exact ⟨fun hs _ => hs, fun hs => hs ht⟩

end Length

end StDns.Protocol
