import StDns.Store.Transform

/-!
# The order of the addresses

`dns_ip_record::compare` compares ranks, so it is a strict weak order, which `std::sort` asks for; and a list is sorted
by it iff the matching addresses come first, among them and among the others those that are not forbidden, and among
these those of the earlier servers (`compare_sorts`).
-/

namespace StDns.Store

namespace DnsIpRecord

/-- `a` may stand in front of `b`: if only one of them matches it is `a`, otherwise if only one is forbidden it is `b`,
and otherwise the server of `a` is not behind that of `b`. -/
def InFrontOf (a b : DnsIpRecord) : Prop :=
  (b.matchArea = true → a.matchArea = true) ∧ (a.matchArea = b.matchArea →
    (a.forbid = true → b.forbid = true) ∧ (a.forbid = b.forbid → a.serverOrder ≤ b.serverOrder))

variable {a b : DnsIpRecord}

theorem rank_le_iff : a.rank ≤ b.rank ↔ a.InFrontOf b := by
  have ha := a.serverOrder.toNat_lt
  have hb := b.serverOrder.toNat_lt
  unfold rank InFrontOf
  rw [UInt8.le_iff_toNat_le]
  cases a.matchArea <;> cases b.matchArea <;> cases a.forbid <;> cases b.forbid <;> simp <;> omega

/-- What does not compare below another element may stand behind it. -/
theorem not_compare_iff : ¬b.compare a = true ↔ a.InFrontOf b := by
  rw [compare_iff, Nat.not_lt, rank_le_iff]

/-- The ranks of elements of which neither is below the other. -/
theorem rank_eq_iff : ¬a.compare b = true ∧ ¬b.compare a = true ↔ a.rank = b.rank := by
  rw [compare_iff, compare_iff, Nat.not_lt, Nat.not_lt]
  exact ⟨fun h => Nat.le_antisymm h.2 h.1, fun h => ⟨h.ge, h.le⟩⟩

/-- **The order** is a strict weak one, and a list is sorted by it iff each element may stand in front of those behind
it. -/
theorem compare_sorts :
    (∀ a : DnsIpRecord, ¬a.compare a = true) ∧
    (∀ a b : DnsIpRecord, a.compare b = true → ¬b.compare a = true) ∧
    (∀ a b c : DnsIpRecord, a.compare b = true → b.compare c = true → a.compare c = true) ∧
    (∀ a b c : DnsIpRecord, ¬a.compare b = true ∧ ¬b.compare a = true → ¬b.compare c = true ∧ ¬c.compare b = true →
      ¬a.compare c = true ∧ ¬c.compare a = true) ∧
    ∀ items : List DnsIpRecord, (items.Pairwise fun a b => ¬b.compare a = true) ↔ items.Pairwise InFrontOf := by
  refine ⟨fun a h => ?_, fun a b hab hba => ?_, fun a b c hab hbc => ?_, fun a b c hab hbc => ?_, fun items => ?_⟩
  · exact Nat.lt_irrefl _ ((compare_iff a a).1 h)
  · exact Nat.lt_asymm ((compare_iff a b).1 hab) ((compare_iff b a).1 hba)
  · exact (compare_iff a c).2 (((compare_iff a b).1 hab).trans ((compare_iff b c).1 hbc))
  · exact rank_eq_iff.2 ((rank_eq_iff.1 hab).trans (rank_eq_iff.1 hbc))
  · exact ⟨fun h => h.imp not_compare_iff.1, fun h => h.imp not_compare_iff.2⟩

end DnsIpRecord

end StDns.Store
