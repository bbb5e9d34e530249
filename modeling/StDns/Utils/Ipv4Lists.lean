import StDns.Utils.Ipv4

/-!
# Lists of addresses as texts

`ips_to_str` puts a comma behind the text of every address and leaves out the last one; `str_to_ips` splits at the
commas and drops what is read as 0. So a list comes back without its zeros (`strToIps_ipsToStr`).
-/

namespace StDns.Utils

open Lib

/-- `str_to_ips`; nothing when `stoi` throws. -/
def strToIps (ipStr : Bytes) : Option (List UInt32) := do
  let ips ← (split ipStr comma).mapM strToIp
  return ips.filter (0 < ·)

section Lists

variable (ip : UInt32) (ips : List UInt32)

theorem comma_notMem_ipToStr : comma ∉ ipToStr ip := notMem_ipToStr rfl (by decide)

theorem ipToStr_ne_nil : ipToStr ip ≠ [] := List.append_ne_nil_of_right_ne_nil _ (List.cons_ne_nil _ _)

@[simp] theorem ipsToStr_singleton : ipsToStr [ip] = ipToStr ip := by simp [ipsToStr]

/-- In front of another address stands a comma. -/
theorem ipsToStr_cons_cons (next : UInt32) :
    ipsToStr (ip :: next :: ips) = ipToStr ip ++ comma :: ipsToStr (next :: ips) := by
  have hrest : (next :: ips).flatMap (fun ip => ipToStr ip ++ [comma]) ≠ [] := by simp
  rw [ipsToStr, List.flatMap_cons, List.dropLast_append_of_ne_nil hrest, List.append_assoc, List.singleton_append]
  rfl

/-- The pieces between the commas are the texts of the addresses. -/
theorem split_ipsToStr : split (ipsToStr ips) comma = ips.map ipToStr := by
  induction ips with
  | nil => rfl
  | cons ip ips ih =>
    cases ips with
    | nil =>
      rw [ipsToStr_singleton, split_of_ne_nil (ipToStr_ne_nil ip),
        List.splitOn_eq_singleton (comma_notMem_ipToStr ip)]
      rfl
    | cons next ips =>
      have hne : ipsToStr (next :: ips) ≠ [] := by
        intro hnil
        rw [hnil, split_nil] at ih
        cases ih
      rw [ipsToStr_cons_cons, split_append_cons (comma_notMem_ipToStr ip), ← split_of_ne_nil hne, ih]
      rfl

theorem mapM_ipToStr : (ips.map ipToStr).mapM strToIp = some ips := by
  induction ips with
  | nil => rfl
  | cons ip ips ih =>
    rw [List.map_cons, List.mapM_cons, strToIp_ipToStr, ih]
    rfl

end Lists

/-- **A list of addresses** that is written and read loses its zeros and nothing else, and an address that is written
and read is the same. -/
theorem strToIps_ipsToStr :
    (∀ ips : List UInt32, strToIps (ipsToStr ips) = some (ips.filter (· ≠ 0))) ∧
      ∀ ip : UInt32, strToIp (ipToStr ip) = some ip := by
  refine ⟨fun ips => ?_, strToIp_ipToStr⟩
  have hzero : ∀ ip : UInt32, decide (0 < ip) = decide (ip ≠ 0) := by
    intro ip
    rw [decide_eq_decide, UInt32.lt_iff_toNat_lt, ne_eq, ← UInt32.toNat_inj]
    exact Nat.pos_iff_ne_zero
  simp only [strToIps, split_ipsToStr, mapM_ipToStr, Option.bind_eq_bind, Option.bind_some, Option.pure_def, hzero]

end StDns.Utils
