import StDns.Lib.Memory
import Mathlib.Data.Nat.Init
import Mathlib.Tactic.Ring

/-!
# Numbers as bytes, most significant first

`beNat` is the number that bytes write, `beBytes k v` writes a number in `k` bytes; the second is undone by the first
up to `256 ^ k` (`beNat_beBytes`).
-/

namespace StDns.Lib

/-- The number that the bytes write. -/
def beNat (bs : Bytes) : Nat := bs.foldl (fun a b => a * 256 + b.toNat) 0

/-- The last `k` bytes of a number. -/
def beBytes : Nat → Nat → Bytes
  | 0, _ => []
  | k + 1, v => beBytes k (v / 256) ++ [UInt8.ofNat (v % 256)]

@[simp] theorem length_beBytes : ∀ (k v : Nat), (beBytes k v).length = k
  | 0, _ => rfl
  | k + 1, v => by rw [beBytes, List.length_append, length_beBytes k, List.length_singleton]

@[simp] theorem beNat_nil : beNat [] = 0 := rfl

theorem beNat_append_singleton (bs : Bytes) (b : UInt8) : beNat (bs ++ [b]) = beNat bs * 256 + b.toNat := by
  simp [beNat, List.foldl_append]

theorem beNat_lt (bs : Bytes) : beNat bs < 256 ^ bs.length := by
  induction bs using List.reverseRecOn with
  | nil => simp
  | append_singleton bs b ih =>
    have hb := b.toNat_lt
    rw [beNat_append_singleton, List.length_append, List.length_singleton, Nat.pow_succ]
    omega

/-- Writing a number and reading it back keeps what fits in the bytes. -/
theorem beNat_beBytes (k v : Nat) : beNat (beBytes k v) = v % 256 ^ k := by
  induction k generalizing v with
  | zero => simp [beBytes, Nat.mod_one]
  | succ k ih =>
    have hb : (UInt8.ofNat (v % 256)).toNat = v % 256 := by rw [UInt8.toNat_ofNat']; omega
    rw [beBytes, beNat_append_singleton, ih, hb, Nat.pow_succ, Nat.mul_comm (256 ^ k), Nat.mod_mul]
    ring

theorem beNat_beBytes_of_lt {k v : Nat} (h : v < 256 ^ k) : beNat (beBytes k v) = v := by
  rw [beNat_beBytes, Nat.mod_eq_of_lt h]

end StDns.Lib
