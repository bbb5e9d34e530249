import StDns.Lib.BigEndian
import StDns.Protocol.Decoder

/-!
# Integers in messages

`read` and `write` of `byte.h` shift the bytes of an integer in and out of place. They read and write it with the most
significant byte first (`read_iff`, `writeBytes_eq`).
-/

namespace StDns.Protocol

open Lib

/-- The bytes that `st::utils::write` puts down for a `len`-byte integer. -/
def writeBytes (len result : Nat) : Bytes :=
  (List.range len).map fun i => UInt8.ofNat (((0xFF <<< ((len - i - 1) * 8)) &&& result) >>> ((len - i - 1) * 8))

theorem writeBytes_eq (len v : Nat) : writeBytes len v = beBytes len v := by
  have masked : ∀ s v, ((0xFF <<< s) &&& v) >>> s = (v >>> s) % 256 := by
    intro s v
    rw [Nat.shiftRight_and_distrib, Nat.shiftLeft_shiftRight, Nat.and_comm]
    exact Nat.and_two_pow_sub_one_eq_mod (v >>> s) 8
  simp only [writeBytes, masked]
  induction len generalizing v with
  | zero => rfl
  | succ len ih =>
    rw [List.range_succ, List.map_append, beBytes, ← ih]
    congr 1
    · refine List.map_congr_left fun i hi => ?_
      have hi := List.mem_range.1 hi
      have hs : (len + 1 - i - 1) * 8 = 8 + (len - i - 1) * 8 := by omega
      rw [hs, Nat.shiftRight_add, Nat.shiftRight_eq_div_pow v 8]
    · simp

section Read

variable {m : Bytes} {i : Nat}

/-- The first bytes that `read` takes, in their final place. -/
theorem foldlM_read {bs : Bytes} (h : Holds m i bs) : ∀ k ≤ bs.length,
    (List.range k).foldlM
        (fun result j => (m[i + j]?).map fun val => result ||| val.toNat <<< ((bs.length - j - 1) * 8)) 0 =
      some (beNat (bs.take k) <<< ((bs.length - k) * 8))
  | 0, _ => by simp
  | k + 1, hk => by
    have hget : m[i + k]? = some bs[k] := by rw [h.getElem? (by omega), List.getElem?_eq_getElem]
    have hs : (bs.length - k) * 8 = 8 + (bs.length - (k + 1)) * 8 := by omega
    have hs' : (bs.length - k - 1) * 8 = (bs.length - (k + 1)) * 8 := by omega
    rw [List.range_succ, List.foldlM_append, foldlM_read h k (by omega)]
    simp only [Option.bind_eq_bind, Option.bind_some, List.foldlM_cons, List.foldlM_nil, hget, Option.map_some,
      Option.pure_def]
    rw [hs, hs', Nat.shiftLeft_add, ← Nat.shiftLeft_or_distrib, shiftLeft_or_byte,
      List.take_succ_eq_append_getElem (by omega), beNat_append_singleton]

theorem read_eq {bs : Bytes} (h : Holds m i bs) : read m i bs.length = some (beNat bs) := by
  have := foldlM_read h bs.length (Nat.le_refl _)
  simpa [read] using this

/-- A read succeeds only on bytes that are there. -/
theorem length_of_read {k v : Nat} (hk : 0 < k) (h : read m i k = some v) : i + k ≤ m.length := by
  have key : ∀ (k len r : Nat), 0 < k → (List.range k).foldlM
      (fun result j => (m[i + j]?).map fun val => result ||| val.toNat <<< ((len - j - 1) * 8)) 0 = some r →
      i + k ≤ m.length := by
    intro k len r hk h
    obtain ⟨k, rfl⟩ := Nat.exists_eq_succ_of_ne_zero (Nat.pos_iff_ne_zero.1 hk)
    rw [List.range_succ, List.foldlM_append] at h
    simp only [Option.bind_eq_bind, Option.bind_eq_some_iff, List.foldlM_cons, Option.map_eq_some_iff] at h
    obtain ⟨-, -, -, ⟨x, hx, -⟩, -⟩ := h
    have := (List.getElem?_eq_some_iff.1 hx).1
    omega
  exact key k k v hk h

/-- **Integers are read with the most significant byte first.** -/
theorem read_iff {k v : Nat} (hk : 0 < k) :
    read m i k = some v ↔ ∃ bs, Holds m i bs ∧ bs.length = k ∧ beNat bs = v := by
  constructor
  · intro h
    have hle := length_of_read hk h
    have hh : Holds m i ((m.drop i).take k) := List.take_prefix k _
    have hlen : ((m.drop i).take k).length = k := by rw [List.length_take, List.length_drop]; omega
    have hr := read_eq hh
    rw [hlen, h] at hr
    exact ⟨_, hh, hlen, (Option.some.inj hr).symm⟩
  · rintro ⟨bs, hh, rfl, rfl⟩
    exact read_eq hh

theorem read_lt {k v : Nat} (hk : 0 < k) (h : read m i k = some v) : v < 256 ^ k := by
  obtain ⟨bs, -, rfl, rfl⟩ := (read_iff hk).1 h
  exact beNat_lt bs

/-- A number that was written is read back. -/
theorem read_beBytes {k v : Nat} (hv : v < 256 ^ k) (h : Holds m i (beBytes k v)) : read m i k = some v := by
  have hr := read_eq h
  rwa [length_beBytes, beNat_beBytes_of_lt hv] at hr

/-- Reads see only the bytes they take: more memory changes nothing. -/
theorem read_stable (i k : Nat) : Stable fun m => read m i k :=
  Stable.foldlM
    (f := fun result j m => (m[i + j]?).map fun val => result ||| val.toNat <<< ((k - j - 1) * 8))
    (fun _ j => Stable.map _ (Stable.get (i + j))) (List.range k) 0

end Read

end StDns.Protocol
