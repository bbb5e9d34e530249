import StDns.Utils.Strings

/-!
# Addresses as texts

`ip_to_str` and `str_to_ip` of `ipv4.h`. The reader takes numbers from the start of what is behind each dot, and ends
where the text does; four numbers of at most 255 with dots between them are read as their address
(`DottedQuad.strToIp`), and so is the text of an address (`strToIp_ipToStr`).
-/

namespace StDns.Utils

open Lib

/-- The character `.`. -/
def point : UInt8 := 46

/-- `ip_to_str`. -/
def ipToStr (ip : UInt32) : Bytes :=
  decimal ((ip &&& 0xFF000000) >>> 24).toNat ++ point :: (decimal ((ip &&& 0x00FF0000) >>> 16).toNat ++ point ::
    (decimal ((ip &&& 0x0000FF00) >>> 8).toNat ++ point :: decimal (ip &&& 0x000000FF).toNat))

/-- `ips_to_str`. -/
def ipsToStr (ips : List UInt32) : Bytes := (ips.flatMap fun ip => ipToStr ip ++ [comma]).dropLast

/-- The rounds of `str_to_ip` that are left, the last of which has no dot behind its number. The number of a round is
looked for in what is behind `lastPos`, cut off after as many bytes as there are before the dot in the whole text. -/
def strToIpFrom (ipStr : Bytes) : Nat → Nat → UInt32 → Option UInt32
  | 0, _, ip => some ip
  | rounds + 1, lastPos, ip =>
    if lastPos < ipStr.length then
      match (ipStr.drop lastPos).findIdx? (· = point) with
      | none => if rounds = 0 then segment (ipStr.drop lastPos) fun ipSeg => some (ip ||| ipSeg) else some 0
      | some n =>
        if rounds = 0 then some 0
        else segment ((ipStr.drop lastPos).take (lastPos + n)) fun ipSeg =>
          strToIpFrom ipStr rounds (lastPos + n + 1) (ip ||| ipSeg <<< (8 * UInt32.ofNat rounds))
    else some ip
where
  /-- One number, which is to begin with a digit and not to be over 255. -/
  segment (numStr : Bytes) (next : UInt32 → Option UInt32) : Option UInt32 :=
    match numStr with
    | [] => some 0
    | c :: _ =>
      if isDigit c then do
        let ipSeg := UInt32.ofInt (← stoi numStr)
        if ipSeg > 255 then return 0 else next ipSeg
      else some 0

/-- `str_to_ip`; nothing when `stoi` throws. -/
def strToIp (ipStr : Bytes) : Option UInt32 := strToIpFrom ipStr 4 0 0

/-! ## Four numbers with dots between them -/

/-- A decimal number of at most 255. -/
structure Octet (text : Bytes) : Prop where
  ne_nil : text ≠ []
  digits : ∀ c ∈ text, isDigit c = true
  le : digitsValue text ≤ 255

/-- The address of four numbers. -/
def quad (a b c d : Nat) : UInt32 := UInt32.ofNat (((a * 256 + b) * 256 + c) * 256 + d)

/-- The text writes the address with four numbers. -/
def DottedQuad (text : Bytes) (ip : UInt32) : Prop :=
  ∃ a b c d, Octet a ∧ Octet b ∧ Octet c ∧ Octet d ∧ text = a ++ point :: (b ++ point :: (c ++ point :: d)) ∧
    ip = quad (digitsValue a) (digitsValue b) (digitsValue c) (digitsValue d)

section Quad

variable {digits rest ipStr text : Bytes} {rounds lastPos : Nat} {ip : UInt32} {next : UInt32 → Option UInt32}

theorem isDigit_point : isDigit point = false := rfl

theorem Octet.findIdx?_eq_none (h : Octet digits) : digits.findIdx? (· = point) = none := by
  rw [List.findIdx?_eq_none_iff]
  intro c hc
  have hdigit := h.digits c hc
  rw [decide_eq_false_iff_not]
  rintro rfl
  rw [isDigit_point] at hdigit
  cases hdigit

/-- A number is read whatever is behind it, unless that goes on with digits. -/
theorem Octet.segment (h : Octet digits) (hrest : ∀ c ∈ rest.head?, isDigit c = false) :
    strToIpFrom.segment (digits ++ rest) next = next (UInt32.ofNat (digitsValue digits)) := by
  have hle := h.le
  have hread := stoi_digits h.ne_nil h.digits hrest (by omega)
  have hseg : UInt32.ofInt (digitsValue digits : Int) = UInt32.ofNat (digitsValue digits) := by
    rw [UInt32.ofInt]
    congr 1
    omega
  have hsmall : ¬UInt32.ofNat (digitsValue digits) > 255 := by
    rw [gt_iff_lt, UInt32.lt_iff_toNat_lt, UInt32.toNat_ofNat', Nat.mod_eq_of_lt (by omega)]
    exact Nat.not_lt.2 hle
  cases hdigits : digits with
  | nil => exact absurd hdigits h.ne_nil
  | cons c digits' =>
    have hc : isDigit c = true := h.digits c (by rw [hdigits]; exact List.mem_cons_self)
    rw [hdigits, List.cons_append] at hread
    simp only [List.cons_append, strToIpFrom.segment, hc, if_true, hread, Option.bind_eq_bind, Option.bind_some]
    rw [hdigits] at hseg hsmall
    rw [hseg, if_neg hsmall]

/-- A byte goes in front of the `k` that are still zero. -/
theorem ofNat_or_shiftLeft {n b k : Nat} (hb : b < 256) (hk : k < 4) :
    UInt32.ofNat (n <<< (8 * (k + 1))) ||| UInt32.ofNat b <<< (8 * UInt32.ofNat k) =
      UInt32.ofNat ((n * 256 + b) <<< (8 * k)) := by
  have hshift : (8 * UInt32.ofNat k) = UInt32.ofNat (8 * k) := by rw [UInt32.ofNat_mul]; rfl
  have hbyte : n * 256 + b = n <<< 8 ||| b := by
    rw [← Nat.shiftLeft_add_eq_or_of_lt hb, Nat.shiftLeft_eq]
  rw [hshift, ← UInt32.ofNat_shiftLeft b (8 * k) (by omega), ← UInt32.ofNat_or, hbyte, Nat.shiftLeft_or_distrib,
    ← Nat.shiftLeft_add, Nat.mul_succ, Nat.add_comm]

/-- **A round** with a dot behind the number goes on behind the dot. -/
theorem strToIpFrom_point (h : Octet digits) (hrounds : 0 < rounds ∧ rounds < 4)
    (hdrop : ipStr.drop lastPos = digits ++ point :: rest) :
    ipStr.drop (lastPos + digits.length + 1) = rest ∧ ∀ n,
      strToIpFrom ipStr (rounds + 1) lastPos (UInt32.ofNat (n <<< (8 * (rounds + 1)))) =
        strToIpFrom ipStr rounds (lastPos + digits.length + 1)
          (UInt32.ofNat ((n * 256 + digitsValue digits) <<< (8 * rounds))) := by
  have hlt : lastPos < ipStr.length := by
    by_contra hge
    rw [List.drop_eq_nil_of_le (by omega)] at hdrop
    simp at hdrop
  have hfind : (digits ++ point :: rest).findIdx? (· = point) = some digits.length := by
    rw [List.findIdx?_append, h.findIdx?_eq_none, List.findIdx?_cons]
    simp
  have htake : (digits ++ point :: rest).take (lastPos + digits.length) = digits ++ (point :: rest).take lastPos := by
    rw [List.take_append, List.take_of_length_le (by omega), Nat.add_sub_cancel]
  constructor
  · rw [Nat.add_assoc, ← List.drop_drop, hdrop, ← List.drop_drop, List.drop_left]
    rfl
  · intro n
    have hle := h.le
    simp only [strToIpFrom, if_pos hlt, hdrop, hfind, if_neg (Nat.pos_iff_ne_zero.1 hrounds.1), htake]
    rw [h.segment, ofNat_or_shiftLeft (by omega) hrounds.2]
    intro c hc
    cases lastPos with
    | zero => simp at hc
    | succ n =>
      rw [List.take_succ_cons, List.head?_cons, Option.mem_some_iff] at hc
      rw [← hc]
      exact isDigit_point

/-- **The last round** takes what is left. -/
theorem strToIpFrom_last (h : Octet digits) (hdrop : ipStr.drop lastPos = digits) (n : Nat) :
    strToIpFrom ipStr 1 lastPos (UInt32.ofNat (n <<< 8)) = some (UInt32.ofNat (n * 256 + digitsValue digits)) := by
  have hle := h.le
  have hlt : lastPos < ipStr.length := by
    by_contra hge
    rw [List.drop_eq_nil_of_le (by omega)] at hdrop
    exact h.ne_nil hdrop.symm
  have hseg := @Octet.segment digits [] (fun ipSeg => some (UInt32.ofNat (n <<< 8) ||| ipSeg)) h
    fun c hc => absurd hc (by simp)
  rw [List.append_nil] at hseg
  simp only [strToIpFrom, if_pos hlt, hdrop, h.findIdx?_eq_none, if_true]
  rw [hseg, ← UInt32.ofNat_or, ← Nat.shiftLeft_add_eq_or_of_lt (by omega), Nat.shiftLeft_eq]

/-- **Reading** four numbers with dots between them gives their address. -/
theorem DottedQuad.strToIp (h : DottedQuad text ip) : strToIp text = some ip := by
  obtain ⟨a, b, c, d, ha, hb, hc, hd, htext, rfl⟩ := h
  obtain ⟨hdrop, hround₁⟩ := @strToIpFrom_point a _ text 3 0 ha (by omega) htext
  obtain ⟨hdrop, hround₂⟩ := @strToIpFrom_point b _ text 2 _ hb (by omega) hdrop
  obtain ⟨hdrop, hround₃⟩ := @strToIpFrom_point c _ text 1 _ hc (by omega) hdrop
  have hlast := strToIpFrom_last hd hdrop
  have hread := (hround₁ 0).trans ((hround₂ _).trans ((hround₃ _).trans (hlast _)))
  rw [Nat.zero_shiftLeft, Nat.zero_mul, Nat.zero_add] at hread
  exact hread

/-! ## The text of an address -/

theorem toNat_byte {mask shift : UInt32} (hshift : shift.toNat < 32) (h : mask.toNat >>> shift.toNat = 2 ^ 8 - 1)
    (ip : UInt32) : ((ip &&& mask) >>> shift).toNat = ip.toNat / 2 ^ shift.toNat % 256 := by
  rw [UInt32.toNat_shiftRight, UInt32.toNat_and, Nat.mod_eq_of_lt hshift, Nat.shiftRight_and_distrib, h,
    Nat.and_two_pow_sub_one_eq_mod, Nat.shiftRight_eq_div_pow]

theorem octet_decimal {n : Nat} (h : n ≤ 255) : Octet (decimal n) :=
  ⟨decimal_ne_nil n, fun _ => isDigit_of_mem_decimal, by rwa [digitsValue_decimal]⟩

/-- The text of an address, in terms of its number. -/
theorem ipToStr_eq (ip : UInt32) : ipToStr ip = decimal (ip.toNat / 2 ^ 24 % 256) ++ point ::
    (decimal (ip.toNat / 2 ^ 16 % 256) ++ point :: (decimal (ip.toNat / 2 ^ 8 % 256) ++ point ::
      decimal (ip.toNat % 256))) := by
  have h3 : ((ip &&& 0xFF000000) >>> 24).toNat = ip.toNat / 2 ^ 24 % 256 := toNat_byte (by decide) (by decide) ip
  have h2 : ((ip &&& 0x00FF0000) >>> 16).toNat = ip.toNat / 2 ^ 16 % 256 := toNat_byte (by decide) (by decide) ip
  have h1 : ((ip &&& 0x0000FF00) >>> 8).toNat = ip.toNat / 2 ^ 8 % 256 := toNat_byte (by decide) (by decide) ip
  have h0 : (ip &&& 0x000000FF).toNat = ip.toNat % 256 := Nat.and_two_pow_sub_one_eq_mod ip.toNat 8
  rw [ipToStr, h3, h2, h1, h0]

/-- The text of an address has four numbers with dots between them. -/
theorem dottedQuad_ipToStr (ip : UInt32) : DottedQuad (ipToStr ip) ip := by
  refine ⟨_, _, _, _, octet_decimal ?_, octet_decimal ?_, octet_decimal ?_, octet_decimal ?_, ipToStr_eq ip, ?_⟩
  · omega
  · omega
  · omega
  · omega
  · have hlt := ip.toNat_lt
    simp only [digitsValue_decimal]
    rw [quad, ← UInt32.toNat_inj, UInt32.toNat_ofNat']
    omega

/-- **The text of an address** is read as the address. -/
theorem strToIp_ipToStr (ip : UInt32) : strToIp (ipToStr ip) = some ip := (dottedQuad_ipToStr ip).strToIp

/-- The text of an address has digits and dots. -/
theorem isDigit_or_of_mem_ipToStr {ip : UInt32} {c : UInt8} (h : c ∈ ipToStr ip) : isDigit c = true ∨ c = point := by
  simp only [ipToStr, List.mem_append, List.mem_cons] at h
  rcases h with h | rfl | h | rfl | h | rfl | h
  · exact .inl (isDigit_of_mem_decimal h)
  · exact .inr rfl
  · exact .inl (isDigit_of_mem_decimal h)
  · exact .inr rfl
  · exact .inl (isDigit_of_mem_decimal h)
  · exact .inr rfl
  · exact .inl (isDigit_of_mem_decimal h)

theorem notMem_ipToStr {ip : UInt32} {c : UInt8} (hdigit : isDigit c = false) (hpoint : c ≠ point) :
    c ∉ ipToStr ip := by
  intro h
  rcases isDigit_or_of_mem_ipToStr h with h | h
  · rw [hdigit] at h
    cases h
  · exact hpoint h

theorem length_ipToStr_le (ip : UInt32) : (ipToStr ip).length ≤ 15 := by
  have hbyte : ∀ n, (decimal (n % 256)).length ≤ 3 := fun n => length_decimal_le (by omega) (by omega)
  have hle3 := hbyte (ip.toNat / 2 ^ 24)
  have hle2 := hbyte (ip.toNat / 2 ^ 16)
  have hle1 := hbyte (ip.toNat / 2 ^ 8)
  have hle0 := hbyte ip.toNat
  simp only [ipToStr_eq, List.length_append, List.length_cons]
  omega

end Quad

end StDns.Utils
