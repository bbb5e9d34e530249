import StDns.Area.NetCaches

/-!
# Lines of an area file

`area_ip_range::parse` takes a line `a.b.c.d/p` for the `2 ^ (32 - p)` addresses from `a.b.c.d` on. That are the
addresses with the first `p` bits of `a.b.c.d` when these are all that is set in it and `p` is not 0. A line without a
slash is taken whole for the number behind the slash (`parse_exact_iff`).
-/

namespace StDns.Area

open Lib Utils

/-- The character `/`. -/
def slash : UInt8 := 47

/-- `area_ip_range` with its area. -/
structure AreaRange extends AreaIpRange where
  area : Bytes
  deriving DecidableEq

/-- `atoi`: the number that a text begins with, 0 when there is none; nothing when it is no `int`. -/
def atoi (text : Bytes) : Option Int :=
  let (negative, text) := splitSign ((cString text).dropWhile isSpace)
  let digits := text.takeWhile isDigit
  let n : Int := if negative then -digitsValue digits else digitsValue digits
  if -2 ^ 31 ≤ n ∧ n < 2 ^ 31 then some n else none

/-- `1 << n` for an `int`, as a `uint32_t`; nothing when `n` is negative or not below 32, where it is undefined. -/
def shiftOne (n : Int) : Option UInt32 := if 0 ≤ n ∧ n < 32 then some (1 <<< UInt32.ofNat n.toNat) else none

section Parse

variable (rangeStr : Bytes)

/-- What `parse` takes for the number of bits: what is behind the slash, or all when there is none, since `npos + 1` is
0. -/
def maskText : Bytes :=
  match rangeStr.findIdx? (· = slash) with
  | some index => rangeStr.drop (index + 1)
  | none => rangeStr

/-- The variable `ipNum` of `parse`. -/
def ipNum : Option UInt32 := do shiftOne (32 - (← atoi (maskText rangeStr)))

/-- What `parse` takes for the address. -/
def startText : Bytes :=
  match rangeStr.findIdx? (· = slash) with
  | some index => rangeStr.take index
  | none => rangeStr

/-- `area_ip_range::parse`; nothing when `stoi` throws or the shift is undefined. -/
def AreaRange.parse (area : Bytes) : Option AreaRange := do
  let start ← strToIp (startText rangeStr)
  let ipNum ← ipNum rangeStr
  return { start := start, «end» := start + ipNum - 1, area := area }

end Parse

/-- The loop of `load_area_ips` over the lines of a file. -/
def loadRanges (content area : Bytes) : Option (List AreaRange) :=
  (fileLines content).mapM fun line => AreaRange.parse line area

/-! ## What a line is for -/

/-- A line `a.b.c.d/p`. -/
def Cidr (line : Bytes) (base : UInt32) (p : Nat) : Prop :=
  ∃ text digits, DottedQuad text base ∧ digits ≠ [] ∧ (∀ c ∈ digits, isDigit c = true) ∧ digitsValue digits = p ∧
    p ≤ 32 ∧ line = text ++ slash :: digits

/-- The first `p` bits are the same. -/
def SameBits (p : Nat) (ip ip' : UInt32) : Prop := ip.toNat / 2 ^ (32 - p) = ip'.toNat / 2 ^ (32 - p)

/-- The test of `is_area_ip`. -/
def AreaIpRange.Has (r : AreaIpRange) (ip : UInt32) : Prop := r.start ≤ ip ∧ ip ≤ r.end

/-- Behind the first `p` bits none is set. -/
def Aligned (base : UInt32) (p : Nat) : Prop := 2 ^ (32 - p) ∣ base.toNat

/-- The sum in `parse` stays below `2 ^ 32`. -/
def NoWrap (rangeStr : Bytes) (r : AreaRange) : Prop :=
  ∃ num, ipNum rangeStr = some num ∧ r.start.toNat + num.toNat < 2 ^ 32

section Lines

variable {line text digits area : Bytes} {base ip : UInt32} {p : Nat} {r : AreaRange}

theorem slash_notMem_digits (h : ∀ c ∈ digits, isDigit c = true) : slash ∉ digits := by
  intro hmem
  have hdigit := h _ hmem
  cases hdigit

theorem slash_notMem_quad (h : DottedQuad text base) : slash ∉ text := by
  obtain ⟨a, b, c, d, ha, hb, hc, hd, rfl, -⟩ := h
  have hpoint : slash ≠ point := by decide
  simp only [List.mem_append, List.mem_cons, hpoint, false_or, not_or]
  exact ⟨slash_notMem_digits ha.digits, slash_notMem_digits hb.digits, slash_notMem_digits hc.digits,
    slash_notMem_digits hd.digits⟩

theorem findIdx?_slash (h : slash ∉ text) : text.findIdx? (· = slash) = none := by
  rw [List.findIdx?_eq_none_iff]
  exact fun c hc => decide_eq_false fun e => h (e ▸ hc)

/-- The two parts of a line with a slash. -/
theorem parts_of_slash (h : slash ∉ text) : startText (text ++ slash :: digits) = text ∧
    maskText (text ++ slash :: digits) = digits := by
  have hfind : (text ++ slash :: digits).findIdx? (· = slash) = some text.length := by
    rw [List.findIdx?_append, findIdx?_slash h, List.findIdx?_cons]
    simp
  constructor
  · rw [startText, hfind]
    exact List.take_left
  · rw [maskText, hfind]
    change (text ++ slash :: digits).drop (text.length + 1) = digits
    rw [← List.drop_drop, List.drop_left]
    rfl

/-- A line without a slash is taken for both. -/
theorem parts_of_no_slash (h : slash ∉ line) : startText line = line ∧ maskText line = line := by
  rw [startText, maskText, findIdx?_slash h]
  exact ⟨rfl, rfl⟩

/-- A number of digits with something else behind it. -/
theorem atoi_digits {rest : Bytes} (hne : digits ≠ []) (hdigits : ∀ c ∈ digits, isDigit c = true)
    (hrest : ∀ c ∈ rest.head?, isDigit c = false) (h : digitsValue digits < 2 ^ 31) :
    atoi (digits ++ rest) = some (digitsValue digits : Int) := by
  have hzero : ∀ c ∈ digits, decide (c ≠ 0) = true := by
    intro c hc
    have hdigit := hdigits c hc
    rw [decide_eq_true_eq]
    rintro rfl
    cases hdigit
  have hcut : cString (digits ++ rest) = digits ++ cString rest := List.takeWhile_append_of_pos hzero
  have hrest' : ∀ c ∈ (cString rest).head?, isDigit c = false := by
    intro c hc
    cases rest with
    | nil => cases hc
    | cons d rest =>
      rw [cString, List.takeWhile_cons] at hc
      split at hc
      · exact hrest c hc
      · cases hc
  obtain ⟨c, tail, rfl⟩ := List.exists_cons_of_ne_nil hne
  have hdigit : isDigit c = true := hdigits c List.mem_cons_self
  have hskip : (c :: tail ++ cString rest).dropWhile isSpace = c :: (tail ++ cString rest) :=
    List.dropWhile_cons_of_neg (by simp [isSpace_of_isDigit hdigit])
  have htake : (c :: (tail ++ cString rest)).takeWhile isDigit = c :: tail := by
    rw [← List.cons_append, (span_digits hdigits hrest').1]
  simp only [atoi, hcut, hskip, splitSign_of_isDigit hdigit, htake, Bool.false_eq_true, if_false]
  rw [if_pos ⟨by omega, by omega⟩]

theorem shiftOne_eq {n : Nat} (h : n < 32) : ∃ num, shiftOne n = some num ∧ num.toNat = 2 ^ n := by
  refine ⟨1 <<< UInt32.ofNat n, ?_, ?_⟩
  · rw [shiftOne, if_pos ⟨by omega, by omega⟩, Int.toNat_natCast]
  · rw [UInt32.toNat_shiftLeft, UInt32.toNat_ofNat', Nat.mod_eq_of_lt (show n < 2 ^ 32 by omega),
      Nat.mod_eq_of_lt h, Nat.shiftLeft_eq, UInt32.toNat_one, Nat.one_mul,
      Nat.mod_eq_of_lt (Nat.pow_lt_pow_right (by decide) h)]

/-- A shift that is defined is by fewer than 32 places. -/
theorem of_shiftOne {n : Int} {num : UInt32} (h : shiftOne n = some num) :
    ∃ k : Nat, k < 32 ∧ n = k ∧ num.toNat = 2 ^ k := by
  by_cases hn : 0 ≤ n ∧ n < 32
  · obtain ⟨k, rfl⟩ := Int.eq_ofNat_of_zero_le hn.1
    obtain ⟨num', hnum', hpow⟩ := @shiftOne_eq k (by omega)
    rw [h, Option.some.injEq] at hnum'
    exact ⟨k, by omega, rfl, by rw [hnum', hpow]⟩
  · rw [shiftOne, if_neg hn] at h
    cases h

/-- The first number of four. -/
theorem first_of_quad (h : DottedQuad text ip) : ∃ a rest, Octet a ∧ text = a ++ point :: rest ∧
    digitsValue a = ip.toNat / 2 ^ 24 := by
  obtain ⟨a, b, c, d, ha, hb, hc, hd, rfl, rfl⟩ := h
  refine ⟨a, _, ha, rfl, ?_⟩
  have hale := ha.le
  have hble := hb.le
  have hcle := hc.le
  have hdle := hd.le
  rw [quad, UInt32.toNat_ofNat']
  omega

/-- A line with a slash gives nothing for `p = 0`, and otherwise the range from its address on. -/
theorem parse_cidr (h : Cidr line base p) (area : Bytes) : (p = 0 ∧ AreaRange.parse line area = none) ∨
    ∃ num : UInt32, 0 < p ∧ num.toNat = 2 ^ (32 - p) ∧ ipNum line = some num ∧
      AreaRange.parse line area = some { start := base, «end» := base + num - 1, area := area } := by
  obtain ⟨text, digits, hquad, hne, hdigits, rfl, hle, rfl⟩ := h
  obtain ⟨hstart, hmask⟩ := @parts_of_slash text digits (slash_notMem_quad hquad)
  have hatoi : atoi digits = some (digitsValue digits : Int) := by
    have hread := @atoi_digits digits [] hne hdigits (by simp) (by omega)
    rwa [List.append_nil] at hread
  by_cases hzero : digitsValue digits = 0
  · left
    have hnone : ipNum (text ++ slash :: digits) = none := by
      rw [ipNum, hmask, hatoi, hzero]
      rfl
    refine ⟨hzero, ?_⟩
    rw [AreaRange.parse, hstart, hquad.strToIp, hnone]
    rfl
  · right
    obtain ⟨num, hshift, hnum⟩ := @shiftOne_eq (32 - digitsValue digits) (by omega)
    have hsub : (32 - (digitsValue digits : Int)) = ((32 - digitsValue digits : Nat) : Int) := by omega
    have hsome : ipNum (text ++ slash :: digits) = some num := by
      rw [ipNum, hmask, hatoi, Option.bind_eq_bind, Option.bind_some, hsub, hshift]
    refine ⟨num, Nat.pos_of_ne_zero hzero, hnum, hsome, ?_⟩
    rw [AreaRange.parse, hstart, hquad.strToIp, hsome]
    rfl

end Lines

/-! ## The addresses of a line -/

section Ranges

variable {line area : Bytes} {base ip num : UInt32} {p : Nat}

/-- The end of a range that does not wrap. -/
theorem toNat_end (hpos : 0 < num.toNat) (h : base.toNat + num.toNat ≤ 2 ^ 32) :
    (base + num - 1).toNat = base.toNat + num.toNat - 1 := by
  rw [UInt32.toNat_sub, UInt32.toNat_add, UInt32.toNat_one]
  omega

/-- **The range** of a line has the addresses with the same first bits iff it begins at the first of them. -/
theorem has_iff_aligned (hp : p ≤ 32) (hnum : num.toNat = 2 ^ (32 - p)) :
    (∀ ip : UInt32, (base ≤ ip ∧ ip ≤ base + num - 1) ↔ SameBits p ip base) ↔ Aligned base p := by
  have hpos : 0 < 2 ^ (32 - p) := Nat.pow_pos (by decide)
  have hlt := base.toNat_lt
  constructor
  · intro h
    have hle : 2 ^ (32 - p) * (base.toNat / 2 ^ (32 - p)) ≤ base.toNat := Nat.mul_div_le _ _
    -- the first address with the same bits
    have hfirst := (h (UInt32.ofNat (2 ^ (32 - p) * (base.toNat / 2 ^ (32 - p))))).2 (by
      rw [SameBits, UInt32.toNat_ofNat', Nat.mod_eq_of_lt (by omega), Nat.mul_div_cancel_left _ hpos])
    have hbase := hfirst.1
    rw [UInt32.le_iff_toNat_le, UInt32.toNat_ofNat', Nat.mod_eq_of_lt (by omega)] at hbase
    exact ⟨_, Nat.le_antisymm hbase hle⟩
  · rintro ⟨k, hk⟩ ip
    have hall : 2 ^ (32 - p) * 2 ^ p = 2 ^ 32 := by rw [← Nat.pow_add, Nat.sub_add_cancel hp]
    have hkp : k < 2 ^ p := by
      have hmul : 2 ^ (32 - p) * k < 2 ^ (32 - p) * 2 ^ p := by rw [← hk, hall]; exact hlt
      exact Nat.lt_of_mul_lt_mul_left hmul
    have hend : base.toNat + num.toNat ≤ 2 ^ 32 := by
      calc base.toNat + num.toNat = 2 ^ (32 - p) * (k + 1) := by rw [hk, hnum, Nat.mul_succ]
        _ ≤ 2 ^ (32 - p) * 2 ^ p := Nat.mul_le_mul_left _ hkp
        _ = 2 ^ 32 := hall
    rw [UInt32.le_iff_toNat_le, UInt32.le_iff_toNat_le, toNat_end (by omega) hend, SameBits, hk,
      Nat.mul_div_cancel_left _ hpos, hnum, Nat.div_eq_iff hpos, Nat.mul_comm k]

/-- A line without a slash that has an address: its first number is taken for the number of bits. -/
theorem parse_quad (h : DottedQuad line ip) (area : Bytes) :
    ipNum line = shiftOne (32 - (ip.toNat / 2 ^ 24 : Nat)) ∧
      AreaRange.parse line area = (ipNum line).map fun num =>
        { start := ip, «end» := ip + num - 1, area := area } := by
  obtain ⟨a, rest, ha, hline, hvalue⟩ := first_of_quad h
  obtain ⟨hstart, hmask⟩ := parts_of_no_slash (slash_notMem_quad h)
  have hle := ha.le
  have hatoi : atoi line = some (digitsValue a : Int) := by
    rw [hline]
    refine atoi_digits ha.ne_nil ha.digits (fun c hc => ?_) (by omega)
    rw [List.head?_cons, Option.mem_some_iff] at hc
    rw [← hc]
    exact isDigit_point
  constructor
  · rw [ipNum, hmask, hatoi, hvalue]
    rfl
  · rw [AreaRange.parse, hstart, h.strToIp]
    cases ipNum line <;> rfl

/-- A range of addresses that all have one text has one address. -/
theorem quad_of_range (hpos : 0 < num.toNat) (hwrap : base.toNat + num.toNat < 2 ^ 32)
    (h : ∀ ip : UInt32, base ≤ ip ∧ ip ≤ base + num - 1 → DottedQuad line ip) :
    DottedQuad line base ∧ num.toNat = 1 := by
  have hend := toNat_end hpos hwrap.le
  have hfirst : DottedQuad line base := by
    refine h base ⟨UInt32.le_refl _, ?_⟩
    rw [UInt32.le_iff_toNat_le, hend]
    omega
  refine ⟨hfirst, ?_⟩
  by_contra hne
  have hnext : (base + 1).toNat = base.toNat + 1 := by
    rw [UInt32.toNat_add, UInt32.toNat_one]
    omega
  have hsecond : DottedQuad line (base + 1) := by
    refine h _ ⟨?_, ?_⟩
    · rw [UInt32.le_iff_toNat_le, hnext]
      exact Nat.le_succ _
    · rw [UInt32.le_iff_toNat_le, hend, hnext]
      omega
  have hsame := hfirst.strToIp.symm.trans hsecond.strToIp
  rw [Option.some.injEq, ← UInt32.toNat_inj, hnext] at hsame
  omega

/-- A range of one address. -/
theorem eq_of_range_one (h : base ≤ ip ∧ ip ≤ base + 1 - 1) : ip = base := by
  rw [UInt32.add_sub_cancel] at h
  exact UInt32.le_antisymm h.2 h.1

/-- **A line** is taken for nothing but the address that it is iff the number that it begins with is 32. -/
theorem quad_exact_iff :
    (∃ r, AreaRange.parse line area = some r ∧ NoWrap line r ∧ ∀ ip, r.Has ip → DottedQuad line ip) ↔
      ∃ ip, DottedQuad line ip ∧ ip.toNat / 2 ^ 24 = 32 := by
  constructor
  · rintro ⟨r, hparse, ⟨num, hnum, hwrap⟩, hhas⟩
    obtain ⟨start, -, hparse⟩ := Option.bind_eq_some_iff.1 hparse
    rw [hnum] at hparse
    cases hparse
    obtain ⟨_, -, hshift⟩ := Option.bind_eq_some_iff.1 hnum
    obtain ⟨_, -, -, hpow⟩ := of_shiftOne hshift
    obtain ⟨hquad, hone⟩ : DottedQuad line start ∧ num.toNat = 1 :=
      quad_of_range (hpow ▸ Nat.pow_pos (by decide)) hwrap hhas
    -- one address: a shift by 0
    obtain ⟨k, -, hk, hpow'⟩ := of_shiftOne ((parse_quad hquad area).1.symm.trans hnum)
    have hk0 : k = 0 := by
      by_contra hne
      exact (Nat.one_lt_two_pow hne).ne' (hpow'.symm.trans hone)
    exact ⟨start, hquad, by omega⟩
  · rintro ⟨ip, hquad, h32⟩
    obtain ⟨hnum, hparse⟩ := parse_quad hquad area
    have hone : ipNum line = some 1 := by
      rw [hnum, h32]
      rfl
    rw [hone] at hparse
    refine ⟨_, hparse, ⟨1, hone, ?_⟩, fun ip' hip => ?_⟩
    · have hlt := ip.toNat_lt
      change ip.toNat + 1 < 2 ^ 32
      omega
    · rwa [eq_of_range_one hip]

/-- A line with a slash: the range is right, and the sum stays below `2 ^ 32`. -/
theorem cidr_exact_iff (h : Cidr line base p) (area : Bytes) :
    ((∃ r, AreaRange.parse line area = some r ∧ ∀ ip, r.Has ip ↔ SameBits p ip base) ↔ 0 < p ∧ Aligned base p) ∧
      ((∃ r, AreaRange.parse line area = some r ∧ NoWrap line r ∧ ∀ ip, r.Has ip ↔ SameBits p ip base) ↔
        0 < p ∧ Aligned base p ∧ base.toNat + 2 ^ (32 - p) < 2 ^ 32) := by
  have hp : p ≤ 32 := by
    obtain ⟨-, -, -, -, -, -, hle, -⟩ := h
    exact hle
  rcases parse_cidr h area with ⟨rfl, hnone⟩ | ⟨num, hpos, hpow, hnum, hsome⟩
  · simp [hnone]
  · have haligned := @has_iff_aligned base num p hp hpow
    have hwrap : NoWrap line { start := base, «end» := base + num - 1, area := area } ↔
        base.toNat + 2 ^ (32 - p) < 2 ^ 32 := by
      rw [NoWrap, hnum]
      simp [hpow]
    constructor
    · rw [hsome]
      simp only [Option.some.injEq, exists_eq_left', AreaIpRange.Has, haligned, hpos, true_and]
    · rw [hsome]
      simp only [Option.some.injEq, exists_eq_left', hwrap, AreaIpRange.Has, haligned, hpos, true_and]
      exact And.comm

/-- **The lines of an area file**: for a line `a.b.c.d/p` the range has just the addresses with the first `p` bits of
`a.b.c.d` iff `p` is not 0 and `a.b.c.d` has no other bits, and the sum does not wrap either iff moreover the range ends
before the last address. A line without a slash has at most its address iff its first number is 32. -/
theorem parse_exact_iff (area : Bytes) :
    (∀ line base p, Cidr line base p →
      ((∃ r, AreaRange.parse line area = some r ∧ ∀ ip, r.Has ip ↔ SameBits p ip base) ↔ 0 < p ∧ Aligned base p) ∧
      ((∃ r, AreaRange.parse line area = some r ∧ NoWrap line r ∧ ∀ ip, r.Has ip ↔ SameBits p ip base) ↔
        0 < p ∧ Aligned base p ∧ base.toNat + 2 ^ (32 - p) < 2 ^ 32)) ∧
    ∀ line, slash ∉ line →
      ((∃ r, AreaRange.parse line area = some r ∧ NoWrap line r ∧ ∀ ip, r.Has ip → DottedQuad line ip) ↔
        ∃ ip, DottedQuad line ip ∧ ip.toNat / 2 ^ 24 = 32) :=
  ⟨fun _ _ _ h => cidr_exact_iff h area, fun _ _ => quad_exact_iff⟩

/-- The text of an address and a number of bits. -/
theorem cidr_text (base : UInt32) (hp : p ≤ 32) : Cidr (ipToStr base ++ slash :: decimal p) base p :=
  ⟨_, _, dottedQuad_ipToStr base, decimal_ne_nil p, fun _ => isDigit_of_mem_decimal, digitsValue_decimal p, hp, rfl⟩

/-- The lines of a file one by one. -/
theorem mapM_parse {lines : List Bytes}
    (hlines : ∀ line ∈ lines, ∃ base p, Cidr line base p ∧ 0 < p ∧ Aligned base p) :
    ∃ ranges, (lines.mapM fun line => AreaRange.parse line area) = some ranges ∧ ∀ ip,
      (∃ r ∈ ranges, r.Has ip) ↔
        ∃ line ∈ lines, ∃ base p, Cidr line base p ∧ 0 < p ∧ Aligned base p ∧ SameBits p ip base := by
  induction lines with
  | nil => exact ⟨[], rfl, by simp⟩
  | cons line lines ih =>
    obtain ⟨⟨base, p, hcidr, hgood⟩, hrest⟩ := List.forall_mem_cons.1 hlines
    obtain ⟨r, hr, hhas⟩ := (cidr_exact_iff hcidr area).1.2 hgood
    obtain ⟨ranges, hranges, hall⟩ := ih hrest
    refine ⟨r :: ranges, by rw [List.mapM_cons, hr, hranges]; rfl, fun ip => ?_⟩
    rw [List.exists_mem_cons_iff, List.exists_mem_cons_iff, hall]
    refine or_congr_left ⟨fun h => ⟨base, p, hcidr, hgood.1, hgood.2, (hhas ip).1 h⟩, ?_⟩
    -- the line may be read in one way only
    rintro ⟨base', p', hcidr', hpos', haligned', hsame⟩
    obtain ⟨r', hr', hhas'⟩ := (cidr_exact_iff hcidr' area).1.2 ⟨hpos', haligned'⟩
    rw [hr, Option.some.injEq] at hr'
    subst hr'
    exact (hhas' ip).2 hsame

/-- **An area** whose file has such lines only is what the lines say. -/
theorem isAreaIp_loaded (caches : DefaultCaches) {content : Bytes} (area : Bytes)
    (hlines : ∀ line ∈ fileLines content, ∃ base p, Cidr line base p ∧ 0 < p ∧ Aligned base p) :
    ∃ ranges, loadRanges content area = some ranges ∧ ∀ ip,
      isAreaIp area ip (caches.insert area (ranges.map AreaRange.toAreaIpRange)) = true ↔
        ∃ line ∈ fileLines content, ∃ base p, Cidr line base p ∧ 0 < p ∧ Aligned base p ∧ SameBits p ip base := by
  obtain ⟨ranges, hranges, hall⟩ := @mapM_parse area _ hlines
  refine ⟨ranges, hranges, fun ip => ?_⟩
  rw [← hall, isAreaIp, AList.lookup_insert, Option.getD_some, List.any_map, List.any_eq_true]
  simp only [Function.comp_apply, decide_eq_true_eq, AreaIpRange.Has, and_comm]

end Ranges

/-- The line `1.2.3.4` is taken for all addresses from `1.2.3.4` to `129.2.3.3`, and the line `1.2.3.4/0` shifts by
32. -/
example : AreaRange.parse (ascii "1.2.3.4") [] = some { start := 0x01020304, «end» := 0x81020303, area := [] } ∧
    AreaRange.parse (ascii "1.2.3.4/0") [] = none := by decide

/-- The range of `10.0.0.1/8` does not have `10.0.0.0`. -/
theorem parse_host_bits : ¬∀ (area line : Bytes) (base : UInt32) (p : Nat), Cidr line base p →
    ∃ r, AreaRange.parse line area = some r ∧ ∀ ip, r.Has ip ↔ SameBits p ip base := by
  intro h
  have hcidr : Cidr (ipToStr 0x0A000001 ++ slash :: decimal 8) 0x0A000001 8 := cidr_text _ (by decide)
  have haligned := ((cidr_exact_iff hcidr []).1.1 (h [] _ _ _ hcidr)).2
  exact absurd haligned (by unfold Aligned; decide)

end StDns.Area
