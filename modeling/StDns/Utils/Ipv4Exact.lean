import StDns.Utils.Ipv4

/-!
# What `str_to_ip` reads

Four numbers of at most 255 with dots between them are read as their address, and 0 is to stand for any other text. The
loop looks at the first byte of a number only, ends where the text does and has `stoi` read the number, so it takes
texts with something behind their numbers and texts that end with a dot, and throws on a number that is no `int`. It
does what it should on the texts that are none of these (`strToIp_exact_iff`).
-/

namespace StDns.Utils

open Lib

/-! ## Rounds on pieces -/

/-- The number that a piece begins with. -/
def leading (piece : Bytes) : Nat := digitsValue (piece.takeWhile isDigit)

/-- A piece that a round takes: it begins with a number of at most 255, whatever is behind that. -/
structure Taken (piece : Bytes) : Prop where
  ne_nil : piece.takeWhile isDigit ≠ []
  le : leading piece ≤ 255

/-- A piece that begins with a number that is no `int`. -/
structure Excessive (piece : Bytes) : Prop where
  ne_nil : piece.takeWhile isDigit ≠ []
  le : 2 ^ 31 ≤ leading piece

/-- The loop takes the pieces between the dots in the rounds that are left: as many as there are rounds, or fewer in
front of an empty one. -/
inductive Accepts : Nat → List Bytes → Prop
  | done : Accepts 0 []
  | cut (rounds : Nat) : Accepts (rounds + 1) [[]]
  | number {rounds : Nat} {piece : Bytes} {pieces : List Bytes} : Taken piece → (pieces = [] ↔ rounds = 0) →
    Accepts rounds pieces → Accepts (rounds + 1) (piece :: pieces)

/-- The loop comes to a number that is no `int`. -/
inductive Throws : Nat → List Bytes → Prop
  | here {rounds : Nat} {piece : Bytes} {pieces : List Bytes} : Excessive piece → (pieces = [] ↔ rounds = 0) →
    Throws (rounds + 1) (piece :: pieces)
  | later {rounds : Nat} {piece : Bytes} {pieces : List Bytes} : Taken piece → (pieces = [] ↔ rounds = 0) →
    Throws rounds pieces → Throws (rounds + 1) (piece :: pieces)

/-- The rounds that are left, on the pieces between the dots. -/
def readPieces : Nat → List Bytes → UInt32 → Option UInt32
  | 0, _, ip => some ip
  | _ + 1, [], ip => some ip
  | rounds + 1, piece :: pieces, ip =>
    if piece = [] ∧ pieces = [] then some ip
    else if pieces = [] ↔ rounds = 0 then
      strToIpFrom.segment piece fun ipSeg => readPieces rounds pieces (ip ||| ipSeg <<< (8 * UInt32.ofNat rounds))
    else some 0

section Segments

variable {piece rest ipStr : Bytes} {next : UInt32 → Option UInt32}

/-- A number in the digits that a text begins with. -/
theorem stoi_leading (h : piece.takeWhile isDigit ≠ []) :
    stoi piece = if leading piece < 2 ^ 31 then some (leading piece : Int) else none := by
  cases piece with
  | nil => exact absurd rfl h
  | cons d piece =>
    have hd : isDigit d = true := by
      by_contra hd
      rw [List.takeWhile_cons_of_neg hd] at h
      exact h rfl
    have hskip : (d :: piece).dropWhile isSpace = d :: piece :=
      List.dropWhile_cons_of_neg (by simp [isSpace_of_isDigit hd])
    simp only [stoi, hskip, splitSign_of_isDigit hd, if_neg h, Bool.false_eq_true, if_false, leading]
    congr 1
    simp only [eq_iff_iff]
    omega

/-- What a round makes of a number. -/
theorem segment_eq : strToIpFrom.segment piece next =
    if piece.takeWhile isDigit = [] then some 0
    else if 2 ^ 31 ≤ leading piece then none
    else if 255 < leading piece then some 0
    else next (UInt32.ofNat (leading piece)) := by
  cases piece with
  | nil => rfl
  | cons c piece =>
    by_cases hc : isDigit c = true
    · have hne : (c :: piece).takeWhile isDigit ≠ [] := by simp [List.takeWhile_cons_of_pos hc]
      have hstoi := stoi_leading hne
      simp only [strToIpFrom.segment, hc, if_true, if_neg hne, hstoi]
      by_cases hbig : 2 ^ 31 ≤ leading (c :: piece)
      · rw [if_pos hbig, if_neg (by omega)]
        rfl
      · rw [if_neg hbig, if_pos (by omega)]
        have hseg : UInt32.ofInt (leading (c :: piece) : Int) = UInt32.ofNat (leading (c :: piece)) := by
          rw [UInt32.ofInt]
          congr 1
          omega
        have hover : UInt32.ofNat (leading (c :: piece)) > 255 ↔ 255 < leading (c :: piece) := by
          rw [gt_iff_lt, UInt32.lt_iff_toNat_lt, UInt32.toNat_ofNat', Nat.mod_eq_of_lt (by omega)]
          rfl
        simp only [Option.bind_eq_bind, Option.bind_some, hseg, hover, Option.pure_def]
    · have hnil : (c :: piece).takeWhile isDigit = [] := List.takeWhile_cons_of_neg hc
      simp only [strToIpFrom.segment, if_neg hc, if_pos hnil]

/-- Only the digits in front count. -/
theorem segment_congr {piece' : Bytes} (h : piece.takeWhile isDigit = piece'.takeWhile isDigit) :
    strToIpFrom.segment piece next = strToIpFrom.segment piece' next := by
  rw [segment_eq, segment_eq, leading, leading, h]

/-- What is behind a dot does not belong to the number in front of it. -/
theorem takeWhile_take {n : Nat} :
    ((piece ++ point :: rest).take (n + piece.length)).takeWhile isDigit = piece.takeWhile isDigit := by
  have htake : (piece ++ point :: rest).take (n + piece.length) = piece ++ (point :: rest).take n := by
    rw [List.take_append, List.take_of_length_le (by omega), Nat.add_sub_cancel]
  rw [htake, List.takeWhile_append]
  split
  · rename_i hall
    have hpiece : piece.takeWhile isDigit = piece := (List.takeWhile_prefix _).eq_of_length hall
    have hrest : ((point :: rest).take n).takeWhile isDigit = [] := by
      cases n with
      | zero => rfl
      | succ n => exact List.takeWhile_cons_of_neg (by simp [isDigit_point])
    rw [hpiece, hrest, List.append_nil]
  · rfl

theorem readPieces_cons {rounds : Nat} {pieces : List Bytes} {ip : UInt32} (h : ¬(piece = [] ∧ pieces = [])) :
    readPieces (rounds + 1) (piece :: pieces) ip = if pieces = [] ↔ rounds = 0 then
      strToIpFrom.segment piece fun ipSeg => readPieces rounds pieces (ip ||| ipSeg <<< (8 * UInt32.ofNat rounds))
    else some 0 := if_neg h

/-- **The loop** on a text is the loop on its pieces. -/
theorem strToIpFrom_eq (rounds lastPos : Nat) (ip : UInt32) :
    strToIpFrom ipStr rounds lastPos ip = readPieces rounds ((ipStr.drop lastPos).splitOn point) ip := by
  induction rounds generalizing lastPos ip with
  | zero => rw [strToIpFrom, readPieces]
  | succ rounds ih =>
    by_cases hlt : lastPos < ipStr.length
    · by_cases hmem : point ∈ ipStr.drop lastPos
      · -- a dot ends the piece
        obtain ⟨piece, rest, hdrop, hfree⟩ := List.eq_append_cons_of_mem hmem
        have hfind : (piece ++ point :: rest).findIdx? (· = point) = some piece.length := by
          have hnone : piece.findIdx? (· = point) = none := by
            rw [List.findIdx?_eq_none_iff]
            exact fun c hc => decide_eq_false fun e => hfree (e ▸ hc)
          rw [List.findIdx?_append, hnone, List.findIdx?_cons]
          simp
        have hbehind : ipStr.drop (lastPos + piece.length + 1) = rest := by
          rw [Nat.add_assoc, ← List.drop_drop, hdrop, ← List.drop_drop, List.drop_left]
          rfl
        have hsome : rest.splitOn point ≠ [] := List.splitOn_ne_nil point rest
        rw [strToIpFrom, if_pos hlt, hdrop, hfind, List.splitOn_append_cons_self_of_not_mem hfree,
          readPieces_cons fun h => hsome h.2]
        by_cases hrounds : rounds = 0
        · simp only [hsome, hrounds, iff_true, if_false, if_true]
        · simp only [hsome, hrounds, if_false, if_true, segment_congr takeWhile_take, ih, hbehind]
      · -- the last piece
        have hfind : (ipStr.drop lastPos).findIdx? (· = point) = none := by
          rw [List.findIdx?_eq_none_iff]
          exact fun c hc => decide_eq_false fun e => hmem (e ▸ hc)
        have hne : ipStr.drop lastPos ≠ [] := by
          rw [ne_eq, List.drop_eq_nil_iff]
          omega
        rw [strToIpFrom, if_pos hlt, hfind, List.splitOn_eq_singleton hmem, readPieces_cons fun h => hne h.1]
        by_cases hrounds : rounds = 0
        · subst hrounds
          simp [readPieces]
        · simp only [hrounds, iff_false, not_true_eq_false, if_false]
    · rw [strToIpFrom, if_neg hlt, List.drop_eq_nil_of_le (Nat.le_of_not_lt hlt), List.splitOn_nil, readPieces,
        if_pos ⟨rfl, rfl⟩]

end Segments

/-! ## The three outcomes -/

section Outcomes

variable {rounds : Nat} {piece : Bytes} {pieces : List Bytes} {ip : UInt32}

theorem Taken.segment (h : Taken piece) {next : UInt32 → Option UInt32} :
    strToIpFrom.segment piece next = next (UInt32.ofNat (leading piece)) := by
  have hle := h.le
  rw [segment_eq, if_neg h.ne_nil, if_neg (by omega), if_neg (by omega)]

theorem Excessive.segment (h : Excessive piece) {next : UInt32 → Option UInt32} :
    strToIpFrom.segment piece next = none := by
  rw [segment_eq, if_neg h.ne_nil, if_pos h.le]

/-- A piece with a number is not empty. -/
theorem not_empty_of_takeWhile (h : piece.takeWhile isDigit ≠ []) : ¬(piece = [] ∧ pieces = []) := by
  rintro ⟨rfl, -⟩
  exact h rfl

/-- **Taken**: the bytes that are left are those of the numbers, and zero where there is none. -/
theorem Accepts.read (h : Accepts rounds pieces) (hrounds : rounds ≤ 4) (n : Nat) : ∃ m < 256 ^ rounds,
    readPieces rounds pieces (UInt32.ofNat (n <<< (8 * rounds))) = some (UInt32.ofNat (n * 256 ^ rounds + m)) ∧
      (m = 0 ↔ ∀ p ∈ pieces, leading p = 0) := by
  induction h generalizing n with
  | done => exact ⟨0, by decide, by simp [readPieces], by simp⟩
  | cut rounds =>
    refine ⟨0, Nat.pow_pos (by decide), ?_, by simp [leading, digitsValue]⟩
    rw [readPieces, if_pos ⟨rfl, rfl⟩, Nat.shiftLeft_eq, Nat.pow_mul, Nat.add_zero]
    rfl
  | @number rounds piece pieces htaken hend _ ih =>
    have hle := htaken.le
    obtain ⟨m, hm, hread, hzero⟩ := ih (by omega) (n * 256 + leading piece)
    have hsum : n * 256 ^ (rounds + 1) + (leading piece * 256 ^ rounds + m) =
        (n * 256 + leading piece) * 256 ^ rounds + m := by
      rw [Nat.pow_succ', ← Nat.mul_assoc, Nat.add_mul, Nat.add_assoc]
    refine ⟨leading piece * 256 ^ rounds + m, ?_, ?_, ?_⟩
    · calc leading piece * 256 ^ rounds + m < (leading piece + 1) * 256 ^ rounds := by rw [Nat.add_one_mul]; omega
        _ ≤ 256 * 256 ^ rounds := Nat.mul_le_mul_right _ (by omega)
        _ = 256 ^ (rounds + 1) := (Nat.pow_succ').symm
    · rw [readPieces_cons (not_empty_of_takeWhile htaken.ne_nil), if_pos hend, htaken.segment,
        ofNat_or_shiftLeft (by omega) (by omega), hread, hsum]
    · rw [Nat.add_eq_zero_iff, Nat.mul_eq_zero, List.forall_mem_cons, hzero]
      simp

/-- **Thrown**. -/
theorem Throws.read (h : Throws rounds pieces) (ip : UInt32) : readPieces rounds pieces ip = none := by
  induction h generalizing ip with
  | here hbig hend => rw [readPieces_cons (not_empty_of_takeWhile hbig.ne_nil), if_pos hend, hbig.segment]
  | later htaken hend _ ih =>
    rw [readPieces_cons (not_empty_of_takeWhile htaken.ne_nil), if_pos hend, htaken.segment, ih]

/-- **Refused**: anything else is read as 0. -/
theorem readPieces_refused (hpieces : pieces = [] ↔ rounds = 0) (haccepts : ¬Accepts rounds pieces)
    (hthrows : ¬Throws rounds pieces) (ip : UInt32) : readPieces rounds pieces ip = some 0 := by
  induction rounds generalizing pieces ip with
  | zero =>
    obtain rfl := hpieces.2 rfl
    exact absurd .done haccepts
  | succ rounds ih =>
    obtain ⟨piece, pieces, rfl⟩ := List.exists_cons_of_ne_nil fun hnil => absurd (hpieces.1 hnil) (by omega)
    have hempty : ¬(piece = [] ∧ pieces = []) := by
      rintro ⟨rfl, rfl⟩
      exact haccepts (.cut rounds)
    rw [readPieces_cons hempty]
    split
    · rename_i hend
      rw [segment_eq]
      split_ifs with hdigits hbig hover
      · rfl
      · exact absurd (.here ⟨hdigits, hbig⟩ hend) hthrows
      · rfl
      · have htaken : Taken piece := ⟨hdigits, Nat.le_of_not_lt hover⟩
        exact ih hend (fun h => haccepts (.number htaken hend h)) (fun h => hthrows (.later htaken hend h)) _
    · rfl

end Outcomes

/-! ## The texts that are read as they should be -/

/-- The loop takes the numbers of the text: four pieces, or fewer with a dot behind them. -/
def TakesNumbers (text : Bytes) (numbers : List Bytes) : Prop :=
  (∀ p ∈ numbers, Taken p) ∧ (text.splitOn point = numbers ∧ numbers.length = 4 ∨
    text.splitOn point = numbers ++ [[]] ∧ numbers.length ≤ 3)

/-- Behind fewer than four numbers the loop comes to one that is no `int`, with a dot behind it unless it is the
fourth. -/
def HasExcess (text : Bytes) : Prop :=
  ∃ numbers piece behind, (∀ p ∈ numbers, Taken p) ∧ Excessive piece ∧
    text.splitOn point = numbers ++ piece :: behind ∧ numbers.length ≤ 3 ∧ (behind = [] ↔ numbers.length = 3)

section Exact

variable {rounds : Nat} {pieces : List Bytes} {text : Bytes} {ip : UInt32}

theorem accepts_iff : Accepts rounds pieces ↔ ∃ numbers, (∀ p ∈ numbers, Taken p) ∧
    (pieces = numbers ∧ numbers.length = rounds ∨ pieces = numbers ++ [[]] ∧ numbers.length < rounds) := by
  constructor
  · intro h
    induction h with
    | done => exact ⟨[], by simp, .inl ⟨rfl, rfl⟩⟩
    | cut rounds => exact ⟨[], by simp, .inr ⟨rfl, Nat.succ_pos rounds⟩⟩
    | @number rounds piece pieces htaken _ _ ih =>
      obtain ⟨numbers, hnumbers, hpieces⟩ := ih
      refine ⟨piece :: numbers, List.forall_mem_cons.2 ⟨htaken, hnumbers⟩, ?_⟩
      rcases hpieces with ⟨rfl, hlen⟩ | ⟨rfl, hlen⟩
      · exact .inl ⟨rfl, congrArg (· + 1) hlen⟩
      · exact .inr ⟨rfl, Nat.succ_lt_succ hlen⟩
  · rintro ⟨numbers, hnumbers, hpieces⟩
    induction numbers generalizing rounds pieces with
    | nil =>
      rcases hpieces with ⟨rfl, rfl⟩ | ⟨rfl, hlen⟩
      · exact .done
      · obtain ⟨rounds, rfl⟩ := Nat.exists_eq_add_one_of_ne_zero hlen.ne'
        exact .cut rounds
    | cons p numbers ih =>
      obtain ⟨htaken, hnumbers⟩ := List.forall_mem_cons.1 hnumbers
      rcases hpieces with ⟨rfl, rfl⟩ | ⟨rfl, hlen⟩
      · exact .number htaken List.length_eq_zero_iff.symm (ih hnumbers (.inl ⟨rfl, rfl⟩))
      · rw [List.length_cons] at hlen
        obtain ⟨rounds, rfl⟩ := Nat.exists_eq_add_one_of_ne_zero (Nat.ne_zero_of_lt hlen)
        refine .number htaken (iff_of_false ?_ ?_) (ih hnumbers (.inr ⟨rfl, by omega⟩))
        · exact List.append_ne_nil_of_right_ne_nil _ (List.cons_ne_nil _ _)
        · omega

theorem throws_iff : Throws rounds pieces ↔ ∃ numbers piece behind, (∀ p ∈ numbers, Taken p) ∧ Excessive piece ∧
    pieces = numbers ++ piece :: behind ∧ numbers.length < rounds ∧ (behind = [] ↔ numbers.length + 1 = rounds) := by
  constructor
  · intro h
    induction h with
    | @here rounds piece pieces hbig hend =>
      exact ⟨[], piece, pieces, by simp, hbig, rfl, Nat.succ_pos rounds, by rw [hend]; simp⟩
    | @later rounds piece pieces htaken _ _ ih =>
      obtain ⟨numbers, p, behind, hnumbers, hbig, rfl, hlen, hend⟩ := ih
      refine ⟨piece :: numbers, p, behind, List.forall_mem_cons.2 ⟨htaken, hnumbers⟩, hbig, rfl, ?_, ?_⟩
      · exact Nat.succ_lt_succ hlen
      · rw [hend, List.length_cons]
        omega
  · rintro ⟨numbers, p, behind, hnumbers, hbig, rfl, hlen, hend⟩
    induction numbers generalizing rounds with
    | nil =>
      obtain ⟨rounds, rfl⟩ := Nat.exists_eq_add_one_of_ne_zero hlen.ne'
      exact .here hbig (by rw [hend, List.length_nil]; omega)
    | cons q numbers ih =>
      obtain ⟨htaken, hnumbers⟩ := List.forall_mem_cons.1 hnumbers
      rw [List.length_cons] at hlen hend
      obtain ⟨rounds, rfl⟩ := Nat.exists_eq_add_one_of_ne_zero (Nat.ne_zero_of_lt hlen)
      refine .later htaken (iff_of_false ?_ ?_) (ih hnumbers (by omega) (by rw [hend]; omega))
      · exact List.append_ne_nil_of_right_ne_nil _ (List.cons_ne_nil _ _)
      · omega

/-- What the loop makes of a text by its pieces. -/
theorem strToIp_eq : strToIp text = readPieces 4 (text.splitOn point) 0 := by
  rw [strToIp, strToIpFrom_eq, List.drop_zero]

theorem takesNumbers_iff : (∃ numbers, TakesNumbers text numbers) ↔ Accepts 4 (text.splitOn point) := by
  rw [accepts_iff]
  simp only [TakesNumbers, Nat.lt_succ_iff]

theorem hasExcess_iff : HasExcess text ↔ Throws 4 (text.splitOn point) := by
  rw [throws_iff, HasExcess]
  simp only [Nat.lt_succ_iff, Nat.succ.injEq]

theorem HasExcess.strToIp (h : HasExcess text) : strToIp text = none :=
  strToIp_eq.trans ((hasExcess_iff.1 h).read 0)

/-- A text whose numbers are taken is read as 0 iff they are all 0. -/
theorem TakesNumbers.strToIp {numbers : List Bytes} (h : TakesNumbers text numbers) :
    ∃ ip, strToIp text = some ip ∧ (ip = 0 ↔ ∀ p ∈ numbers, leading p = 0) := by
  obtain ⟨m, hm, hread, hzero⟩ := (takesNumbers_iff.1 ⟨numbers, h⟩).read (Nat.le_refl 4) 0
  rw [Nat.zero_shiftLeft, Nat.zero_mul, Nat.zero_add] at hread
  refine ⟨UInt32.ofNat m, strToIp_eq.trans hread, ?_⟩
  have hlt : m < 2 ^ 32 := hm
  have hm0 : UInt32.ofNat m = 0 ↔ m = 0 := by
    rw [← UInt32.toNat_inj, UInt32.toNat_ofNat', Nat.mod_eq_of_lt hlt]
    rfl
  rw [hm0, hzero]
  rcases h.2 with ⟨hpieces, -⟩ | ⟨hpieces, -⟩
  · rw [hpieces]
  · rw [hpieces]
    simp [leading, digitsValue, or_imp, forall_and]

/-- Any other text is read as 0. -/
theorem strToIp_refused (hnumbers : ¬∃ numbers, TakesNumbers text numbers) (hexcess : ¬HasExcess text) :
    strToIp text = some 0 := by
  have hpieces : text.splitOn point = [] ↔ 4 = 0 := iff_of_false (List.splitOn_ne_nil point text) (by decide)
  rw [strToIp_eq]
  exact readPieces_refused hpieces (mt takesNumbers_iff.2 hnumbers) (mt hasExcess_iff.2 hexcess) 0

/-- **The address of a text**: `str_to_ip` returns the address of each text of four numbers and 0 for each other text
iff it comes to no number that is no `int`, and takes no numbers but those of such a text or zeros. -/
theorem strToIp_exact_iff (text : Bytes) :
    ((∀ ip, DottedQuad text ip → strToIp text = some ip) ∧
      ((∀ ip, ¬DottedQuad text ip) → strToIp text = some 0)) ↔
    ¬HasExcess text ∧
      ∀ numbers, TakesNumbers text numbers → (∃ ip, DottedQuad text ip) ∨ ∀ p ∈ numbers, leading p = 0 := by
  constructor
  · rintro ⟨hquad, hother⟩
    by_cases h : ∃ ip, DottedQuad text ip
    · obtain ⟨ip, hip⟩ := h
      refine ⟨fun hexcess => ?_, fun numbers _ => .inl ⟨ip, hip⟩⟩
      have hnone := hexcess.strToIp
      rw [hquad ip hip] at hnone
      cases hnone
    · have hzero := hother (not_exists.1 h)
      refine ⟨fun hexcess => ?_, fun numbers hnumbers => .inr ?_⟩
      · have hnone := hexcess.strToIp
        rw [hzero] at hnone
        cases hnone
      · obtain ⟨ip, hip, hall⟩ := hnumbers.strToIp
        rw [hzero, Option.some.injEq] at hip
        exact hall.1 hip.symm
  · rintro ⟨hexcess, hnumbers⟩
    refine ⟨fun ip hip => hip.strToIp, fun hnone => ?_⟩
    by_cases h : ∃ numbers, TakesNumbers text numbers
    · obtain ⟨numbers, htakes⟩ := h
      obtain ⟨ip, hip, hall⟩ := htakes.strToIp
      rcases hnumbers numbers htakes with ⟨ip', hip'⟩ | hzero
      · exact absurd hip' (hnone ip')
      · rw [hip, hall.2 hzero]
    · exact strToIp_refused h hexcess

end Exact

/-- The texts `1.2.3.`, `1.2.3.4x` and `1.2.3.0x4` are read as addresses, and `stoi` throws on `9999999999.1.1.1`. -/
example : strToIp (ascii "1.2.3.") = some 0x01020300 ∧ strToIp (ascii "1.2.3.4x") = some 0x01020304 ∧
    strToIp (ascii "1.2.3.0x4") = some 0x01020300 ∧ strToIp (ascii "9999999999.1.1.1") = none := by decide

/-- A number that is no `int` is not read as 0. -/
theorem strToIp_throws : ¬∀ text : Bytes,
    (∀ ip, DottedQuad text ip → strToIp text = some ip) ∧
      ((∀ ip, ¬DottedQuad text ip) → strToIp text = some 0) := by
  intro h
  obtain ⟨hquad, hother⟩ := h (ascii "9999999999.1.1.1")
  have hnone : strToIp (ascii "9999999999.1.1.1") = none := by decide
  rw [hnone] at hquad hother
  by_cases hex : ∃ ip, DottedQuad (ascii "9999999999.1.1.1") ip
  · obtain ⟨ip, hip⟩ := hex
    cases hquad ip hip
  · cases hother (not_exists.1 hex)

end StDns.Utils
