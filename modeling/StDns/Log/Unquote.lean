import StDns.Lib.JsonWrite
import Mathlib.Data.List.DropRight

/-!
# Numbers without quotes

`to_json` writes a tree and takes the quotes away around what looks like a number. A text that has a quote keeps a
backslash there when what is behind the quote looks like one, so that the text as a whole is broken (`cell_concat`).
-/

namespace StDns.Log

open Lib Lib.Json

/-! ## The source -/

/-- `\.{0,1}[0-9]*` behind digits. -/
def fraction : Bytes → Bool
  | [] => true
  | c :: rest => c = point ∧ rest.all isDigit

/-- The regular expression `[0-9]+\.{0,1}[0-9]*`. -/
def numberLike (s : Bytes) : Bool := s.takeWhile isDigit ≠ [] ∧ fraction (s.dropWhile isDigit)

/-- `regex_replace` with `"$1"`, with what has been read since the last quote that is in no match. -/
def replace : Option Bytes → Bytes → Bytes
  | none, [] => []
  | none, c :: text => if c = quote then replace (some []) text else c :: replace none text
  | some piece, [] => quote :: piece
  | some piece, c :: text =>
    if c = quote then
      if numberLike piece then piece ++ replace none text else quote :: (piece ++ replace (some []) text)
    else replace (some (piece ++ [c])) text

/-- `to_json`; nothing when `write_json` raises. -/
def toJson (w : Writer) (properties : Json.Tree) : Option Bytes := (w.write properties).map (replace none)

/-- `fromJson`; nothing when `read_json` raises. -/
def fromJson (enc : Encoding) (json : Bytes) : Option Json.Tree := read enc json

/-! ## What looks like a number -/

section NumberLike

variable {s : Bytes} {c : UInt8}

theorem fraction_iff : fraction s = true ↔ s = [] ∨ ∃ digits, s = point :: digits ∧ ∀ d ∈ digits, isDigit d = true := by
  cases s with
  | nil => simp [fraction]
  | cons c rest => simp [fraction]

theorem fraction_head {d : UInt8} (h : fraction s = true) (hd : d ∈ s.head?) : isDigit d = false := by
  rcases fraction_iff.1 h with rfl | ⟨digits, rfl, -⟩ <;> cases hd
  rfl

/-- Digits, at least one, with a point and more of them behind it or not. -/
theorem numberLike_iff : numberLike s = true ↔ ∃ c digits tail, s = c :: (digits ++ tail) ∧ isDigit c = true ∧
    (∀ d ∈ digits, isDigit d = true) ∧ fraction tail = true := by
  rw [numberLike, decide_eq_true_eq]
  constructor
  · rintro ⟨hne, htail⟩
    obtain ⟨c, digits, hdigits⟩ := List.exists_cons_of_ne_nil hne
    have hall : ∀ d ∈ c :: digits, isDigit d = true := fun d hd => List.mem_takeWhile_imp (hdigits ▸ hd)
    refine ⟨c, digits, _, ?_, hall c List.mem_cons_self, fun d hd => hall d (List.mem_cons_of_mem _ hd), htail⟩
    rw [← List.cons_append, ← hdigits, List.takeWhile_append_dropWhile]
  · rintro ⟨c, digits, tail, rfl, hc, hdigits, htail⟩
    have hspan := span_digits (List.forall_mem_cons.2 ⟨hc, hdigits⟩) fun d hd => fraction_head htail hd
    rw [← List.cons_append, hspan.1, hspan.2]
    exact ⟨by simp, htail⟩

theorem isDigit_or_point (h : numberLike s = true) (hc : c ∈ s) : isDigit c = true ∨ c = point := by
  obtain ⟨d, digits, tail, rfl, hd, hdigits, htail⟩ := numberLike_iff.1 h
  rcases List.mem_cons.1 hc with rfl | hc
  · exact .inl hd
  · rcases List.mem_append.1 hc with hc | hc
    · exact .inl (hdigits c hc)
    · rcases fraction_iff.1 htail with rfl | ⟨frac, rfl, hfrac⟩
      · cases hc
      · rcases List.mem_cons.1 hc with rfl | hc
        · exact .inr rfl
        · exact .inl (hfrac c hc)

/-- What has another character does not look like a number. -/
theorem numberLike_eq_false (hc : c ∈ s) (hdigit : isDigit c = false) (hpoint : c ≠ point) : numberLike s = false := by
  rw [← Bool.not_eq_true]
  intro h
  rcases isDigit_or_point h hc with hc | hc
  · rw [hdigit] at hc
    cases hc
  · exact hpoint hc

/-- A text looks like a number iff it does as it is written. -/
theorem numberLike_escaped (w : Writer) (s : Bytes) : numberLike (w.escaped s) = numberLike s := by
  by_cases hall : ∀ c ∈ s, isDigit c = true ∨ c = point
  · rw [Writer.escaped_digits hall]
  · push Not at hall
    obtain ⟨c, hc, hdigit, hpoint⟩ := hall
    have hdigit := Bool.eq_false_of_not_eq_true hdigit
    rw [numberLike_eq_false hc hdigit hpoint]
    rcases w.plain_or_escaped c with he | he
    · exact numberLike_eq_false (List.mem_flatMap.2 ⟨c, hc, he ▸ List.mem_cons_self⟩) hdigit hpoint
    · exact numberLike_eq_false (List.mem_flatMap.2 ⟨c, hc, he⟩) rfl (by decide)

end NumberLike

/-! ## Rewriting -/

section Replace

variable {piece text rest : Bytes} {c : UInt8} {w : Writer}

theorem replace_none_cons (h : c ≠ quote) : replace none (c :: text) = c :: replace none text := if_neg h

theorem replace_some_cons (h : c ≠ quote) : replace (some piece) (c :: text) = replace (some (piece ++ [c])) text :=
  if_neg h

theorem replace_quote (piece text : Bytes) : replace (some piece) (quote :: text) =
    if numberLike piece then piece ++ replace none text else quote :: (piece ++ replace (some []) text) := if_pos rfl

/-- Characters other than a quote are kept for the next quote. -/
theorem replace_append (h : quote ∉ text) :
    replace (some piece) (text ++ rest) = replace (some (piece ++ text)) rest := by
  induction text generalizing piece with
  | nil => rw [List.append_nil, List.nil_append]
  | cons c text ih =>
    rw [List.mem_cons, not_or] at h
    rw [List.cons_append, replace_some_cons (Ne.symm h.1), ih h.2, List.append_assoc, List.singleton_append]

/-- When something else than a number has begun, its quote is not in a match. -/
theorem replace_some (hc : c ∈ piece) (hdigit : isDigit c = false) (hpoint : c ≠ point) (text : Bytes) :
    replace (some piece) text = quote :: (piece ++ replace none text) := by
  induction text generalizing piece with
  | nil => rw [replace, replace, List.append_nil]
  | cons d text ih =>
    by_cases hd : d = quote
    · rw [hd, replace_quote, numberLike_eq_false hc hdigit hpoint]
      rfl
    · rw [replace_some_cons hd, ih (List.mem_append_left _ hc), replace_none_cons hd, List.append_assoc,
        List.singleton_append]

/-- What is written in front of a quote inside of a text stays as it is. -/
theorem replace_escaped (w : Writer) (s piece text : Bytes) :
    replace (some piece) (w.escaped s ++ backslash :: quote :: text) =
      quote :: (piece ++ (w.escaped s ++ backslash :: replace (some []) text)) := by
  have hstep : ∀ piece text, replace (some piece) (backslash :: quote :: text) =
      quote :: (piece ++ backslash :: replace (some []) text) := by
    intro piece text
    rw [replace_some_cons (by decide), replace_quote,
      @numberLike_eq_false _ backslash (List.mem_append_right _ List.mem_cons_self) rfl (by decide),
      if_neg Bool.false_ne_true, List.append_assoc, List.singleton_append]
  induction s generalizing piece with
  | nil => exact hstep piece text
  | cons c s ih =>
    rw [Writer.escaped_cons, List.append_assoc]
    by_cases hc : c = quote
    · rw [hc, w.escape_quote]
      simp only [List.cons_append, List.nil_append]
      rw [hstep, ih, List.nil_append]
    · rw [replace_append (w.quote_notMem c hc), ih, List.append_assoc, List.append_assoc]

theorem quote_notMem_escaped {s : Bytes} (h : quote ∉ s) : quote ∉ w.escaped s := by
  intro hmem
  obtain ⟨c, hc, hescape⟩ := List.mem_flatMap.1 hmem
  exact w.quote_notMem c (fun e => h (e ▸ hc)) hescape

theorem of_punct (h : Punct c) : c ≠ quote ∧ isDigit c = false ∧ c ≠ point := by
  have hall : [comma, colon, openBrace, closeBrace, openBracket, closeBracket].all
      (fun c => c ≠ quote ∧ isDigit c = false ∧ c ≠ point) = true := by decide
  exact of_decide_eq_true (List.all_eq_true.1 hall c h)

/-- A written text without quotes, between two of them. -/
theorem replace_free {s : Bytes} (h : quote ∉ s) (hc : Punct c) :
    replace (some []) (w.escaped s ++ quote :: c :: rest) =
      (if numberLike s then s else w.quoted s) ++ replace none (c :: rest) := by
  obtain ⟨hquote, hdigit, hpoint⟩ := of_punct hc
  rw [replace_append (quote_notMem_escaped h), List.nil_append, replace_quote, numberLike_escaped]
  split
  · rename_i hlike
    rw [Writer.escaped_digits fun d hd => isDigit_or_point hlike hd]
  · rw [replace_some_cons hquote, List.nil_append, replace_some List.mem_cons_self hdigit hpoint,
      replace_none_cons hquote]
    simp [Writer.quoted]

end Replace

/-! ## Cells -/

/-- What is behind the last quote of a text. -/
def trail (s : Bytes) : Bytes := s.rtakeWhile (· ≠ quote)

section Cell

variable (w : Writer)

/-- What is left of a written text. -/
def cell (s : Bytes) : Bytes :=
  if numberLike (trail s) then
    if quote ∈ s then quote :: (w.escaped (s.rdropWhile (· ≠ quote)).dropLast ++ backslash :: trail s) else s
  else w.quoted s

variable {w} {s last : Bytes}

theorem trail_of_notMem (h : quote ∉ s) : trail s = s :=
  List.rtakeWhile_eq_self_iff.2 fun c hc => by simpa using fun e : c = quote => h (e ▸ hc)

theorem quote_notMem_trail : quote ∉ trail s := fun h => by simpa using List.mem_rtakeWhile_imp h

theorem trail_concat (h : quote ∉ last) (first : Bytes) : trail (first ++ quote :: last) = last := by
  have hlast : ∀ c ∈ last.reverse, decide (c ≠ quote) = true := fun c hc => by
    simpa using fun e : c = quote => h (e ▸ List.mem_reverse.1 hc)
  rw [trail, List.rtakeWhile, List.reverse_append, List.reverse_cons, List.append_assoc,
    List.takeWhile_append_of_pos hlast, List.singleton_append, List.takeWhile_cons_of_neg (by simp), List.append_nil,
    List.reverse_reverse]

theorem cell_free (h : quote ∉ s) : cell w s = if numberLike s then s else w.quoted s := by
  rw [cell, trail_of_notMem h, if_neg h]

/-- A text with a quote loses the last one when a number seems to be behind it. -/
theorem cell_concat (h : quote ∉ last) (first : Bytes) : cell w (first ++ quote :: last) =
    if numberLike last then quote :: (w.escaped first ++ backslash :: last) else w.quoted (first ++ quote :: last) := by
  have hdrop : (first ++ quote :: last).rdropWhile (fun c => decide (c ≠ quote)) = first ++ [quote] := by
    refine (List.append_left_inj (trail (first ++ quote :: last))).1 ?_
    rw [trail, List.rdropWhile_append_rtakeWhile, ← trail, trail_concat h, List.append_assoc, List.singleton_append]
  rw [cell, trail_concat h, hdrop, List.dropLast_concat, if_pos (show quote ∈ first ++ quote :: last by simp)]

/-- A text has no quote, or it is parted by its last one. -/
theorem exists_trail (h : quote ∈ s) : ∃ first, s = first ++ quote :: trail s := by
  obtain ⟨last, first, hs, hlast⟩ := List.eq_append_cons_of_mem (List.mem_reverse.2 h)
  have hs' : s = first.reverse ++ quote :: last.reverse := by
    rw [← List.reverse_reverse s, hs]
    simp
  refine ⟨first.reverse, ?_⟩
  rw [hs', trail_concat (by simpa using hlast)]

end Cell

/-- **`regex_replace`** on a text of a tree works cell by cell. -/
theorem replace_rewrites (w : Writer) : Rewrites (replace none) w.quoted (cell w) where
  punct c rest hc := replace_none_cons (of_punct hc).1
  cell s c rest hc := by
    rw [Writer.quoted, List.cons_append, List.append_assoc, List.singleton_append, replace, if_pos rfl]
    by_cases h : quote ∈ s
    · obtain ⟨first, hs⟩ := exists_trail h
      generalize hlast : trail s = last at hs
      have hfree : quote ∉ last := hlast ▸ quote_notMem_trail
      rw [hs, Writer.escaped_append, Writer.escaped_cons, w.escape_quote]
      simp only [List.append_assoc, List.cons_append, List.nil_append]
      rw [replace_escaped, replace_free hfree hc, cell_concat hfree]
      split
      · simp
      · simp [Writer.quoted, Writer.escaped_append, Writer.escaped_cons, w.escape_quote]
    · rw [replace_free h hc, cell_free h]

end StDns.Log
