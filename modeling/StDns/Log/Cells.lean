import StDns.Log.Unquote

/-!
# The cells that are read back

A value without quotes is read back iff it is a number as JSON has them, that is, without zeros in front and with
digits behind its point. A name has to be in quotes.
-/

namespace StDns.Log

open Lib Lib.Json

/-! ## Numbers -/

/-- No zero is in front of other digits, and digits are behind the point. -/
def JsonNumber (s : Bytes) : Prop := (s.head? = some 48 → s.takeWhile isDigit = [48]) ∧ s.getLast? ≠ some point

instance (s : Bytes) : Decidable (JsonNumber s) := inferInstanceAs (Decidable (_ ∧ _))

section Numbers

variable {digits text : Bytes} {c : UInt8} {fuel : Nat}

theorem ne_of_isDigit {d : UInt8} (h : isDigit c = true) (hd : isDigit d = false) : c ≠ d := by
  rintro rfl
  rw [hd] at h
  cases h

theorem not_isWhite (h : isDigit c = true) : isWhite c = false := by
  rw [isWhite, decide_eq_false_iff_not]
  rintro (rfl | rfl | rfl | rfl) <;> exact absurd h (by decide)

theorem readInt_zero (text : Bytes) : readInt (48 :: text) = some ([48], text) := rfl

theorem readInt_digits (hc : isDigit c = true) (hne : c ≠ 48) (hdigits : ∀ d ∈ digits, isDigit d = true)
    (htext : ∀ d ∈ text.head?, isDigit d = false) : readInt (c :: (digits ++ text)) = some (c :: digits, text) := by
  have hspan := span_digits (List.forall_mem_cons.2 ⟨hc, hdigits⟩) htext
  rw [List.cons_append] at hspan
  rw [readInt, if_neg hne, if_pos hc, hspan.1, hspan.2]

theorem readFrac_none (h : ∀ d ∈ text.head?, d ≠ point) : readFrac text = some ([], text) := by
  cases text with
  | nil => rfl
  | cons c text => exact if_neg (h c rfl)

theorem readFrac_point (hdigits : ∀ d ∈ digits, isDigit d = true) (htext : ∀ d ∈ text.head?, isDigit d = false) :
    readFrac (point :: (digits ++ text)) = if digits = [] then none else some (point :: digits, text) := by
  have hspan := span_digits hdigits htext
  rw [readFrac, if_pos rfl, hspan.1, hspan.2]

theorem readExp_none (h : ∀ d ∈ text.head?, d ≠ 101 ∧ d ≠ 69) : readExp text = some ([], text) := by
  cases text with
  | nil => rfl
  | cons c text => exact if_neg (by simpa using h c rfl)

/-- A digit begins a number. -/
theorem readValue_digit (h : isDigit c = true) (text : Bytes) : readValue (fuel + 1) (c :: text) = (do
    let (int, text) ← readInt (c :: text)
    let (frac, text) ← readFrac text
    let (exp, text) ← readExp text
    return (leaf (int ++ frac ++ exp), text)) := by
  have hliteral : literals.find? (fun literal => decide (literal <+: c :: text)) = none := by
    rw [List.find?_eq_none]
    intro literal hmem hbegins
    have hfirst : ∀ literal ∈ literals, ∃ d ∈ literal.head?, isDigit d = false := by decide
    obtain ⟨d, hd, hdigit⟩ := hfirst literal hmem
    obtain ⟨rest, hrest⟩ := of_decide_eq_true hbegins
    cases literal with
    | nil => cases hd
    | cons e literal =>
      cases hd
      rw [List.cons_append, List.cons.injEq] at hrest
      exact ne_of_isDigit h hdigit hrest.1.symm
  rw [readValue, skipWhite_cons (not_isWhite h)]
  simp only [if_neg (ne_of_isDigit h (show isDigit quote = false by decide)),
    if_neg (ne_of_isDigit h (show isDigit openBrace = false by decide)),
    if_neg (ne_of_isDigit h (show isDigit openBracket = false by decide)), readAtom, hliteral, readNumber,
    readMinus, if_neg (ne_of_isDigit h (show isDigit 45 = false by decide))]
  simp

/-- A fraction is read when there are digits behind its point. -/
theorem readFrac_tail {tail : Bytes} (htail : fraction tail = true) (hstops : Stops text) :
    readFrac (tail ++ text) = if tail.getLast? = some point then none else some (tail, text) := by
  obtain ⟨c, rest, rfl, hc⟩ := hstops
  rcases fraction_iff.1 htail with rfl | ⟨frac, rfl, hfrac⟩
  · rw [if_neg (by simp), List.nil_append]
    exact readFrac_none (by rintro d ⟨⟩ rfl; revert hc; decide)
  · have hhead : ∀ d ∈ (c :: rest).head?, isDigit d = false := by
      rintro d ⟨⟩
      rcases hc with rfl | rfl | rfl <;> rfl
    rw [List.cons_append, readFrac_point hfrac hhead]
    rcases List.eq_nil_or_concat frac with rfl | ⟨init, d, rfl⟩
    · rfl
    · have hd : d ≠ point := ne_of_isDigit (hfrac d (by simp)) rfl
      rw [if_neg (by simp), List.concat_eq_append, ← List.cons_append, List.getLast?_concat, if_neg (by simpa using hd)]

variable {s tail : Bytes}

/-- Behind the first digits there is no digit. -/
theorem head_tail (htail : fraction tail = true) (hstops : Stops text) :
    ∀ d ∈ (tail ++ text).head?, isDigit d = false := by
  obtain ⟨c, rest, rfl, hc⟩ := hstops
  intro d hd
  cases tail with
  | nil =>
    cases hd
    rcases hc with rfl | rfl | rfl <;> rfl
  | cons e tail => exact fraction_head htail hd

theorem getLast?_tail (hc : isDigit c = true) (hdigits : ∀ d ∈ digits, isDigit d = true)
    (htail : fraction tail = true) : (c :: (digits ++ tail)).getLast? ≠ some point ↔ tail.getLast? ≠ some point := by
  rcases fraction_iff.1 htail with rfl | ⟨frac, rfl, -⟩
  · refine iff_of_true (fun h => ?_) (by simp)
    have hall : ∀ d ∈ c :: digits, isDigit d = true := List.forall_mem_cons.2 ⟨hc, hdigits⟩
    have hmem := List.mem_of_getLast? h
    rw [List.append_nil] at hmem
    exact ne_of_isDigit (hall point hmem) (show isDigit point = false from rfl) rfl
  · rw [← List.cons_append, List.getLast?_append_of_ne_nil _ (by simp)]

/-- Of a zero and more digits only the zero is read. -/
theorem readValue_zero (hc : isDigit c = true) (text : Bytes) :
    readValue (fuel + 1) (48 :: c :: text) = some (leaf [48], c :: text) := by
  have hfrac : readFrac (c :: text) = some ([], c :: text) :=
    readFrac_none (by rintro _ ⟨⟩; exact ne_of_isDigit hc rfl)
  have hexp : readExp (c :: text) = some ([], c :: text) :=
    readExp_none (by rintro _ ⟨⟩; exact ⟨ne_of_isDigit hc rfl, ne_of_isDigit hc rfl⟩)
  rw [readValue_digit rfl, readInt_zero]
  simp only [Option.bind_eq_bind, Option.bind_some, hfrac, hexp]
  rfl

/-- No value stops in front of a digit. -/
theorem not_stops_digit (hc : isDigit c = true) (text : Bytes) : ¬Stops (skipWhite (c :: text)) := by
  rw [skipWhite_cons (not_isWhite hc)]
  rintro ⟨d, rest, heq, hd⟩
  obtain ⟨rfl, -⟩ := List.cons.inj heq
  rcases hd with rfl | rfl | rfl <;> exact absurd hc (by decide)

/-- What a value becomes without its quotes: it is read, or the reading fails, or it stops inside. -/
theorem readValue_bare (hs : numberLike s = true) (hstops : Stops text) :
    (JsonNumber s → readValue (fuel + 1) (s ++ text) = some (leaf s, text)) ∧
      (¬JsonNumber s → ∀ r, readValue (fuel + 1) (s ++ text) = some r → ¬Stops (skipWhite r.2)) := by
  obtain ⟨c, digits, tail, rfl, hc, hdigits, htail⟩ := numberLike_iff.1 hs
  have htake : (c :: (digits ++ tail)).takeWhile isDigit = c :: digits :=
    (span_digits (List.forall_mem_cons.2 ⟨hc, hdigits⟩) fun d hd => fraction_head htail hd).1
  rw [List.cons_append, List.append_assoc, JsonNumber, htake]
  by_cases hzero : c = 48 ∧ digits ≠ []
  · obtain ⟨rfl, hne⟩ := hzero
    obtain ⟨d, digits, rfl⟩ := List.exists_cons_of_ne_nil hne
    have hd : isDigit d = true := hdigits d List.mem_cons_self
    refine ⟨fun h => absurd (h.1 rfl) (by simp), fun _ r hr => ?_⟩
    rw [List.cons_append, readValue_zero hd, Option.some.injEq] at hr
    subst hr
    exact not_stops_digit hd _
  · -- all the digits are read, and what is behind the point decides
    have hint : readInt (c :: (digits ++ (tail ++ text))) = some (c :: digits, tail ++ text) := by
      by_cases h48 : c = 48
      · obtain rfl : digits = [] := by_contra fun hne => hzero ⟨h48, hne⟩
        rw [h48, List.nil_append, readInt_zero]
      · exact readInt_digits hc h48 hdigits (head_tail htail hstops)
    have hexp : readExp text = some ([], text) := by
      obtain ⟨d, rest, rfl, hd⟩ := hstops
      exact readExp_none (by rintro _ ⟨⟩; rcases hd with rfl | rfl | rfl <;> decide)
    have hfirst : (c :: (digits ++ tail)).head? = some 48 → c :: digits = [48] := by
      rintro ⟨⟩
      rw [by_contra fun hne => hzero ⟨rfl, hne⟩]
    rw [readValue_digit hc, hint]
    simp only [Option.bind_eq_bind, Option.bind_some]
    rw [readFrac_tail htail hstops, getLast?_tail hc hdigits htail]
    by_cases hpoint : tail.getLast? = some point
    · rw [if_pos hpoint]
      exact ⟨fun h => absurd hpoint h.2, fun _ r hr => by cases hr⟩
    · rw [if_neg hpoint]
      simp only [Option.bind_some, hexp]
      exact ⟨fun _ => by simp, fun h => absurd ⟨hfirst, hpoint⟩ h⟩

end Numbers

/-! ## Cells -/

/-- A name keeps its quotes. -/
def NameReads (s : Bytes) : Prop := numberLike (trail s) = false

/-- A value keeps its quotes, or it is a number of JSON. -/
def ValueReads (s : Bytes) : Prop := numberLike (trail s) = true → quote ∉ s ∧ JsonNumber s

section Cells

variable {w : Writer} {s text : Bytes} {c : UInt8}

theorem unescape_digit (h : isDigit c = true) : unescape c = none := by
  have hne : ∀ d, isDigit d = false → c ≠ d := fun d hd => ne_of_isDigit h hd
  simp [unescape, hne 34 rfl, hne 92 rfl, hne 47 rfl, hne 98 rfl, hne 102 rfl, hne 110 rfl, hne 114 rfl, hne 116 rfl]

/-- A backslash in front of a digit ends the reading. -/
theorem readString_broken (hc : isDigit c = true) (s text : Bytes) :
    readString (w.escaped s ++ backslash :: c :: text) = none := by
  rw [Writer.readString_append, readString_letter (ne_of_isDigit hc rfl), unescape_digit hc]
  rfl

theorem cell_quoted (h : numberLike (trail s) = false) : cell w s = w.quoted s := if_neg (by simp [h])

/-- A text is its own cell, when it looks like a number. -/
theorem cell_bare (h : numberLike (trail s) = true) (hquote : quote ∉ s) : cell w s = s ∧ numberLike s = true := by
  rw [trail_of_notMem hquote] at h
  rw [cell_free hquote, if_pos h]
  exact ⟨rfl, h⟩

/-- With a quote in it, it becomes a string that does not end. -/
theorem cell_broken (h : numberLike (trail s) = true) (hquote : quote ∈ s) :
    ∃ first c rest, isDigit c = true ∧ cell w s = quote :: (w.escaped first ++ backslash :: c :: rest) := by
  obtain ⟨first, hs⟩ := exists_trail hquote
  have hfree : quote ∉ trail s := quote_notMem_trail
  obtain ⟨c, rest, hc⟩ : ∃ c rest, trail s = c :: rest ∧ isDigit c = true := by
    obtain ⟨c, digits, tail, heq, hc, -⟩ := numberLike_iff.1 h
    exact ⟨c, _, heq, hc⟩
  refine ⟨first, c, rest, hc.2, ?_⟩
  rw [hs, cell_concat hfree, if_pos h, hc.1]

theorem cell_begins (w : Writer) (s : Bytes) : ∃ c rest, cell w s = c :: rest ∧ Begins c := by
  cases h : numberLike (trail s) with
  | false => exact ⟨_, _, cell_quoted h, rfl, by decide, by decide⟩
  | true =>
    by_cases hquote : quote ∈ s
    · obtain ⟨first, c, rest, -, hcell⟩ := @cell_broken w s h hquote
      exact ⟨_, _, hcell, rfl, by decide, by decide⟩
    · obtain ⟨hcell, hs⟩ := @cell_bare w s h hquote
      obtain ⟨c, digits, tail, rfl, hc, -⟩ := numberLike_iff.1 hs
      exact ⟨c, _, hcell, not_isWhite hc, ne_of_isDigit hc rfl, ne_of_isDigit hc rfl⟩

theorem readName_cell_none (h : ¬NameReads s) (text : Bytes) : readName (cell w s ++ colon :: text) = none := by
  rw [NameReads, Bool.not_eq_false] at h
  by_cases hquote : quote ∈ s
  · obtain ⟨first, c, rest, hc, hcell⟩ := @cell_broken w s h hquote
    rw [hcell, List.cons_append, List.append_assoc, List.cons_append, List.cons_append, readName, skipWhite_cons rfl]
    simp only [if_true, readString_broken hc]
    rfl
  · obtain ⟨hcell, hs⟩ := @cell_bare w s h hquote
    obtain ⟨c, digits, tail, rfl, hc, -⟩ := numberLike_iff.1 hs
    rw [hcell, List.cons_append, readName, skipWhite_cons (not_isWhite hc)]
    exact if_neg (ne_of_isDigit hc rfl)

/-- **The cells that are read back** are those of names in quotes and of values in quotes or numbers. -/
theorem cells (w : Writer) : Cells (cell w) (cell w) NameReads ValueReads where
  nil := rfl
  name_begins := cell_begins w
  value_begins := cell_begins w
  name s hs text := by rw [cell_quoted hs, Writer.readName_quoted]
  not_name s hs text := readName_cell_none hs text
  value s hs fuel text hstops := by
    cases h : numberLike (trail s) with
    | false => rw [cell_quoted h, Writer.readValue_quoted]
    | true =>
      obtain ⟨hquote, hnumber⟩ := hs h
      obtain ⟨hcell, hlike⟩ := @cell_bare w s h hquote
      rw [hcell]
      exact (readValue_bare hlike hstops).1 hnumber
  not_value s hs fuel text r hstops hr := by
    obtain ⟨h, hnot⟩ := Classical.not_imp.1 hs
    cases fuel with
    | zero => cases hr
    | succ fuel =>
      by_cases hquote : quote ∈ s
      · obtain ⟨first, c, rest, hc, hcell⟩ := @cell_broken w s h hquote
        rw [hcell, List.cons_append, List.append_assoc, List.cons_append, List.cons_append, Writer.readValue_quote,
          readString_broken hc] at hr
        cases hr
      · obtain ⟨hcell, hlike⟩ := @cell_bare w s h hquote
        rw [hcell] at hr
        exact (readValue_bare hlike hstops).2 (fun hnumber => hnot ⟨hquote, hnumber⟩) r hr

end Cells

/-! ## Trees -/

section Trees

variable {w : Writer} {enc : Encoding} {s : Bytes}

/-- A cell that is read back is well-formed iff what it stands for is. -/
theorem wellFormed_cell (h : ValueReads s) : enc.WellFormed (cell w s) ↔ enc.WellFormed s := by
  cases hlike : numberLike (trail s) with
  | false => rw [cell_quoted hlike, Writer.wellFormed_quoted]
  | true => rw [(@cell_bare w s hlike (h hlike).1).1]

theorem NameReads.valueReads (h : NameReads s) : ValueReads s := fun hlike => absurd hlike (by rw [h]; decide)

theorem replace_ending (w : Writer) : replace none w.ending = w.ending := by
  have hall : ∀ c ∈ w.ending, isWhite c = true := List.dropWhile_eq_nil_iff.1 w.white
  generalize w.ending = ending at hall ⊢
  induction ending with
  | nil => rfl
  | cons c rest ih =>
    obtain ⟨hc, hrest⟩ := List.forall_mem_cons.1 hall
    rw [replace_none_cons (by rintro rfl; cases hc), ih hrest]

/-- **A tree** is read back iff it can be written, and all names and the data of all leaves are read back and
well-formed. -/
theorem tree_reads_iff {data : Bytes} {children : Forest} :
    (toJson w (.node data children)).bind (fromJson enc) = some (.node data children) ↔
      (data = [] ∧ children.writable = true) ∧
        children.All (fun s => enc.WellFormed s ∧ NameReads s) fun s => enc.WellFormed s ∧ ValueReads s := by
  rw [toJson, Writer.write]
  split
  · rename_i hwrite
    obtain ⟨rfl, hwritable⟩ := hwrite
    have hnil : enc.WellFormed (cell w []) :=
      (wellFormed_cell ((cells w).nil : NameReads []).valueReads).2 Encoding.wellFormed_nil
    rw [Option.map_some, Option.bind_some, (replace_rewrites w).text, replace_ending, fromJson,
      read_text_iff (cells w) hwritable w.white, wellFormed_text hnil w.white, ← Forest.all_and]
    rw [and_iff_right ⟨rfl, hwritable⟩]
    refine Forest.all_congr (fun s => ?_) (fun s => ?_) children
    · exact and_congr_left fun h => wellFormed_cell h.valueReads
    · exact and_congr_left fun h => wellFormed_cell h
  · rename_i hwrite
    exact iff_of_false (by simp) fun h => hwrite h.1

end Trees

end StDns.Log
