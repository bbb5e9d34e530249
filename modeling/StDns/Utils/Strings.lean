import StDns.Lib.Decimal
import Mathlib.Data.List.DropRight

/-!
# Splitting, trimming and joining texts

`strutils` of `string_utils.h`. What is joined with one character and split at it again is the same list iff the
character is in none of the texts and the first of them is not empty (`split_join_iff`), since `join` puts no delimiter
behind what is still empty.
-/

namespace StDns.Utils

open Lib

/-- `split` with a separator of one character. -/
def split (str : Bytes) (separator : UInt8) : List Bytes := if str = [] then [] else str.splitOn separator

/-- `trim`, which is `boost::trim` in the C locale. -/
def trim (str : Bytes) : Bytes := (str.dropWhile isSpace).rdropWhile isSpace

/-- `join`. -/
def join (lists : List Bytes) (delimit : Bytes) : Bytes :=
  lists.foldl (fun result value => (if result = [] then result else result ++ delimit) ++ value) []

/-- The character `,`. -/
def comma : UInt8 := 44

/-- The character `' '`. -/
def space : UInt8 := 32

/-- The character that ends a line. -/
def newline : UInt8 := 10

/-- The bytes of a text in ASCII. -/
def ascii (s : String) : Bytes := s.toList.map fun c => UInt8.ofNat c.toNat

/-! ## Joining -/

section Join

variable {delimit first : Bytes} {lists : List Bytes}

@[simp] theorem join_nil (delimit : Bytes) : join [] delimit = [] := rfl

/-- A first text that is empty leaves nothing behind. -/
@[simp] theorem join_nil_cons : join ([] :: lists) delimit = join lists delimit := rfl

/-- Behind some text every text follows a delimiter. -/
theorem join_cons (h : first ≠ []) :
    join (first :: lists) delimit = first ++ lists.flatMap fun value => delimit ++ value := by
  have run : ∀ (lists : List Bytes) {result : Bytes}, result ≠ [] →
      lists.foldl (fun result value => (if result = [] then result else result ++ delimit) ++ value) result =
        result ++ lists.flatMap fun value => delimit ++ value := by
    intro lists
    induction lists with
    | nil => simp
    | cons value lists ih =>
      intro result hne
      rw [List.foldl_cons, if_neg hne, ih (by simp [hne]), List.flatMap_cons]
      simp only [List.append_assoc]
  rw [join, List.foldl_cons, if_pos rfl, List.nil_append, run lists h]

theorem join_eq_intercalate (h : first ≠ []) :
    join (first :: lists) delimit = delimit.intercalate (first :: lists) := by
  rw [join_cons h]
  clear h
  induction lists generalizing first with
  | nil => simp
  | cons value lists ih =>
    rw [List.intercalate_cons_cons, ← ih, List.flatMap_cons]
    simp only [List.append_assoc]

/-- A joined text has what its parts and the delimiter have. -/
theorem mem_join {c : UInt8} (h : c ∈ join lists delimit) : (∃ value ∈ lists, c ∈ value) ∨ c ∈ delimit := by
  induction lists with
  | nil => cases h
  | cons first lists ih =>
    by_cases hfirst : first = []
    · rw [hfirst, join_nil_cons] at h
      exact (ih h).imp_left fun ⟨value, hvalue, hc⟩ => ⟨value, List.mem_cons_of_mem _ hvalue, hc⟩
    · rw [join_cons hfirst, List.mem_append, List.mem_flatMap] at h
      rcases h with h | ⟨value, hvalue, h⟩
      · exact .inl ⟨first, List.mem_cons_self, h⟩
      · rcases List.mem_append.1 h with h | h
        · exact .inr h
        · exact .inl ⟨value, List.mem_cons_of_mem _ hvalue, h⟩

end Join

/-! ## Splitting -/

section Split

variable {separator : UInt8} {str piece : Bytes} {lists : List Bytes}

@[simp] theorem split_nil (separator : UInt8) : split [] separator = [] := rfl

theorem split_of_ne_nil (h : str ≠ []) : split str separator = str.splitOn separator := if_neg h

theorem notMem_of_mem_splitOn (h : piece ∈ str.splitOn separator) : separator ∉ piece := by
  induction str generalizing piece with
  | nil =>
    rw [List.splitOn_nil, List.mem_singleton] at h
    rw [h]
    exact List.not_mem_nil
  | cons c str ih =>
    rw [List.splitOn_cons_eq_if_modifyHead] at h
    split at h
    · rcases List.mem_cons.1 h with rfl | h
      · exact List.not_mem_nil
      · exact ih h
    · rename_i hc
      obtain ⟨first, rest, hsplit⟩ := List.exists_cons_of_ne_nil (List.splitOn_ne_nil separator str)
      rw [hsplit, List.modifyHead_cons] at h
      rw [hsplit] at ih
      rcases List.mem_cons.1 h with rfl | h
      · rw [List.mem_cons, not_or]
        exact ⟨fun e => hc (beq_iff_eq.2 e.symm), ih List.mem_cons_self⟩
      · exact ih (List.mem_cons_of_mem _ h)

theorem mem_of_mem_splitOn {c : UInt8} (h : piece ∈ str.splitOn separator) (hc : c ∈ piece) : c ∈ str := by
  induction str generalizing piece with
  | nil =>
    rw [List.splitOn_nil, List.mem_singleton] at h
    rwa [h] at hc
  | cons d str ih =>
    rw [List.splitOn_cons_eq_if_modifyHead] at h
    split at h
    · rcases List.mem_cons.1 h with rfl | h
      · cases hc
      · exact List.mem_cons_of_mem _ (ih h hc)
    · obtain ⟨first, rest, hsplit⟩ := List.exists_cons_of_ne_nil (List.splitOn_ne_nil separator str)
      rw [hsplit, List.modifyHead_cons] at h
      rw [hsplit] at ih
      rcases List.mem_cons.1 h with rfl | h
      · exact List.mem_cons.2 ((List.mem_cons.1 hc).imp_right (ih List.mem_cons_self))
      · exact List.mem_cons_of_mem _ (ih (List.mem_cons_of_mem _ h) hc)

/-- The pieces have what the text has. -/
theorem mem_of_mem_split {c : UInt8} (h : piece ∈ split str separator) (hc : c ∈ piece) : c ∈ str := by
  by_cases hne : str = []
  · rw [hne, split_nil] at h
    cases h
  · rw [split_of_ne_nil hne] at h
    exact mem_of_mem_splitOn h hc

/-- No piece has the separator. -/
theorem notMem_of_mem_split (h : piece ∈ split str separator) : separator ∉ piece := by
  by_cases hne : str = []
  · rw [hne, split_nil] at h
    cases h
  · rw [split_of_ne_nil hne] at h
    exact notMem_of_mem_splitOn h

/-- Texts without the separator are the pieces of what they are joined to, but for empty ones in front. -/
theorem split_join (h : ∀ value ∈ lists, separator ∉ value) :
    split (join lists [separator]) separator = lists.dropWhile (· = []) := by
  induction lists with
  | nil => rfl
  | cons first lists ih =>
    by_cases hfirst : first = []
    · rw [hfirst, join_nil_cons, List.dropWhile_cons_of_pos (by simp)]
      exact ih fun value hvalue => h value (List.mem_cons_of_mem _ hvalue)
    · have hne : join (first :: lists) [separator] ≠ [] := by
        rw [join_cons hfirst]
        exact List.append_ne_nil_of_left_ne_nil hfirst _
      rw [split_of_ne_nil hne, join_eq_intercalate hfirst, List.splitOn_intercalate separator h (List.cons_ne_nil _ _),
        List.dropWhile_cons_of_neg (by simpa using hfirst)]

/-- **Joined and split**: the list comes back iff no text of it has the separator and the first is not empty. -/
theorem split_join_iff : split (join lists [separator]) separator = lists ↔
    (∀ value ∈ lists, separator ∉ value) ∧ lists.head? ≠ some [] := by
  constructor
  · intro h
    have hfree : ∀ value ∈ lists, separator ∉ value := by
      intro value hvalue
      rw [← h] at hvalue
      exact notMem_of_mem_split hvalue
    refine ⟨hfree, fun hhead => ?_⟩
    obtain ⟨rest, rfl⟩ := List.head?_eq_some_iff.1 hhead
    rw [split_join hfree, List.dropWhile_cons_of_pos (by simp)] at h
    have hlen := (List.dropWhile_sublist (fun value : Bytes => decide (value = [])) (l := rest)).length_le
    rw [h, List.length_cons] at hlen
    omega
  · rintro ⟨hfree, hhead⟩
    rw [split_join hfree]
    cases lists with
    | nil => rfl
    | cons first lists =>
      have hne : first ≠ [] := fun e => hhead (e ▸ rfl)
      exact List.dropWhile_cons_of_neg (by simpa using hne)

end Split

/-! ## Trimming -/

section Trim

variable {str : Bytes} {c : UInt8}

@[simp] theorem trim_nil : trim [] = [] := rfl

theorem length_trim_le (str : Bytes) : (trim str).length ≤ str.length :=
  (List.rdropWhile_prefix isSpace _).length_le.trans (List.dropWhile_sublist isSpace).length_le

/-- Space in front of a text is taken away with its own. -/
theorem trim_cons (h : isSpace c = true) (str : Bytes) : trim (c :: str) = trim str := by
  rw [trim, trim, List.dropWhile_cons_of_pos h]

/-- Space behind a text is taken away with its own. -/
theorem trim_concat (h : isSpace c = true) (str : Bytes) : trim (str ++ [c]) = trim str := by
  rw [trim, trim, List.dropWhile_append]
  split
  · rename_i hempty
    rw [List.isEmpty_iff.1 hempty, List.dropWhile_cons_of_pos h, List.dropWhile_nil]
  · exact List.rdropWhile_concat_pos _ _ _ h

theorem mem_of_mem_trim {d : UInt8} (h : d ∈ trim str) : d ∈ str :=
  (List.dropWhile_sublist isSpace).mem ((List.rdropWhile_prefix isSpace _).sublist.mem h)

/-- Nothing is taken from a text iff it neither begins nor ends with space. -/
theorem trim_eq_self_iff : trim str = str ↔
    (∀ c ∈ str.head?, isSpace c = false) ∧ ∀ c ∈ str.getLast?, isSpace c = false := by
  constructor
  · intro h
    have hlen : (str.dropWhile isSpace).length = str.length := by
      have hle := (List.rdropWhile_prefix isSpace (str.dropWhile isSpace)).length_le
      have hle' := (List.dropWhile_sublist isSpace (l := str)).length_le
      rw [← trim, h] at hle
      omega
    have hdrop : str.dropWhile isSpace = str := (List.dropWhile_sublist isSpace).eq_of_length hlen
    refine ⟨fun c hc => ?_, fun c hc => ?_⟩
    · obtain ⟨rest, rfl⟩ := List.head?_eq_some_iff.1 hc
      by_contra hspace
      rw [List.dropWhile_cons_of_pos (by simpa using hspace)] at hlen
      have hle := (List.dropWhile_sublist isSpace (l := rest)).length_le
      rw [List.length_cons] at hlen
      omega
    · obtain ⟨rest, rfl⟩ := List.getLast?_eq_some_iff.1 hc
      rw [trim, hdrop] at h
      by_contra hspace
      rw [List.rdropWhile_concat_pos _ _ _ (by simpa using hspace)] at h
      have hle := (List.rdropWhile_prefix isSpace rest).length_le
      rw [h, List.length_append, List.length_singleton] at hle
      omega
  · rintro ⟨hhead, hlast⟩
    have hdrop : str.dropWhile isSpace = str := by
      cases str with
      | nil => rfl
      | cons c rest => exact List.dropWhile_cons_of_neg (by simp [hhead c rfl])
    rw [trim, hdrop]
    refine List.rdropWhile_eq_self_iff.2 fun hne => ?_
    simp [hlast _ (List.getLast?_eq_getLast_of_ne_nil hne)]

end Trim

/-! ## What is joined, trimmed and split again -/

section Joined

variable {separator : UInt8} {first value : Bytes} {lists : List Bytes} {c : UInt8}

/-- What is in front of the first separator is the first piece. -/
theorem split_append_cons (h : separator ∉ first) (str : Bytes) :
    split (first ++ separator :: str) separator = first :: str.splitOn separator := by
  rw [split_of_ne_nil (by simp)]
  have hfree : ∀ c ∈ first, (c == separator) = false := fun c hc => beq_eq_false_iff_ne.2 fun e => h (e ▸ hc)
  rw [List.splitOn_eq_splitOnP, List.splitOn_eq_splitOnP]
  rw [List.splitOnP_append_cons_of_forall_mem hfree]
  exact beq_self_eq_true separator

theorem length_join_le : (join lists [separator]).length ≤ ([separator].intercalate lists).length := by
  induction lists with
  | nil => exact Nat.le_refl _
  | cons first lists ih =>
    by_cases hfirst : first = []
    · rw [hfirst, join_nil_cons]
      cases lists with
      | nil => exact Nat.zero_le _
      | cons second lists =>
        refine ih.trans ?_
        rw [List.intercalate_cons_cons]
        simp
    · rw [join_eq_intercalate hfirst]

/-- A joined text begins as its first one, which is not empty. -/
theorem head?_join (h : first ≠ []) : (join (first :: lists) [separator]).head? = first.head? := by
  rw [join_cons h, List.head?_append_of_ne_nil _ h]

/-- A joined text ends as its last one, or with a separator. -/
theorem getLast?_join (h : first ≠ []) (hlast : (first :: lists).getLast? = some value) :
    (join (first :: lists) [separator]).getLast? = if value = [] then some separator else value.getLast? := by
  rw [join_cons h]
  rcases List.eq_nil_or_concat lists with rfl | ⟨before, last, rfl⟩
  · obtain rfl : first = value := by simpa using hlast
    rw [if_neg h, List.flatMap_nil, List.append_nil]
  · rw [List.concat_eq_append, ← List.cons_append, List.getLast?_concat, Option.some.injEq] at hlast
    subst hlast
    rw [List.concat_eq_append, List.flatMap_append, ← List.append_assoc, List.flatMap_singleton]
    by_cases hvalue : last = []
    · simp [hvalue]
    · rw [if_neg hvalue, List.singleton_append, List.append_cons, List.getLast?_append_of_ne_nil _ hvalue]

/-- **Joined, trimmed and split**: the list comes back iff no text of it has the separator, the first is not empty, and
neither is there space at its beginning nor at the end of the last. -/
theorem split_trim_join_iff (hsep : isSpace separator = false) :
    split (trim (join lists [separator])) separator = lists ↔
      (∀ value ∈ lists, separator ∉ value) ∧ lists.head? ≠ some [] ∧
        (∀ value ∈ lists.head?, ∀ c ∈ value.head?, isSpace c = false) ∧
        ∀ value ∈ lists.getLast?, ∀ c ∈ value.getLast?, isSpace c = false := by
  cases lists with
  | nil => simp
  | cons first lists =>
    obtain ⟨last, hlast⟩ : ∃ last, (first :: lists).getLast? = some last := ⟨_, List.getLast?_cons⟩
    -- the text is not trimmed when there is no space at the ends of its first and last part
    have htrim : first ≠ [] → (trim (join (first :: lists) [separator]) = join (first :: lists) [separator] ↔
        (∀ c ∈ first.head?, isSpace c = false) ∧ ∀ c ∈ last.getLast?, isSpace c = false) := by
      intro hfirst
      rw [trim_eq_self_iff, head?_join hfirst, getLast?_join hfirst hlast]
      refine and_congr_right fun _ => ?_
      by_cases hvalue : last = []
      · simp [hvalue, hsep]
      · rw [if_neg hvalue]
    simp only [List.head?_cons, hlast, Option.mem_def, Option.some.injEq, forall_eq', ne_eq]
    constructor
    · intro h
      have hfree : ∀ value ∈ first :: lists, separator ∉ value := by
        intro value hvalue
        rw [← h] at hvalue
        exact notMem_of_mem_split hvalue
      have hne : trim (join (first :: lists) [separator]) ≠ [] := by
        intro hnil
        rw [hnil, split_nil] at h
        cases h
      rw [split_of_ne_nil hne] at h
      have hjoin := @List.intercalate_splitOn _ (trim (join (first :: lists) [separator])) _ _ separator
      rw [h] at hjoin
      have hfirst : first ≠ [] := by
        rintro rfl
        cases lists with
        | nil => exact hne rfl
        | cons second lists =>
          have hlen := congrArg List.length hjoin
          have htrimmed := length_trim_le (join ([] :: second :: lists) [separator])
          have hjoined := @length_join_le separator (second :: lists)
          rw [List.intercalate_cons_cons, List.nil_append, List.length_append, List.length_singleton] at hlen
          rw [join_nil_cons] at htrimmed hlen
          omega
      rw [← join_eq_intercalate hfirst] at hjoin
      exact ⟨hfree, hfirst, (htrim hfirst).1 hjoin.symm⟩
    · rintro ⟨hfree, hfirst, hends⟩
      rw [(htrim hfirst).2 hends]
      exact split_join_iff.2 ⟨hfree, by simpa using hfirst⟩

end Joined

end StDns.Utils
