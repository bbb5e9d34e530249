import StDns.Lib.TreePath
import StDns.Log.Cells
import StDns.Utils.Strings

/-!
# The dimensions of a measurement

A measurement is counted under the JSON text of its dimensions, and the report reads that text again. It gets the same
dimensions back iff no name and no value is changed by the rewriting of numbers, or a value is changed to a number as
JSON has them (`id_read_back_iff`). A domain of digits with a zero in front ends the report.
-/

namespace StDns.Log

open Lib Lib.Json Utils

/-! ## The source -/

/-- The path of a name: what is between its points, without what is empty behind the last. -/
def path (name : Bytes) : List Bytes :=
  let parts := split name point
  if parts.getLast? = some [] then parts.dropLast else parts

/-- `ptree::put`; nothing when it asserts that a path does not end with the point, at a path that is new. -/
def put (dimensions : Json.Tree) (name value : Bytes) : Option Json.Tree :=
  if name.getLast? = some point ∧ dimensions.get (path name) = none then none
  else some (dimensions.set value (path name))

/-- Names with their values, put one after the other. -/
def putAll (given : List (Bytes × Bytes)) : Option Json.Tree :=
  given.foldlM (fun dimensions d => put dimensions d.1 d.2) (leaf [])

/-- The ways to count a measurement: a logger that has got its dimensions before its `end`, and `perf`. -/
inductive Call where
  | ended (name : Bytes) (added : List (Bytes × Bytes))
  | perf (name : Bytes) (dimensions : List (Bytes × Bytes))

/-- The names and values that are put, in order. -/
def Call.given : Call → List (Bytes × Bytes)
  | ended name added => (ascii "name", name) :: added
  | perf name dimensions => dimensions ++ [(ascii "name", name)]

/-- The dimensions of a call. -/
def Call.dimensions (call : Call) : Option Json.Tree := putAll call.given

/-- The id that a measurement is counted under; the coding in base 64 is not a part of it. -/
def Call.dimensionsId (w : Writer) (call : Call) : Option Bytes := call.dimensions.bind (toJson w)

/-- The dimensions that the report reads from an id. -/
def reportDimensions (enc : Encoding) (dimensionsId : Bytes) : Option Json.Tree := fromJson enc dimensionsId

/-! ## What the dimensions are -/

/-- The value that is put at a path last. -/
def lastValue (given : List (Bytes × Bytes)) (p : List Bytes) : Option Bytes :=
  (given.reverse.find? fun d => path d.1 = p).map fun d => d.2

/-- The path is on the way to one where something is put. -/
def Touched (given : List (Bytes × Bytes)) (p : List Bytes) : Prop := p = [] ∨ ∃ d ∈ given, p <+: path d.1

instance (given : List (Bytes × Bytes)) (p : List Bytes) : Decidable (Touched given p) :=
  inferInstanceAs (Decidable (_ ∨ ∃ d ∈ given, _))

/-- What of the given names and values is read back: those that keep their quotes or are numbers of JSON, when what is
put at one path does not hide what is put at another. -/
structure ReadBack (enc : Encoding) (given : List (Bytes × Bytes)) : Prop where
  names : ∀ d ∈ given, ∀ name ∈ path d.1, enc.WellFormed name ∧ NameReads name
  values : ∀ p value, lastValue given p = some value → enc.WellFormed value ∧ ValueReads value
  apart : ∀ p value, lastValue given p = some value → value ≠ [] →
    p ≠ [] ∧ ∀ d ∈ given, p <+: path d.1 → path d.1 = p

section Put

variable {given : List (Bytes × Bytes)} {tree tree' : Json.Tree} {name value : Bytes} {p : List Bytes}

theorem lastValue_concat (given : List (Bytes × Bytes)) (name value : Bytes) (p : List Bytes) :
    lastValue (given ++ [(name, value)]) p = if path name = p then some value else lastValue given p := by
  rw [lastValue, List.reverse_append, List.reverse_singleton, List.singleton_append, List.find?_cons]
  by_cases h : path name = p
  · simp [h]
  · simp [h, lastValue]

theorem touched_concat : Touched (given ++ [(name, value)]) p ↔ Touched given p ∨ p <+: path name := by
  simp only [Touched, List.mem_append, List.mem_singleton]
  constructor
  · rintro (h | ⟨d, hd | rfl, hp⟩)
    · exact .inl (.inl h)
    · exact .inl (.inr ⟨d, hd, hp⟩)
    · exact .inr hp
  · rintro ((h | ⟨d, hd, hp⟩) | hp)
    · exact .inl h
    · exact .inr ⟨d, .inl hd, hp⟩
    · exact .inr ⟨_, .inr rfl, hp⟩

/-- What is put at a path is there, and trees without data are on the way to it. -/
theorem get_put (h : put tree name value = some tree') (htree : tree.Distinct)
    (hget : ∀ p, tree.get p = (lastValue given p).or (if Touched given p then some [] else none)) :
    tree'.Distinct ∧ ∀ p, tree'.get p = (lastValue (given ++ [(name, value)]) p).or
      (if Touched (given ++ [(name, value)]) p then some [] else none) := by
  rw [put] at h
  split at h
  · cases h
  · cases h
    refine ⟨htree.set value (path name), fun p => ?_⟩
    rw [get_set, lastValue_concat, hget]
    simp only [touched_concat]
    by_cases hp : p = path name
    · rw [if_pos hp, if_pos hp.symm]
      rfl
    · rw [if_neg hp, if_neg (Ne.symm hp)]
      by_cases hbegins : p <+: path name
      · rw [if_pos hbegins, if_pos (show Touched given p ∨ p <+: path name from .inr hbegins)]
        cases lastValue given p with
        | some v => rfl
        | none => by_cases htouched : Touched given p <;> simp [htouched]
      · simp [hbegins]

/-- The last value is at its path, and trees without data are on the way. -/
theorem get_putAll (given : List (Bytes × Bytes)) {tree : Json.Tree} (h : putAll given = some tree) :
    tree.Distinct ∧ ∀ p, tree.get p = (lastValue given p).or (if Touched given p then some [] else none) := by
  induction given using List.reverseRecOn generalizing tree with
  | nil =>
    cases h
    exact ⟨trivial, fun p => by simp [get_leaf, lastValue, Touched]⟩
  | append_singleton given d ih =>
    rw [putAll, List.foldlM_append] at h
    obtain ⟨before, hbefore, hlast⟩ := Option.bind_eq_some_iff.1 h
    rw [List.foldlM_cons] at hlast
    obtain ⟨after, hput, hafter⟩ := Option.bind_eq_some_iff.1 hlast
    obtain rfl : after = tree := Option.some.inj hafter
    obtain ⟨hdistinct, hget⟩ := ih hbefore
    exact get_put hput hdistinct hget

theorem get_isSome (h : putAll given = some tree) : (tree.get p).isSome = true ↔ Touched given p := by
  rw [(get_putAll given h).2]
  by_cases htouched : Touched given p
  · simp [htouched]
  · have hnone : lastValue given p = none := by
      rw [lastValue, Option.map_eq_none_iff, List.find?_eq_none]
      intro d hd hp
      exact htouched (.inr ⟨d, List.mem_reverse.1 hd, by rw [of_decide_eq_true hp]⟩)
    simp [htouched, hnone]

theorem get_of_lastValue (h : putAll given = some tree) (hlast : lastValue given p = some value) :
    tree.get p = some value := by
  rw [(get_putAll given h).2, hlast, Option.some_or]

/-- Data that was put is the last value at its path. -/
theorem lastValue_of_get (h : putAll given = some tree) (hget : tree.get p = some value) (hne : value ≠ []) :
    lastValue given p = some value := by
  rw [(get_putAll given h).2] at hget
  cases hlast : lastValue given p with
  | some v => rwa [hlast] at hget
  | none =>
    rw [hlast, Option.none_or] at hget
    split at hget
    · exact absurd (Option.some.inj hget).symm hne
    · cases hget

end Put

/-! ## Reading the dimensions back -/

section Back

variable {w : Writer} {enc : Encoding} {given : List (Bytes × Bytes)} {tree : Json.Tree}

/-- What is read back of a tree, in terms of what was put into it. -/
theorem atPaths_iff (h : putAll given = some tree) :
    tree.get [] = some [] ∧ tree.AtPaths (fun s => enc.WellFormed s ∧ NameReads s)
      (fun s => enc.WellFormed s ∧ ValueReads s) ↔ ReadBack enc given := by
  constructor
  · rintro ⟨hroot, hpaths⟩
    refine ⟨fun d hd name hname => ?_, fun p value hlast => ?_, fun p value hlast hne => ⟨?_, fun d hd hbegins => ?_⟩⟩
    · obtain ⟨value, hget⟩ := Option.isSome_iff_exists.1 ((get_isSome h).2 (.inr ⟨d, hd, List.prefix_rfl⟩))
      exact (hpaths _ value hget).1 name hname
    · exact (hpaths p value (get_of_lastValue h hlast)).2.1
    · rintro rfl
      rw [get_of_lastValue h hlast] at hroot
      exact hne (Option.some.inj hroot)
    · exact (hpaths p value (get_of_lastValue h hlast)).2.2 hne _ hbegins
        ((get_isSome h).2 (.inr ⟨d, hd, List.prefix_rfl⟩))
  · intro hback
    refine ⟨?_, fun p value hget => ⟨fun name hname => ?_, ?_, fun hne other hbegins hsome => ?_⟩⟩
    · obtain ⟨value, hget⟩ := get_nil_isSome tree
      by_cases hne : value = []
      · rw [hget, hne]
      · exact absurd rfl (hback.apart [] value (lastValue_of_get h hget hne) hne).1
    · rcases (get_isSome h).1 (Option.isSome_of_eq_some hget) with rfl | ⟨d, hd, hbegins⟩
      · cases hname
      · exact hback.names d hd name (hbegins.subset hname)
    · by_cases hne : value = []
      · rw [hne]
        exact ⟨Encoding.wellFormed_nil, fun hlike => absurd hlike (by decide)⟩
      · exact hback.values p value (lastValue_of_get h hget hne)
    · obtain ⟨hp, hothers⟩ := hback.apart p value (lastValue_of_get h hget hne) hne
      rcases (get_isSome h).1 hsome with rfl | ⟨d, hd, hother⟩
      · exact absurd (List.prefix_nil.1 hbegins) hp
      · have heq := hothers d hd (hbegins.trans hother)
        rw [heq] at hother
        exact hother.eq_of_length_le hbegins.length_le

/-- The dimensions are read back iff they are at all paths. -/
theorem putAll_reads_iff (h : putAll given = some tree) :
    (toJson w tree).bind (fromJson enc) = some tree ↔ ReadBack enc given := by
  rw [← atPaths_iff h]
  have hdistinct := (get_putAll given h).1
  obtain ⟨data, children⟩ := tree
  have hnil : enc.WellFormed [] ∧ ValueReads [] := ⟨Encoding.wellFormed_nil, fun hlike => absurd hlike (by decide)⟩
  rw [tree_reads_iff, ← Json.Tree.writable_and_all_iff hnil hdistinct, and_assoc,
    show (Json.Tree.node data children).get [] = some data from rfl, Option.some.injEq]
  refine and_congr_right ?_
  rintro rfl
  cases children with
  | nil => simp [Json.Tree.writable, Json.Tree.All, Forest.writable, Forest.All, hnil]
  | cons name tree rest => simp [Json.Tree.writable, Json.Tree.All]

end Back

/-- **A measurement's dimensions** are read back from its id iff those names and values are that it was given. -/
theorem id_read_back_iff (w : Writer) (enc : Encoding) (call : Call) {dimensions : Json.Tree}
    (h : call.dimensions = some dimensions) :
    (call.dimensionsId w).bind (reportDimensions enc) = some dimensions ↔ ReadBack enc call.given := by
  rw [Call.dimensionsId, h, Option.bind_some]
  exact putAll_reads_iff h

/-- The session's logger for a request of the type A, at its `end`. -/
def requestCall (domain : Bytes) : Call :=
  .ended (ascii "st-dns") [(ascii "query_type", ascii "1"), (ascii "domain", domain),
    (ascii "process_type", ascii "remote"), (ascii "success", ascii "1"), (ascii "first_ip_area", [])]

/-- The dimensions of such a request. -/
def requestDimensions (domain : Bytes) : Json.Tree :=
  .node [] (.cons (ascii "name") (leaf (ascii "st-dns")) (.cons (ascii "query_type") (leaf (ascii "1"))
    (.cons (ascii "domain") (leaf domain) (.cons (ascii "process_type") (leaf (ascii "remote"))
      (.cons (ascii "success") (leaf (ascii "1")) (.cons (ascii "first_ip_area") (leaf []) .nil))))))

theorem requestCall_dimensions (domain : Bytes) :
    (requestCall domain).dimensions = some (requestDimensions domain) := by
  rfl

/-- The witness: a request for `a.cn`. -/
theorem id_read_back_iff_at : ((requestCall (ascii "a.cn")).dimensionsId boostWriter).bind (reportDimensions utf8) =
    some (requestDimensions (ascii "a.cn")) ↔ ReadBack utf8 (requestCall (ascii "a.cn")).given :=
  id_read_back_iff boostWriter utf8 (requestCall (ascii "a.cn")) (requestCall_dimensions _)

/-- A request for the domain `01`, which ends the report. -/
theorem id_not_read_back : ¬∀ (w : Writer) (enc : Encoding) (call : Call) (dimensions : Json.Tree),
    call.dimensions = some dimensions → (call.dimensionsId w).bind (reportDimensions enc) = some dimensions := by
  intro h
  have hput := requestCall_dimensions (ascii "01")
  have hback := (putAll_reads_iff hput).1 (h boostWriter utf8 (requestCall (ascii "01")) _ hput)
  have hdomain : ValueReads (ascii "01") := (hback.values [ascii "domain"] (ascii "01") rfl).2
  exact absurd (hdomain (by decide)).2 (by decide)

end StDns.Log
