import Mathlib.Data.List.AList
import Mathlib.Data.List.Induction

/-!
# Maps filled one entry after the other

A map into which entries are inserted in turn has for a key the value of the last of them (`lookup_inserted_concat`),
so every value that is inserted is there after some order of the entries; and when no key is inserted twice it has just
the entries, in some order (`inserted_perm`).
-/

namespace StDns.Lib

variable {Key Value : Type} [DecidableEq Key]

/-- The map into which the entries are inserted in turn. -/
def inserted (entries : List (Key × Value)) : AList fun _ : Key => Value :=
  entries.foldl (fun m e => m.insert e.1 e.2) ∅

section Inserted

variable {entries : List (Key × Value)} {e : Key × Value} {key : Key} {value : Value}

@[simp] theorem inserted_nil : inserted ([] : List (Key × Value)) = ∅ := rfl

theorem inserted_concat : inserted (entries ++ [e]) = (inserted entries).insert e.1 e.2 := by
  rw [inserted, List.foldl_append]
  rfl

/-- The last entry of a key counts. -/
theorem lookup_inserted_concat : (inserted (entries ++ [(key, value)])).lookup key = some value := by
  rw [inserted_concat]
  exact AList.lookup_insert _

theorem mem_of_lookup_inserted (h : (inserted entries).lookup key = some value) : (key, value) ∈ entries := by
  induction entries using List.reverseRecOn with
  | nil =>
    rw [inserted_nil, AList.lookup_empty] at h
    cases h
  | append_singleton entries e ih =>
    rw [inserted_concat] at h
    by_cases hkey : key = e.1
    · subst hkey
      rw [AList.lookup_insert, Option.some.injEq] at h
      rw [← h]
      exact List.mem_append_right _ List.mem_cons_self
    · rw [AList.lookup_insert_ne hkey] at h
      exact List.mem_append_left _ (ih h)

theorem mem_inserted : key ∈ inserted entries ↔ ∃ value, (key, value) ∈ entries := by
  induction entries using List.reverseRecOn with
  | nil => simp [AList.notMem_empty]
  | append_singleton entries e ih =>
    rw [inserted_concat, AList.mem_insert, ih]
    constructor
    · rintro (rfl | ⟨value, h⟩)
      · exact ⟨e.2, List.mem_append_right _ List.mem_cons_self⟩
      · exact ⟨value, List.mem_append_left _ h⟩
    · rintro ⟨value, h⟩
      rcases List.mem_append.1 h with h | h
      · exact .inr ⟨value, h⟩
      · exact .inl (by rw [← List.mem_singleton.1 h])

/-- **No key twice**: the map has the entries. -/
theorem inserted_perm (h : (entries.map Prod.fst).Nodup) :
    (inserted entries).entries.Perm (entries.map fun e => ⟨e.1, e.2⟩) := by
  induction entries using List.reverseRecOn with
  | nil => exact List.Perm.nil
  | append_singleton entries e ih =>
    rw [List.map_append, List.nodup_append] at h
    obtain ⟨hnodup, -, hnew⟩ := h
    have hkey : e.1 ∉ inserted entries := by
      intro hmem
      obtain ⟨value, hvalue⟩ := mem_inserted.1 hmem
      exact hnew e.1 (List.mem_map.2 ⟨_, hvalue, rfl⟩) e.1 (List.mem_singleton_self _) rfl
    rw [inserted_concat, AList.insert_of_notMem hkey, List.map_append]
    exact (List.Perm.cons _ (ih hnodup)).trans (List.perm_append_singleton _ _).symm

end Inserted

end StDns.Lib
