import StDns.Protocol.Generate

/-!
# What the encoder makes of a host

The labels of a host begin and end at its dots (`spans`). The encoder keeps both indices modulo 256, so it writes a
label as it is unless the label crosses index 256 or is empty at a multiple of 256. On a host without zero bytes whose
labels have at most 63 characters it writes as many bytes as it declares iff all labels are `Fits` (`nameBytes_iff`).
-/

namespace StDns.Protocol

open Lib Wire

/-! ## The labels of a host -/

/-- The labels in the characters `rest` from index `i` on, the first of which began at `b`: from where to where. -/
def spansFrom : Bytes → Nat → Nat → List (Nat × Nat)
  | [], i, b => [(b, i)]
  | ch :: rest, i, b => if ch = dot then (b, i) :: spansFrom rest (i + 1) (i + 1) else spansFrom rest (i + 1) b

def spans (host : Bytes) : List (Nat × Nat) := spansFrom host 0 0

/-- The characters of a label. -/
def spanText (host : Bytes) (s : Nat × Nat) : Bytes := (host.drop s.1).take (s.2 - s.1)

/-- A label as the encoder keeps it. -/
def kept (s : Nat × Nat) : UInt8 × UInt8 := (UInt8.ofNat s.1, UInt8.ofInt ((s.2 : Int) - 1))

/-- The number of characters that the encoder writes for a label. -/
def keptCount (s : Nat × Nat) : Nat := (s.2 + 255) % 256 + 1 - s.1 % 256

section Spans

variable {host : Bytes}

theorem subLensFrom_eq : ∀ (rest : Bytes) (i b : Nat), subLensFrom rest i b = (spansFrom rest i b).map kept
  | [], i, b => rfl
  | ch :: rest, i, b => by
    rw [subLensFrom, spansFrom, subLensFrom_eq rest, subLensFrom_eq rest]
    split <;> rfl

/-- The labels are the pieces between the dots. -/
theorem spansFrom_text : ∀ (rest pre cur : Bytes), dot ∉ cur →
    (spansFrom rest (pre ++ cur).length pre.length).map (spanText (pre ++ cur ++ rest)) = (cur ++ rest).splitOn dot
  | [], pre, cur, h => by simp [spansFrom, spanText, List.splitOn_eq_singleton h]
  | ch :: rest, pre, cur, h => by
    rw [spansFrom]
    by_cases hch : ch = dot
    · subst hch
      have ih := spansFrom_text rest (pre ++ cur ++ [dot]) [] (by simp)
      rw [List.append_nil, @List.length_append _ _ [dot], List.length_singleton, List.nil_append,
        List.append_assoc (pre ++ cur), List.singleton_append] at ih
      rw [if_pos rfl, List.map_cons, ih, List.splitOn_append_cons_self_of_not_mem h]
      simp [spanText]
    · have ih := spansFrom_text rest pre (cur ++ [ch]) (by simp [h, Ne.symm hch])
      have hlen : (pre ++ (cur ++ [ch])).length = (pre ++ cur).length + 1 := by
        rw [← List.append_assoc, List.length_append, List.length_singleton]
      rw [hlen, List.append_assoc cur, ← List.append_assoc pre cur, List.append_assoc (pre ++ cur),
        List.singleton_append] at ih
      rw [if_neg hch, ih]

theorem spans_text (host : Bytes) : (spans host).map (spanText host) = host.splitOn dot :=
  spansFrom_text host [] [] (by simp)

/-- A label of the host: no dot in it, and a dot or an end on either side. -/
def IsSpan (host : Bytes) (s : Nat × Nat) : Prop :=
  s.1 ≤ s.2 ∧ s.2 ≤ host.length ∧ (∀ j, s.1 ≤ j → j < s.2 → host[j]? ≠ some dot) ∧
    (host ++ [dot])[s.2]? = some dot ∧ (s.1 = 0 ∨ host[s.1 - 1]? = some dot)

theorem isSpan_of_mem_spansFrom : ∀ {rest : Bytes} {i b : Nat}, host.drop i = rest → i ≤ host.length → b ≤ i →
    (∀ j, b ≤ j → j < i → host[j]? ≠ some dot) → (b = 0 ∨ host[b - 1]? = some dot) →
    ∀ s ∈ spansFrom rest i b, IsSpan host s
  | [], i, b, hrest, hi, hb, hno, hbegin, s, hs => by
    have hlen : host.length = i := Nat.le_antisymm (List.drop_eq_nil_iff.1 hrest) hi
    rw [spansFrom, List.mem_singleton] at hs
    subst hs
    exact ⟨hb, hi, hno, by simp [← hlen], hbegin⟩
  | ch :: rest, i, b, hrest, hi, hb, hno, hbegin, s, hs => by
    have hch : host[i]? = some ch := by
      have h0 : (host.drop i)[0]? = some ch := by rw [hrest]; rfl
      simpa using h0
    have hlt := (List.getElem?_eq_some_iff.1 hch).1
    have hnext : host.drop (i + 1) = rest := by rw [← List.drop_drop, hrest]; rfl
    rw [spansFrom] at hs
    split at hs
    · rename_i hdot
      subst hdot
      rcases List.mem_cons.1 hs with rfl | hs
      · exact ⟨hb, hi, hno, by rw [List.getElem?_append_left hlt]; exact hch, hbegin⟩
      · exact isSpan_of_mem_spansFrom hnext hlt (Nat.le_refl _) (fun j hj hj' => absurd hj' (by omega)) (.inr hch) s hs
    · rename_i hdot
      refine isSpan_of_mem_spansFrom hnext hlt (by omega) (fun j hj hj' => ?_) hbegin s hs
      rcases Nat.lt_or_eq_of_le (Nat.le_of_lt_succ hj') with hj' | rfl
      · exact hno j hj hj'
      · rw [hch]
        exact fun h => hdot (Option.some.inj h)

theorem isSpan_of_mem {s : Nat × Nat} (h : s ∈ spans host) : IsSpan host s :=
  isSpan_of_mem_spansFrom rfl (Nat.zero_le _) (Nat.le_refl _) (fun _ _ hj => absurd hj (Nat.not_lt_zero _)) (.inl rfl)
    s h

/-- Every index is in a label or right behind one. -/
theorem spansFrom_covers : ∀ (rest : Bytes) {i b k : Nat}, b ≤ k → k ≤ i + rest.length →
    ∃ s ∈ spansFrom rest i b, s.1 ≤ k ∧ k ≤ s.2
  | [], i, b, k, hb, hk => ⟨(b, i), List.mem_singleton_self _, hb, hk⟩
  | ch :: rest, i, b, k, hb, hk => by
    rw [List.length_cons] at hk
    rw [spansFrom]
    split
    · rcases Nat.lt_or_ge i k with hik | hik
      · obtain ⟨s, hs, hsk⟩ := spansFrom_covers rest (i := i + 1) hik (by omega)
        exact ⟨s, List.mem_cons_of_mem _ hs, hsk⟩
      · exact ⟨(b, i), List.mem_cons_self, hb, hik⟩
    · exact spansFrom_covers rest hb (by omega)

theorem spans_cover {k : Nat} (h : k ≤ host.length) : ∃ s ∈ spans host, s.1 ≤ k ∧ k ≤ s.2 :=
  spansFrom_covers host (Nat.zero_le k) (by omega)

/-- The labels follow each other, one dot between them. -/
def Consecutive : Nat → List (Nat × Nat) → Prop
  | _, [] => True
  | b, s :: ss => s.1 = b ∧ s.1 ≤ s.2 ∧ Consecutive (s.2 + 1) ss

theorem consecutive_spansFrom : ∀ (rest : Bytes) {i b : Nat}, b ≤ i → Consecutive b (spansFrom rest i b)
  | [], i, b, h => ⟨rfl, h, trivial⟩
  | ch :: rest, i, b, h => by
    rw [spansFrom]
    split
    · exact ⟨rfl, h, consecutive_spansFrom rest (Nat.le_refl _)⟩
    · exact consecutive_spansFrom rest (Nat.le_succ_of_le h)

end Spans

/-! ## The labels that are written as they are -/

/-- A label that the encoder writes with its own length: it does not cross index 256, and when it is empty it is not at
a multiple of 256. -/
def Fits (s : Nat × Nat) : Prop := if s.1 = s.2 then s.1 ≠ 0 ∧ s.1 ≠ 256 else 256 ≤ s.1 ∨ s.2 ≤ 256

section Fitting

variable {s : Nat × Nat} {ss : List (Nat × Nat)}

/-- What is written for a label: itself, or nothing, or 256 characters. -/
theorem keptCount_cases (hle : s.1 ≤ s.2) (hlen : s.2 - s.1 ≤ 63) (hend : s.2 ≤ 500) :
    (Fits s ∧ keptCount s = s.2 - s.1) ∨ (¬Fits s ∧ s.1 < 256 ∧ 256 < s.2 ∧ keptCount s = 0) ∨
      (¬Fits s ∧ s.1 = s.2 ∧ keptCount s = 256) := by
  unfold Fits keptCount
  split
  · rename_i he
    rw [he]
    by_cases h0 : s.2 ≠ 0 ∧ s.2 ≠ 256
    · exact .inl ⟨h0, by omega⟩
    · exact .inr (.inr ⟨h0, rfl, by omega⟩)
  · by_cases h0 : 256 ≤ s.1 ∨ s.2 ≤ 256
    · exact .inl ⟨h0, by omega⟩
    · exact .inr (.inl ⟨h0, by omega, by omega, by omega⟩)

/-- Behind index 256 all labels fit. -/
theorem fits_behind : ∀ {ss : List (Nat × Nat)} {b : Nat}, 256 < b → Consecutive b ss → ∀ s ∈ ss, Fits s
  | [], _, _, _ => by simp
  | s :: ss, b, hb, ⟨hs, hle, hss⟩ => by
    refine List.forall_mem_cons.2 ⟨?_, fits_behind (by omega) hss⟩
    unfold Fits
    split <;> omega

/-- **Lengths**: short labels are written with their total length iff each is written with its own. -/
theorem sum_keptCount : ∀ {ss : List (Nat × Nat)} {b : Nat}, Consecutive b ss →
    (∀ s ∈ ss, s.2 - s.1 ≤ 63 ∧ s.2 ≤ 500) →
    (ss.map fun s => s.2 - s.1).sum ≤ (ss.map keptCount).sum + 63 ∧
      ((ss.map keptCount).sum = (ss.map fun s => s.2 - s.1).sum ↔ ∀ s ∈ ss, Fits s)
  | [], _, _, _ => by simp
  | s :: ss, b, ⟨hb, hle, hss⟩, hall => by
    obtain ⟨⟨hlen, hend⟩, hrest⟩ := List.forall_mem_cons.1 hall
    obtain ⟨hbound, hiff⟩ := sum_keptCount hss hrest
    simp only [List.map_cons, List.sum_cons, List.forall_mem_cons]
    obtain ⟨hfits, hcount⟩ | ⟨hfits, hlo, hhi, hcount⟩ | ⟨hfits, heq, hcount⟩ := keptCount_cases hle hlen hend
    · rw [hcount]
      exact ⟨by omega, by simp only [hfits, true_and, ← hiff]; omega⟩
    · -- nothing is written, and what comes behind cannot make up for it
      have hbehind := hiff.2 (fits_behind (by omega) hss)
      rw [hcount]
      exact ⟨by omega, by simp only [hfits, false_and, iff_false]; omega⟩
    · rw [hcount]
      exact ⟨by omega, by simp only [hfits, false_and, iff_false]; omega⟩

end Fitting

/-! ## The hosts that are written as they are -/

/-- A host of at most 500 characters that does not begin with a dot and, when it has 256 or more, has one dot at the
indices 255 and 256, its end counted as one. -/
def Encodable (host : Bytes) : Prop :=
  host.length ≤ 500 ∧ (host ++ [dot])[0]? ≠ some dot ∧
    (256 ≤ host.length → ((host ++ [dot])[255]? = some dot ↔ (host ++ [dot])[256]? ≠ some dot))

instance (host : Bytes) : Decidable (Encodable host) := inferInstanceAs (Decidable (_ ∧ _ ∧ (_ → _)))

section Hosts

variable {host : Bytes} {s : Nat × Nat}

theorem IsSpan.no_dot (h : IsSpan host s) {j : Nat} (hb : s.1 ≤ j) (he : j < s.2) : (host ++ [dot])[j]? ≠ some dot := by
  have hlt : j < host.length := Nat.lt_of_lt_of_le he h.2.1
  rw [List.getElem?_append_left hlt]
  exact h.2.2.1 j hb he

theorem IsSpan.dot_before (h : IsSpan host s) (h0 : s.1 ≠ 0) : (host ++ [dot])[s.1 - 1]? = some dot := by
  have hle := h.1
  have hend := h.2.1
  rw [List.getElem?_append_left (by omega)]
  exact h.2.2.2.2.resolve_left h0

/-- All labels fit iff the dots of the host are where they have to be. -/
theorem encodable_iff (h500 : host.length ≤ 500) : Encodable host ↔ ∀ s ∈ spans host, Fits s := by
  constructor
  · rintro ⟨-, h0, h256⟩ s hs
    have hspan := isSpan_of_mem hs
    have hend := hspan.2.1
    have hdot := hspan.2.2.2.1
    unfold Fits
    split
    · rename_i he
      rw [← he] at hdot hend
      refine ⟨fun e => h0 (e ▸ hdot), fun e => ?_⟩
      have hbefore := hspan.dot_before (by omega)
      rw [e] at hdot hbefore
      exact (h256 (by omega)).1 hbefore hdot
    · rename_i he
      by_contra hcross
      have h255 := hspan.no_dot (j := 255) (by omega) (by omega)
      exact h255 ((h256 (by omega)).2 (hspan.no_dot (by omega) (by omega)))
  · intro hfits
    refine ⟨h500, ?_, fun hlong => ?_⟩
    · obtain ⟨s, hs, hb, -⟩ := spans_cover (Nat.zero_le host.length)
      have hspan := isSpan_of_mem hs
      have hle := hspan.1
      have hfit := hfits s hs
      unfold Fits at hfit
      split at hfit
      · exact absurd (Nat.le_zero.1 hb) hfit.1
      · exact hspan.no_dot hb (by omega)
    · obtain ⟨s, hs, hb, he⟩ := spans_cover hlong
      have hspan := isSpan_of_mem hs
      have hfit := hfits s hs
      unfold Fits at hfit
      split at hfit
      · omega
      · rcases hfit with hlo | hhi
        · -- a label begins at index 256
          have hb' : s.1 = 256 := by omega
          have hbefore := hspan.dot_before (by omega)
          rw [hb'] at hbefore
          exact iff_of_true hbefore (hspan.no_dot hb (by omega))
        · -- a label ends at index 256
          have he' : s.2 = 256 := by omega
          have hdot := hspan.2.2.2.1
          rw [he'] at hdot
          exact iff_of_false (hspan.no_dot (by omega) (by omega)) (not_not.2 hdot)

end Hosts

/-! ## The bytes of a name -/

section Name

variable {host bytes : Bytes} {s : Nat × Nat}

theorem kept_fst (s : Nat × Nat) : (kept s).1.toNat = s.1 % 256 := UInt8.toNat_ofNat'

theorem kept_snd (s : Nat × Nat) : (kept s).2.toNat = (s.2 + 255) % 256 := by
  rw [kept, UInt8.ofInt, UInt8.toNat_ofNat']
  omega

/-- What is written for a label: a length, and so many characters from its first index modulo 256 on. -/
theorem subLenBytes_kept : subLenBytes host (kept s) = some bytes ↔ ∃ chars, Holds host (s.1 % 256) chars ∧
    chars.length = keptCount s ∧
    bytes = UInt8.ofInt (((s.2 + 255) % 256 : Nat) - (s.1 % 256 : Nat) + 1 : Int) :: chars := by
  have hcount : ((((s.2 + 255) % 256 : Nat) - (s.1 % 256 : Nat) + 1 : Int)).toNat = keptCount s := by
    unfold keptCount
    omega
  unfold subLenBytes
  rw [kept_fst, kept_snd]
  simp only [Option.bind_eq_bind, Option.bind_eq_some_iff, hcount, mapM_getElem?_iff, Option.pure_def,
    Option.some.injEq]
  constructor
  · rintro ⟨chars, ⟨hchars, hlen⟩, rfl⟩
    exact ⟨chars, hchars, hlen, rfl⟩
  · rintro ⟨chars, hchars, hlen, rfl⟩
    exact ⟨chars, ⟨hchars, hlen⟩, rfl⟩

/-- What is written for a host is what is written for its labels. -/
theorem nameBytes_eq_some (hz : (0 : UInt8) ∉ host) : nameBytes host = some bytes ↔ ∃ labels,
    List.Forall₂ (fun s b => subLenBytes host (kept s) = some b) (spans host) labels ∧
      bytes = labels.flatten ++ [0] := by
  have hlens : subLens host = (spans host).map kept := by
    rw [subLens, cString_of_zeroFree hz, subLensFrom_eq, spans]
  unfold nameBytes
  simp only [Option.bind_eq_bind, Option.bind_eq_some_iff, mapM_eq_some_iff, hlens, List.forall₂_map_left_iff,
    Option.pure_def, Option.some.injEq, eq_comm (a := bytes)]

theorem length_labels {ss : List (Nat × Nat)} {labels : List Bytes}
    (h : List.Forall₂ (fun s b => subLenBytes host (kept s) = some b) ss labels) :
    labels.flatten.length = (ss.map keptCount).sum + ss.length := by
  induction h with
  | nil => rfl
  | cons hs _ ih =>
    obtain ⟨chars, -, hlen, rfl⟩ := subLenBytes_kept.1 hs
    rw [List.flatten_cons, List.length_append, List.length_cons, hlen, ih, List.map_cons, List.sum_cons,
      List.length_cons]
    omega

/-- The labels and the dots between them make up the host. -/
theorem sum_spansFrom : ∀ (rest : Bytes) {i b : Nat}, b ≤ i →
    ((spansFrom rest i b).map fun s => s.2 - s.1).sum + (spansFrom rest i b).length = rest.length + (i - b) + 1
  | [], i, b, h => by simp [spansFrom]
  | ch :: rest, i, b, h => by
    rw [spansFrom]
    split
    · have ih := sum_spansFrom rest (Nat.le_refl (i + 1))
      rw [List.map_cons, List.sum_cons, List.length_cons, List.length_cons]
      omega
    · have ih := sum_spansFrom rest (show b ≤ i + 1 by omega)
      rw [List.length_cons]
      omega

theorem length_spansFrom : ∀ (rest : Bytes) (i b : Nat),
    (spansFrom rest i b).length + rest.countP (fun ch => ch ≠ dot) = rest.length + 1
  | [], i, b => rfl
  | ch :: rest, i, b => by
    rw [spansFrom]
    by_cases h : ch = dot
    · have ih := length_spansFrom rest (i + 1) (i + 1)
      rw [if_pos h, List.length_cons, List.countP_cons_of_neg (by simpa using h), List.length_cons]
      omega
    · have ih := length_spansFrom rest (i + 1) b
      rw [if_neg h, List.countP_cons_of_pos (by simpa using h), List.length_cons]
      omega

theorem finalDataLen_eq (hz : (0 : UInt8) ∉ host) : finalDataLen host = host.length + 2 := by
  have h := length_spansFrom host 0 0
  rw [finalDataLen, subLens, cString_of_zeroFree hz, subLensFrom_eq, List.length_map]
  omega

/-- The labels of a host whose pieces are short. -/
theorem spans_short (h63 : ∀ piece ∈ host.splitOn dot, piece.length ≤ 63) :
    ∀ s ∈ spans host, s.2 - s.1 ≤ 63 := by
  intro s hs
  obtain ⟨hle, hend, -⟩ := isSpan_of_mem hs
  have hlen := h63 (spanText host s) (spans_text host ▸ List.mem_map_of_mem hs)
  rw [spanText, List.length_take, List.length_drop] at hlen
  omega

/-- **Names**: on a host with short labels the encoder reads only characters of the host and writes what it declares
iff all labels fit. -/
theorem nameBytes_iff (hz : (0 : UInt8) ∉ host) (h500 : host.length ≤ 500)
    (h63 : ∀ piece ∈ host.splitOn dot, piece.length ≤ 63) :
    (∃ bytes, nameBytes host = some bytes ∧ bytes.length = finalDataLen host) ↔ Encodable host := by
  have hall : ∀ s ∈ spans host, s.2 - s.1 ≤ 63 ∧ s.2 ≤ 500 := fun s hs =>
    ⟨spans_short h63 s hs, Nat.le_trans (isSpan_of_mem hs).2.1 h500⟩
  have hsum := sum_spansFrom host (Nat.le_refl 0)
  have hfits := (sum_keptCount (consecutive_spansFrom host (Nat.le_refl 0)) hall).2
  rw [encodable_iff h500, spans, ← hfits, finalDataLen_eq hz]
  constructor
  · rintro ⟨bytes, hbytes, hlen⟩
    obtain ⟨labels, hlabels, rfl⟩ := (nameBytes_eq_some hz).1 hbytes
    rw [List.length_append, length_labels hlabels, List.length_singleton, spans] at hlen
    omega
  · intro heq
    have hread : ∀ s ∈ spans host, ∃ b, subLenBytes host (kept s) = some b := by
      intro s hs
      obtain ⟨hle, hend, -⟩ := isSpan_of_mem hs
      obtain ⟨-, hcount⟩ | ⟨hno, -⟩ | ⟨hno, -⟩ := keptCount_cases hle (hall s hs).1 (hall s hs).2
      · refine ⟨_, subLenBytes_kept.2 ⟨(host.drop (s.1 % 256)).take (keptCount s), List.take_prefix _ _, ?_, rfl⟩⟩
        have hmod := Nat.mod_le s.1 256
        rw [List.length_take, List.length_drop]
        omega
      all_goals exact absurd (hfits.1 heq s hs) hno
    obtain ⟨labels, hlabels⟩ : ∃ labels,
        List.Forall₂ (fun s b => subLenBytes host (kept s) = some b) (spans host) labels := by
      refine ⟨(spans host).map fun s => (subLenBytes host (kept s)).getD [], ?_⟩
      refine List.forall₂_map_right_iff.2 (List.forall₂_same.2 fun s hs => ?_)
      obtain ⟨b, hb⟩ := hread s hs
      rw [hb, Option.getD_some]
    refine ⟨_, (nameBytes_eq_some hz).2 ⟨labels, hlabels, rfl⟩, ?_⟩
    rw [List.length_append, length_labels hlabels, List.length_singleton, spans]
    omega

end Name

end StDns.Protocol
