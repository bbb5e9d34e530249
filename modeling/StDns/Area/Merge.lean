import StDns.Area.NetCaches
import StDns.Lib.Inserted
import Mathlib.Data.Finset.Dedup
import Mathlib.Data.Finset.Card
import Mathlib.Data.List.Forall2

/-!
# What a round merges

A source of a round is the cache or a valid line of the file, and a round is right when the new cache has the addresses
of its sources, each with an area from one of them, and agrees with the file if that is rewritten (`Merges`). It is
right when the cache has all valid lines already, or else when its own lines are new and the lines of the set are
harmless: none makes the loop fail, what is accepted is from a source, every source is accepted, and no address is
written twice (`merges_iff`). A cache that is empty after a restart stays empty (`sync_forgets`).
-/

namespace StDns.Area

open Lib Utils

/-! ## Lines -/

/-- A line with two fields, an address as four numbers with dots and an area. -/
def ValidLine (line : Bytes) (ip : UInt32) (area : Bytes) : Prop :=
  ∃ addr, line = addr ++ tab :: area ∧ DottedQuad addr ip ∧ area ≠ [] ∧ tab ∉ area

/-- The loop accepts the line with the address and the area. -/
def Accepts (line : Bytes) (ip : UInt32) (area : Bytes) : Prop := readRecord line = some (some (ip, area))

instance (line : Bytes) (ip : UInt32) (area : Bytes) : Decidable (Accepts line ip area) :=
  inferInstanceAs (Decidable (_ = _))

section Lines

variable {line first area area' addr content : Bytes} {lines : List Bytes} {ip ip' : UInt32} {c : UInt8}
  {netCaches : NetCaches}

theorem accepts_iff : Accepts line ip area ↔
    ∃ first, split line tab = [first, area] ∧ strToIp first = some ip ∧ ip ≠ 9 ∧ area ≠ [] := by
  constructor
  · intro h
    rw [Accepts, readRecord] at h
    split at h
    · cases h
    · rename_i first fields hsplit
      obtain ⟨uip, hread, h⟩ := Option.bind_eq_some_iff.1 h
      split at h
      · cases h
      · rename_i area' rest
        simp only [Option.pure_def, Option.some.injEq, Option.ite_none_right_eq_some, Prod.mk.injEq] at h
        obtain ⟨⟨rfl, hip, hne⟩, rfl, rfl⟩ := h
        exact ⟨first, hsplit, hread, hip, hne⟩
  · rintro ⟨first, hsplit, hread, hip, hne⟩
    rw [Accepts, readRecord, hsplit]
    simp [hread, hip, hne]

/-- An accepted line has two fields. -/
theorem Accepts.eq_append (h : Accepts line ip area) : ∃ first, line = first ++ tab :: area ∧ tab ∉ first ∧
    tab ∉ area ∧ strToIp first = some ip := by
  obtain ⟨first, hsplit, hread, -, hne⟩ := accepts_iff.1 h
  have hline : line ≠ [] := by
    rintro rfl
    cases hsplit
  have hfree : ∀ piece ∈ [first, area], tab ∉ piece := by
    rw [← hsplit]
    exact fun piece hpiece => notMem_of_mem_split hpiece
  rw [split_of_ne_nil hline] at hsplit
  have hjoin : [tab].intercalate (line.splitOn tab) = line := List.intercalate_splitOn tab
  rw [hsplit, List.intercalate_cons_cons, List.intercalate_singleton, List.append_assoc] at hjoin
  exact ⟨first, hjoin.symm, hfree first (by simp), hfree area (by simp), hread⟩

theorem Accepts.area_ne_nil (h : Accepts line ip area) : area ≠ [] := by
  obtain ⟨first, -, -, -, hne⟩ := accepts_iff.1 h
  exact hne

theorem Accepts.ip_ne (h : Accepts line ip area) : ip ≠ 9 := by
  obtain ⟨first, -, -, hip, -⟩ := accepts_iff.1 h
  exact hip

theorem Accepts.tab_notMem (h : Accepts line ip area) : tab ∉ area := by
  obtain ⟨first, -, -, htab, -⟩ := h.eq_append
  exact htab

theorem Accepts.eq (h : Accepts line ip area) (h' : Accepts line ip' area') : ip = ip' ∧ area = area' := by
  rw [Accepts, h, Option.some.injEq, Option.some.injEq, Prod.mk.injEq] at h'
  exact h'

theorem tab_notMem_of_dottedQuad (h : DottedQuad addr ip) : tab ∉ addr := by
  obtain ⟨a, b, c, d, ha, hb, hc, hd, rfl, -⟩ := h
  have hfree : ∀ {digits : Bytes}, Octet digits → tab ∉ digits := by
    intro digits hdigits hmem
    have hdigit := hdigits.digits tab hmem
    revert hdigit
    decide
  have hpoint : tab ≠ point := by decide
  simp only [List.mem_append, List.mem_cons, not_or]
  exact ⟨hfree ha, hpoint, hfree hb, hpoint, hfree hc, hpoint, hfree hd⟩

theorem split_tab (hfirst : tab ∉ first) (harea : tab ∉ area) : split (first ++ tab :: area) tab = [first, area] := by
  have hsplit := @List.splitOn_intercalate _ [first, area] _ _ tab (by simpa using ⟨hfirst, harea⟩) (by simp)
  rw [split_of_ne_nil (by simp)]
  simpa [List.intercalate_cons_cons] using hsplit

/-- A valid line is accepted, but for one address. -/
theorem ValidLine.accepts (h : ValidLine line ip area) (hip : ip ≠ 9) : Accepts line ip area := by
  obtain ⟨addr, rfl, haddr, hne, htab⟩ := h
  exact accepts_iff.2 ⟨addr, split_tab (tab_notMem_of_dottedQuad haddr) htab, haddr.strToIp, hip, hne⟩

theorem validLine_recordLine (hne : area ≠ []) (htab : tab ∉ area) : ValidLine (recordLine ip area) ip area :=
  ⟨ipToStr ip, rfl, dottedQuad_ipToStr ip, hne, htab⟩

theorem mem_fileLines : line ∈ fileLines content ↔ line ∈ content.splitOn newline ∧ line ≠ [] := by
  rw [fileLines, List.mem_filter, decide_eq_true_eq]

theorem newline_notMem_of_mem_fileLines (h : line ∈ fileLines content) : newline ∉ line :=
  notMem_of_mem_splitOn (mem_fileLines.1 h).1

theorem mem_finalRecord : line ∈ finalRecord content netCaches ↔
    line ∈ fileLines content ∨ ∃ ip area, netCaches.lookup ip = some area ∧ line = recordLine ip area := by
  rw [finalRecord, List.mem_dedup, List.mem_append, List.mem_map]
  refine or_congr_right ⟨?_, ?_⟩
  · rintro ⟨e, he, rfl⟩
    exact ⟨e.1, e.2, AList.mem_lookup_iff.2 he, rfl⟩
  · rintro ⟨ip, area, hlookup, rfl⟩
    exact ⟨⟨ip, area⟩, AList.mem_lookup_iff.1 hlookup, rfl⟩

/-- The lines that are written are read again, when none has a line end of its own. -/
theorem fileLines_written (h : ∀ line ∈ lines, newline ∉ line ∧ line ≠ []) :
    fileLines (lines.flatMap fun line => line ++ [newline]) = lines := by
  have hjoin : (lines.flatMap fun line => line ++ [newline]) = [newline].intercalate (lines ++ [[]]) := by
    clear h
    induction lines with
    | nil => rfl
    | cons line lines ih =>
      rw [List.flatMap_cons, ih, List.cons_append]
      cases lines with
      | nil => simp [List.intercalate]
      | cons l lines => rw [List.cons_append, List.intercalate_cons_cons, List.append_assoc]
  rw [hjoin, fileLines, List.splitOn_intercalate]
  · rw [List.filter_append, List.filter_eq_self.2 fun line hline => by simpa using (h line hline).2]
    simp
  · intro line hline
    rcases List.mem_append.1 hline with hline | hline
    · exact (h line hline).1
    · rw [List.mem_singleton.1 hline]
      exact List.not_mem_nil
  · simp

end Lines

/-! ## The loop over the set -/

/-- The lines that the loop accepts. -/
def acceptedLines (lines : List Bytes) : List Bytes := lines.filter fun it => (readRecord it).join.isSome

/-- Their addresses and areas. -/
def acceptedEntries (lines : List Bytes) : List (UInt32 × Bytes) := lines.filterMap fun it => (readRecord it).join

section Loop

variable {line fs : Bytes} {lines : List Bytes} {ip : UInt32} {area : Bytes} {newCaches : NetCaches}
  {result : Bytes × NetCaches}

theorem join_readRecord : (readRecord line).join = some (ip, area) ↔ Accepts line ip area := Option.join_eq_some_iff

theorem mem_acceptedEntries : (ip, area) ∈ acceptedEntries lines ↔ ∃ line ∈ lines, Accepts line ip area := by
  simp only [acceptedEntries, List.mem_filterMap, join_readRecord]

theorem mem_acceptedLines : line ∈ acceptedLines lines ↔ line ∈ lines ∧ ∃ ip area, Accepts line ip area := by
  simp only [acceptedLines, List.mem_filter, Option.isSome_iff_exists, Prod.exists, join_readRecord]

theorem accepted_cons_none (h : (readRecord line).join = none) :
    acceptedLines (line :: lines) = acceptedLines lines ∧ acceptedEntries (line :: lines) = acceptedEntries lines :=
  ⟨List.filter_cons_of_neg (by simp [h]), List.filterMap_cons_none h⟩

theorem accepted_cons_some {e : UInt32 × Bytes} (h : (readRecord line).join = some e) :
    acceptedLines (line :: lines) = line :: acceptedLines lines ∧
      acceptedEntries (line :: lines) = e :: acceptedEntries lines :=
  ⟨List.filter_cons_of_pos (by simp [h]), List.filterMap_cons_some h⟩

/-- The entries are those of the lines, one by one. -/
theorem forall₂_accepted :
    List.Forall₂ (fun line e => Accepts line e.1 e.2) (acceptedLines lines) (acceptedEntries lines) := by
  induction lines with
  | nil => exact List.Forall₂.nil
  | cons it lines ih =>
    cases hit : (readRecord it).join with
    | none =>
      rw [(accepted_cons_none hit).1, (accepted_cons_none hit).2]
      exact ih
    | some e =>
      rw [(accepted_cons_some hit).1, (accepted_cons_some hit).2]
      exact List.Forall₂.cons (join_readRecord.1 hit) ih

/-- **The loop** fails for a line that cannot be read, and otherwise writes and inserts what it accepts. -/
theorem collectRecords_eq_some_iff : collectRecords lines (fs, newCaches) = some result ↔
    (∀ line ∈ lines, readRecord line ≠ none) ∧
      result = (fs ++ (acceptedLines lines).flatMap (fun line => line ++ [newline]),
        (acceptedEntries lines).foldl (fun m e => m.insert e.1 e.2) newCaches) := by
  induction lines generalizing fs newCaches with
  | nil => simp [collectRecords, acceptedLines, acceptedEntries, eq_comm]
  | cons it lines ih =>
    rw [collectRecords, List.forall_mem_cons]
    cases hit : readRecord it with
    | none => simp
    | some record =>
      cases record with
      | none =>
        have hjoin : (readRecord it).join = none := by rw [hit]; rfl
        rw [(accepted_cons_none hjoin).1, (accepted_cons_none hjoin).2]
        simp [ih]
      | some e =>
        have hjoin : (readRecord it).join = some e := by rw [hit]; rfl
        rw [(accepted_cons_some hjoin).1, (accepted_cons_some hjoin).2]
        simp [ih]

/-- From nothing, the new cache is filled with the entries. -/
theorem collectRecords_empty : collectRecords lines ([], ∅) = some result ↔
    (∀ line ∈ lines, readRecord line ≠ none) ∧
      result = ((acceptedLines lines).flatMap (fun line => line ++ [newline]), inserted (acceptedEntries lines)) := by
  rw [collectRecords_eq_some_iff, List.nil_append]
  rfl

end Loop

/-! ## A round -/

/-- The file has all lines of the cache. -/
def InFile (content : Bytes) (netCaches : NetCaches) : Prop :=
  ∀ ip area, netCaches.lookup ip = some area → recordLine ip area ∈ fileLines content

/-- Some line of the set is accepted for the address. -/
def Covered (content : Bytes) (netCaches : NetCaches) (ip : UInt32) : Prop :=
  ∃ line ∈ finalRecord content netCaches, ∃ area, Accepts line ip area

section Merged

variable {it : Iteration} {content fs : Bytes} {duplicate newCaches netCaches : NetCaches} {ip : UInt32} {area : Bytes}
  {line : Bytes} {older : Bool} {r : Round}

/-- The sizes of the sets are the same when the cache has no line of its own. -/
theorem inFile_iff : InFile content duplicate ↔
    (fileLines content).dedup.length = (finalRecord content duplicate).length := by
  have hcard : (finalRecord content duplicate).length = ((fileLines content).toFinset ∪
      (duplicate.entries.map fun e => recordLine e.1 e.2).toFinset).card := by
    rw [← List.toFinset_append, List.card_toFinset, finalRecord]
  rw [hcard, ← List.card_toFinset]
  constructor
  · intro h
    rw [Finset.union_eq_left.2]
    intro line hline
    obtain ⟨e, he, rfl⟩ := List.mem_map.1 (List.mem_toFinset.1 hline)
    exact List.mem_toFinset.2 (h e.1 e.2 (AList.mem_lookup_iff.2 he))
  · intro h ip area hlookup
    have heq := Finset.eq_of_subset_of_card_le Finset.subset_union_left h.ge
    have hmem : recordLine ip area ∈ (duplicate.entries.map fun e => recordLine e.1 e.2).toFinset :=
      List.mem_toFinset.2 (List.mem_map.2 ⟨⟨ip, area⟩, AList.mem_lookup_iff.1 hlookup, rfl⟩)
    rw [← List.mem_toFinset, heq]
    exact Finset.mem_union_right _ hmem

instance : Decidable (InFile content duplicate) := decidable_of_iff _ inFile_iff.symm

theorem merge_of_inFile (h : InFile content duplicate) : merge it content duplicate = some none :=
  if_neg (not_not.2 (inFile_iff.1 h))

/-- **A merge** that brings something new needs lines that can be read, and inserts the accepted ones. -/
theorem merge_eq_some_iff (h : ¬InFile content duplicate) : merge it content duplicate = some (some (fs, newCaches)) ↔
    (∀ line ∈ finalRecord content duplicate, readRecord line ≠ none) ∧
      fs = (acceptedLines (it.order (finalRecord content duplicate))).flatMap (fun line => line ++ [newline]) ∧
      newCaches = inserted (acceptedEntries (it.order (finalRecord content duplicate))) := by
  rw [inFile_iff] at h
  rw [merge, if_pos h, Option.map_eq_some_iff]
  simp only [Option.some.injEq, exists_eq_right, collectRecords_empty, Prod.mk.injEq,
    (it.perm (finalRecord content duplicate)).mem_iff]

/-- The new cache has the addresses that are covered. -/
theorem mem_inserted_iff : ip ∈ inserted (acceptedEntries (it.order (finalRecord content duplicate))) ↔
    Covered content duplicate ip := by
  rw [mem_inserted, Covered]
  simp only [mem_acceptedEntries, (it.perm (finalRecord content duplicate)).mem_iff]
  exact ⟨fun ⟨area, line, hline, h⟩ => ⟨line, hline, area, h⟩, fun ⟨line, hline, area, h⟩ => ⟨area, line, hline, h⟩⟩

theorem not_inFile_of_merge (h : merge it content duplicate = some (some (fs, newCaches))) :
    ¬InFile content duplicate := by
  intro hfile
  rw [merge_of_inFile hfile] at h
  cases h

theorem mem_of_merge (h : merge it content duplicate = some (some (fs, newCaches))) :
    ip ∈ newCaches ↔ Covered content duplicate ip := by
  obtain ⟨-, -, rfl⟩ := (merge_eq_some_iff (not_inFile_of_merge h)).1 h
  exact mem_inserted_iff

end Merged

/-! ## When a round is right -/

/-- A source gives the address the area: the cache, or a valid line of the file. -/
def Source (content : Bytes) (netCaches : NetCaches) (ip : UInt32) (area : Bytes) : Prop :=
  netCaches.lookup ip = some area ∨ ∃ line ∈ fileLines content, ValidLine line ip area

/-- The file has one line for each address of the cache, with its area. -/
def Agrees (content : Bytes) (netCaches : NetCaches) : Prop :=
  ∃ entries : List (Sigma fun _ : UInt32 => Bytes),
    List.Forall₂ (fun line e => ValidLine line e.1 e.2) (fileLines content) entries ∧ entries.Perm netCaches.entries

/-- The round leaves the addresses of its sources with areas of these, and a file that agrees if it is rewritten. -/
structure Merges (content : Bytes) (netCaches : NetCaches) (r : Round) : Prop where
  mem_iff : ∀ ip, ip ∈ r.netCaches ↔ ∃ area, Source content netCaches ip area
  given : ∀ ip area, r.netCaches.lookup ip = some area → Source content netCaches ip area
  agrees : ∀ fs, r.rewritten = some fs → Agrees fs r.netCaches

/-- The lines of the set do no harm. Only a file that is rewritten needs one line per address, each in one piece. -/
structure Harmless (content : Bytes) (netCaches : NetCaches) (older : Bool) : Prop where
  readable : ∀ line ∈ finalRecord content netCaches, readRecord line ≠ none
  given : ∀ line ∈ finalRecord content netCaches, ∀ ip area, Accepts line ip area → Source content netCaches ip area
  covered : ∀ ip area, Source content netCaches ip area → Covered content netCaches ip
  once : older = true → ∀ line ∈ finalRecord content netCaches, ∀ line' ∈ finalRecord content netCaches,
    ∀ ip area area', Accepts line ip area → Accepts line' ip area' → line = line'
  whole : older = true → ∀ line ∈ finalRecord content netCaches, ∀ ip area, Accepts line ip area → newline ∉ area

/-- What a round needs: the cache has all valid lines, when it has no line of its own; or else harmless lines. -/
def Mergeable (content : Bytes) (netCaches : NetCaches) (older : Bool) : Prop :=
  (InFile content netCaches ∧ ∀ line ∈ fileLines content, ∀ ip area, ValidLine line ip area → ip ∈ netCaches) ∨
    (¬InFile content netCaches ∧ Harmless content netCaches older)

/-- What a round leaves that brings something new. -/
def newRound (it : Iteration) (older : Bool) (content : Bytes) (netCaches : NetCaches) : Round where
  netCaches := inserted (acceptedEntries (it.order (finalRecord content netCaches)))
  rewritten :=
    if older then
      some ((acceptedLines (it.order (finalRecord content netCaches))).flatMap fun line => line ++ [newline])
    else none

/-- The lines with one of them put last. -/
def Iteration.last (line : Bytes) : Iteration where
  order lines := if line ∈ lines then lines.erase line ++ [line] else lines
  perm lines := by
    split
    · rename_i h
      exact (List.perm_append_singleton _ _).trans (List.perm_cons_erase h).symm
    · exact List.Perm.refl _

section Right

variable {it : Iteration} {content fs : Bytes} {netCaches newCaches : NetCaches} {ip ip' : UInt32} {area area' : Bytes}
  {line : Bytes} {lines : List Bytes} {older : Bool} {r : Round}

theorem ValidLine.eq (h : ValidLine line ip area) (h' : Accepts line ip' area') : ip = ip' ∧ area = area' := by
  obtain ⟨addr, rfl, haddr, hne, htab⟩ := h
  obtain ⟨first, hsplit, hread, -, -⟩ := accepts_iff.1 h'
  rw [split_tab (tab_notMem_of_dottedQuad haddr) htab, List.cons.injEq, List.cons.injEq] at hsplit
  obtain ⟨rfl, rfl, -⟩ := hsplit
  rw [haddr.strToIp, Option.some.injEq] at hread
  exact ⟨hread, rfl⟩

/-- A round with nothing new leaves all as it is. -/
theorem sync_of_inFile (h : InFile content netCaches) :
    syncNetAreaIp it older (some content) netCaches = some { netCaches := netCaches } := by
  rw [syncNetAreaIp, merge_of_inFile h]
  rfl

theorem sync_of_not_inFile (h : ¬InFile content netCaches) :
    syncNetAreaIp it older (some content) netCaches = some r ↔
      (∀ line ∈ finalRecord content netCaches, readRecord line ≠ none) ∧ r = newRound it older content netCaches := by
  rw [syncNetAreaIp]
  cases hmerge : merge it content netCaches with
  | none =>
    refine ⟨fun hr => (by cases hr), ?_⟩
    rintro ⟨hreadable, -⟩
    rw [(merge_eq_some_iff h).2 ⟨hreadable, rfl, rfl⟩] at hmerge
    cases hmerge
  | some merged =>
    cases merged with
    | none =>
      rw [inFile_iff] at h
      rw [merge, if_pos h, Option.map_eq_some_iff] at hmerge
      obtain ⟨_, -, hnone⟩ := hmerge
      cases hnone
    | some result =>
      obtain ⟨hreadable, hfs, hcaches⟩ := (merge_eq_some_iff h).1 hmerge
      rw [newRound, ← hfs, ← hcaches, and_iff_right hreadable]
      simp [eq_comm]

/-- **A round without new lines** is right iff the cache has all valid lines. -/
theorem merges_unchanged : Merges content netCaches { netCaches := netCaches } ↔
    ∀ line ∈ fileLines content, ∀ ip area, ValidLine line ip area → ip ∈ netCaches := by
  constructor
  · intro hmerges line hline ip area hvalid
    exact (hmerges.mem_iff ip).2 ⟨area, .inr ⟨line, hline, hvalid⟩⟩
  · intro hall
    refine ⟨fun ip => ⟨fun hip => ?_, ?_⟩, fun ip area hlookup => .inl hlookup, fun fs hfs => nomatch hfs⟩
    · obtain ⟨area, harea⟩ := Option.isSome_iff_exists.1 (AList.lookup_isSome.2 hip)
      exact ⟨area, .inl harea⟩
    · rintro ⟨area, hlookup | ⟨line, hline, hvalid⟩⟩
      · exact AList.lookup_isSome.1 (Option.isSome_iff_exists.2 ⟨area, hlookup⟩)
      · exact hall line hline ip area hvalid

/-- The line that comes last decides about its address. -/
theorem lookup_last (hline : line ∈ finalRecord content netCaches) (h : Accepts line ip area) :
    (newRound (Iteration.last line) older content netCaches).netCaches.lookup ip = some area := by
  have horder : (Iteration.last line).order (finalRecord content netCaches) =
      (finalRecord content netCaches).erase line ++ [line] := if_pos hline
  have hentries : acceptedEntries [line] = [(ip, area)] := by
    rw [(accepted_cons_some (join_readRecord.2 h)).2]
    rfl
  rw [newRound, horder, acceptedEntries, List.filterMap_append, ← acceptedEntries, ← acceptedEntries, hentries]
  exact lookup_inserted_concat

theorem ne_nil_of_mem_finalRecord (h : line ∈ finalRecord content netCaches) : line ≠ [] := by
  rcases mem_finalRecord.1 h with h | ⟨ip, area, -, rfl⟩
  · exact (mem_fileLines.1 h).2
  · simp [recordLine]

/-- An accepted line is in one piece when its area is. -/
theorem newline_notMem (hline : line ∈ finalRecord content netCaches) (h : Accepts line ip area)
    (harea : newline ∉ area) : newline ∉ line := by
  rcases mem_finalRecord.1 hline with hfile | ⟨ip', area', hlookup, rfl⟩
  · exact newline_notMem_of_mem_fileLines hfile
  · obtain ⟨first, hline, hfirst, htab, -⟩ := h.eq_append
    obtain ⟨-, -, rfl⟩ := (List.append_cons_inj_of_notMem hfirst htab).1 hline.symm
    rw [recordLine, List.mem_append, List.mem_cons, not_or, not_or]
    exact ⟨notMem_ipToStr rfl (by decide), by decide, harea⟩

/-- When the accepted areas are in one piece, the lines that are written are those of the file. -/
theorem fileLines_acceptedLines (hperm : lines.Perm (finalRecord content netCaches))
    (h : ∀ line ∈ finalRecord content netCaches, ∀ ip area, Accepts line ip area → newline ∉ area) :
    fileLines ((acceptedLines lines).flatMap fun line => line ++ [newline]) = acceptedLines lines := by
  refine fileLines_written fun line hline => ?_
  obtain ⟨hmem, ip, area, haccepts⟩ := mem_acceptedLines.1 hline
  rw [hperm.mem_iff] at hmem
  exact ⟨newline_notMem hmem haccepts (h line hmem ip area haccepts), ne_nil_of_mem_finalRecord hmem⟩

/-- When every address is written once, the accepted lines are valid. -/
theorem Harmless.validLine (h : Harmless content netCaches true) (hline : line ∈ finalRecord content netCaches)
    (haccepts : Accepts line ip area) : ValidLine line ip area := by
  rcases h.given line hline ip area haccepts with hlookup | ⟨line', hline', hvalid⟩
  · have hvalid := @validLine_recordLine area ip haccepts.area_ne_nil haccepts.tab_notMem
    have hmem : recordLine ip area ∈ finalRecord content netCaches :=
      mem_finalRecord.2 (.inr ⟨ip, area, hlookup, rfl⟩)
    rw [h.once rfl line hline _ hmem ip area area haccepts (hvalid.accepts haccepts.ip_ne)]
    exact hvalid
  · have hmem : line' ∈ finalRecord content netCaches := mem_finalRecord.2 (.inl hline')
    rw [h.once rfl line hline line' hmem ip area area haccepts (hvalid.accepts haccepts.ip_ne)]
    exact hvalid

/-- No address is inserted twice, when none is written twice. -/
theorem Harmless.nodup (h : Harmless content netCaches true) (hperm : lines.Perm (finalRecord content netCaches)) :
    ((acceptedEntries lines).map Prod.fst).Nodup := by
  have hnodup : lines.Nodup := hperm.nodup_iff.2 (List.nodup_dedup _)
  have hmem : ∀ line ∈ lines, line ∈ finalRecord content netCaches := fun line hline => hperm.mem_iff.1 hline
  clear hperm
  induction lines with
  | nil => exact List.nodup_nil
  | cons line lines ih =>
    obtain ⟨hnew, hnodup⟩ := List.nodup_cons.1 hnodup
    obtain ⟨hline, hlines⟩ := List.forall_mem_cons.1 hmem
    cases hit : (readRecord line).join with
    | none =>
      rw [(accepted_cons_none hit).2]
      exact ih hnodup hlines
    | some e =>
      rw [(accepted_cons_some hit).2, List.map_cons, List.nodup_cons]
      refine ⟨fun hfst => ?_, ih hnodup hlines⟩
      obtain ⟨⟨ip', area'⟩, he, hip⟩ := List.mem_map.1 hfst
      obtain ⟨line', hline', haccepts⟩ := mem_acceptedEntries.1 he
      have hsame : Accepts line ip' e.2 := by
        change ip' = e.1 at hip
        rw [hip]
        exact join_readRecord.1 hit
      exact hnew (h.once rfl line hline line' (hlines line' hline') ip' e.2 area' hsame haccepts ▸ hline')

/-- **Harmless lines** are merged, in any order. -/
theorem Harmless.merges (h : Harmless content netCaches older) :
    Merges content netCaches (newRound it older content netCaches) := by
  have hperm := it.perm (finalRecord content netCaches)
  have hgiven : ∀ ip area, (newRound it older content netCaches).netCaches.lookup ip = some area →
      Source content netCaches ip area := by
    intro ip area hlookup
    obtain ⟨line, hline, haccepts⟩ := mem_acceptedEntries.1 (mem_of_lookup_inserted hlookup)
    exact h.given line (hperm.mem_iff.1 hline) ip area haccepts
  refine ⟨fun ip => ⟨fun hip => ?_, ?_⟩, hgiven, ?_⟩
  · obtain ⟨area, harea⟩ := Option.isSome_iff_exists.1 (AList.lookup_isSome.2 hip)
    exact ⟨area, hgiven ip area harea⟩
  · rintro ⟨area, hsource⟩
    exact mem_inserted_iff.2 (h.covered ip area hsource)
  · intro fs hfs
    cases older with
    | false => cases hfs
    | true =>
      cases hfs
      refine ⟨_, ?_, (inserted_perm (h.nodup hperm)).symm⟩
      rw [fileLines_acceptedLines hperm (h.whole rfl), List.forall₂_map_right_iff]
      have hmem : ∀ line ∈ acceptedLines (it.order (finalRecord content netCaches)),
          line ∈ finalRecord content netCaches := fun line hline => hperm.mem_iff.1 (mem_acceptedLines.1 hline).1
      exact ((List.forall₂_and_left _ _).2 ⟨hmem, forall₂_accepted⟩).imp fun line e hline =>
        h.validLine hline.1 hline.2

/-- **Only harmless lines** are merged in all orders. -/
theorem harmless_of_merges (hreadable : ∀ line ∈ finalRecord content netCaches, readRecord line ≠ none)
    (h : ∀ it, Merges content netCaches (newRound it older content netCaches)) :
    Harmless content netCaches older := by
  have hwhole : older = true → ∀ line ∈ finalRecord content netCaches, ∀ ip area, Accepts line ip area →
      newline ∉ area := by
    rintro rfl line hline ip area haccepts hmem
    obtain ⟨entries, hlines, hperm⟩ := (h (Iteration.last line)).agrees _ rfl
    have he := AList.mem_lookup_iff.1 (@lookup_last _ _ _ _ _ true hline haccepts)
    rw [← hperm.mem_iff] at he
    obtain ⟨i, hi, hentry⟩ := List.getElem_of_mem he
    have hfile := List.getElem_mem (hlines.length_eq.symm ▸ hi)
    obtain ⟨addr, hvalid, -⟩ := hlines.get (hlines.length_eq.symm ▸ hi) hi
    simp only [List.get_eq_getElem, hentry] at hvalid
    rw [hvalid] at hfile
    exact newline_notMem_of_mem_fileLines hfile (List.mem_append_right _ (List.mem_cons_of_mem _ hmem))
  refine ⟨hreadable, ?_, ?_, ?_, hwhole⟩
  · intro line hline ip area haccepts
    exact (h (Iteration.last line)).given ip area (lookup_last hline haccepts)
  · intro ip area hsource
    exact mem_inserted_iff.1 (((h (Iteration.last [])).mem_iff ip).2 ⟨area, hsource⟩)
  · rintro rfl line hline line' hline' ip area area' haccepts haccepts'
    obtain ⟨entries, hlines, hperm⟩ := (h (Iteration.last [])).agrees _ rfl
    have horder := (Iteration.last []).perm (finalRecord content netCaches)
    rw [fileLines_acceptedLines horder (hwhole rfl)] at hlines
    have hkeys : (entries.map Sigma.fst).Nodup :=
      (hperm.map Sigma.fst).nodup_iff.2 (newRound (Iteration.last []) true content netCaches).netCaches.nodupKeys
    obtain ⟨i, hi, rfl⟩ := List.getElem_of_mem (mem_acceptedLines.2 ⟨horder.mem_iff.2 hline, ip, area, haccepts⟩)
    obtain ⟨j, hj, rfl⟩ := List.getElem_of_mem (mem_acceptedLines.2 ⟨horder.mem_iff.2 hline', ip, area', haccepts'⟩)
    have hi' := hlines.length_eq ▸ hi
    have hj' := hlines.length_eq ▸ hj
    have hkey : entries[i].1 = entries[j].1 :=
      ((hlines.get hi hi').eq haccepts).1.trans ((hlines.get hj hj').eq haccepts').1.symm
    have hij : i = j := (List.getElem?_inj (by simpa using hi') hkeys).1 (by simp [hkey, hi', hj'])
    subst hij
    rfl

end Right

/-- **A round** finishes, with the addresses of the file and the cache, in whichever order the set is gone through, iff
the cache has all valid lines already or its lines are new and those of the set harmless. -/
theorem merges_iff (content : Bytes) (netCaches : NetCaches) (older : Bool) :
    (∀ it, ∃ r, syncNetAreaIp it older (some content) netCaches = some r ∧ Merges content netCaches r) ↔
      Mergeable content netCaches older := by
  by_cases hfile : InFile content netCaches
  · simp only [Mergeable, hfile, true_and, not_true_eq_false, false_and, or_false]
    rw [← merges_unchanged]
    constructor
    · intro h
      obtain ⟨r, hr, hmerges⟩ := h (Iteration.last [])
      rw [sync_of_inFile hfile, Option.some.injEq] at hr
      rwa [hr]
    · exact fun h it => ⟨_, sync_of_inFile hfile, h⟩
  · simp only [Mergeable, hfile, false_and, not_false_eq_true, true_and, false_or]
    constructor
    · intro h
      have hround : ∀ it, (∀ line ∈ finalRecord content netCaches, readRecord line ≠ none) ∧
          Merges content netCaches (newRound it older content netCaches) := by
        intro it
        obtain ⟨r, hr, hmerges⟩ := h it
        obtain ⟨hreadable, rfl⟩ := (sync_of_not_inFile hfile).1 hr
        exact ⟨hreadable, hmerges⟩
      exact harmless_of_merges (hround (Iteration.last [])).1 fun it => (hround it).2
    · exact fun h it => ⟨_, (sync_of_not_inFile hfile).2 ⟨h.readable, rfl⟩, h.merges⟩

/-- The line `1.2.3.4<tab>CN`. -/
def restartLine : Bytes := [49, 46, 50, 46, 51, 46, 52, 9, 67, 78]

/-- After a restart the cache is empty, and no line of the file gets into it. -/
theorem sync_forgets : ¬∀ (content : Bytes) (netCaches : NetCaches) (older : Bool) (it : Iteration),
    ∃ r, syncNetAreaIp it older (some content) netCaches = some r ∧ Merges content netCaches r := by
  intro h
  have hvalid : ValidLine restartLine 0x01020304 [67, 78] :=
    ⟨[49, 46, 50, 46, 51, 46, 52], rfl, dottedQuad_ipToStr 0x01020304, by decide, by decide⟩
  have hmem : restartLine ∈ fileLines (restartLine ++ [newline]) := by decide
  have hfile : InFile (restartLine ++ [newline]) ∅ := fun ip area hlookup => nomatch hlookup
  obtain ⟨r, hr, hmerges⟩ := h (restartLine ++ [newline]) ∅ true (Iteration.last [])
  rw [sync_of_inFile hfile, Option.some.injEq] at hr
  subst hr
  exact AList.notMem_empty _ ((hmerges.mem_iff 0x01020304).2 ⟨[67, 78], .inr ⟨restartLine, hmem, hvalid⟩⟩)

end StDns.Area
