import StDns.Lib.Json

/-!
# Texts of trees

The text of a tree has cells, one for each name and one for the data of each leaf, and characters of ASCII between
them. When it is known of every cell whether it is read back, so it is of the text: the tree is read from it iff all of
its cells are (`read_text_iff`).
-/

namespace StDns.Lib.Json

/-! ## Trees that have a text -/

/-- All names are empty. -/
def Forest.nameless : Forest → Bool
  | .nil => true
  | .cons name _ rest => decide (name = []) && rest.nameless

mutual

/-- A tree with subtrees has no data. -/
def Tree.writable : Tree → Bool
  | .node data children =>
    match children with
    | .nil => true
    | .cons .. => decide (data = []) && children.writable

def Forest.writable : Forest → Bool
  | .nil => true
  | .cons _ tree rest => tree.writable && rest.writable

end

mutual

/-- What is to hold of the names and of the data of the leaves holds. -/
def Tree.All (N V : Bytes → Prop) : Tree → Prop
  | .node data children =>
    match children with
    | .nil => V data
    | .cons .. => children.All N V

def Forest.All (N V : Bytes → Prop) : Forest → Prop
  | .nil => True
  | .cons name tree rest => N name ∧ tree.All N V ∧ rest.All N V

end

section All

variable {N N' V V' : Bytes → Prop}

mutual

theorem Tree.all_and : ∀ tree : Tree,
    tree.All (fun s => N s ∧ N' s) (fun s => V s ∧ V' s) ↔ tree.All N V ∧ tree.All N' V'
  | .node data .nil => by simp only [Tree.All]
  | .node data (.cons name tree rest) => by
    simp only [Tree.All]
    exact Forest.all_and _

theorem Forest.all_and : ∀ children : Forest,
    children.All (fun s => N s ∧ N' s) (fun s => V s ∧ V' s) ↔ children.All N V ∧ children.All N' V'
  | .nil => by simp only [Forest.All, and_self]
  | .cons name tree rest => by
    simp only [Forest.All]
    rw [Tree.all_and tree, Forest.all_and rest]
    tauto

end

mutual

theorem Tree.all_congr (hN : ∀ s, N s ↔ N' s) (hV : ∀ s, V s ↔ V' s) : ∀ tree : Tree, tree.All N V ↔ tree.All N' V'
  | .node data .nil => by
    simp only [Tree.All]
    exact hV data
  | .node data (.cons name tree rest) => by
    simp only [Tree.All]
    exact Forest.all_congr hN hV _

theorem Forest.all_congr (hN : ∀ s, N s ↔ N' s) (hV : ∀ s, V s ↔ V' s) : ∀ children : Forest,
    children.All N V ↔ children.All N' V'
  | .nil => by simp only [Forest.All]
  | .cons name tree rest => by
    simp only [Forest.All]
    rw [hN name, Tree.all_congr hN hV tree, Forest.all_congr hN hV rest]

end

end All

/-! ## Texts -/

/-- What begins an object or an array. -/
def opening (named : Bool) : UInt8 := if named then openBrace else openBracket

section Render

variable (nameCell valueCell : Bytes → Bytes)

/-- The name of a member, with the colon behind it. -/
def label (named : Bool) (name : Bytes) : Bytes := if named then nameCell name ++ [colon] else []

mutual

def render : Tree → Bytes
  | .node data children =>
    match children with
    | .nil => valueCell data
    | .cons .. => opening (!children.nameless) ::
      (renderForest (!children.nameless) children ++ [closing (!children.nameless)])

def renderForest (named : Bool) : Forest → Bytes
  | .nil => []
  | .cons name tree rest =>
    label nameCell named name ++ (render tree ++
      match rest with
      | .nil => []
      | .cons .. => comma :: renderForest named rest)

end

/-- What is behind a member or an element. -/
def renderRest (named : Bool) : Forest → Bytes
  | .nil => []
  | .cons name tree rest => comma :: renderForest nameCell valueCell named (.cons name tree rest)

/-- The text of a tree, which is an object. -/
def text (tree : Tree) : Bytes :=
  match tree with
  | .node _ children => openBrace :: (renderForest nameCell valueCell true children ++ [closeBrace])

end Render

mutual

/-- The steps that reading takes. -/
def Tree.cost : Tree → Nat
  | .node _ children =>
    match children with
    | .nil => 1
    | .cons .. => children.cost + 2

def Forest.cost : Forest → Nat
  | .nil => 0
  | .cons _ tree rest => tree.cost + rest.cost + 1

end

/-! ## Reading what is written -/

/-- The text goes on with a comma or an end. -/
def Stops (text : Bytes) : Prop := ∃ c rest, text = c :: rest ∧ (c = comma ∨ c = closeBrace ∨ c = closeBracket)

/-- The character begins a cell. -/
def Begins (c : UInt8) : Prop := isWhite c = false ∧ c ≠ closeBrace ∧ c ≠ closeBracket

/-- The cells of the names and the data that are read back, and no others. -/
structure Cells (nameCell valueCell : Bytes → Bytes) (N V : Bytes → Prop) : Prop where
  nil : N []
  name_begins : ∀ s, ∃ c rest, nameCell s = c :: rest ∧ Begins c
  value_begins : ∀ s, ∃ c rest, valueCell s = c :: rest ∧ Begins c
  name : ∀ s, N s → ∀ text, readName (nameCell s ++ colon :: text) = some (s, text)
  not_name : ∀ s, ¬N s → ∀ text, readName (nameCell s ++ colon :: text) = none
  value : ∀ s, V s → ∀ fuel text, Stops text → readValue (fuel + 1) (valueCell s ++ text) = some (leaf s, text)
  not_value : ∀ s, ¬V s → ∀ fuel text r, Stops text → readValue fuel (valueCell s ++ text) = some r →
    ¬Stops (skipWhite r.2)

section Read

variable {nameCell valueCell : Bytes → Bytes} {N V : Bytes → Prop} {c : UInt8} {rest data name : Bytes} {fuel : Nat}
  {tree : Tree} {children : Forest} {named : Bool}

theorem skipWhite_cons (h : isWhite c = false) : skipWhite (c :: rest) = c :: rest :=
  List.dropWhile_cons_of_neg (by simp [h])

theorem isWhite_closing : isWhite (closing named) = false := by cases named <;> rfl

theorem closing_ne_comma : closing named ≠ comma := by cases named <;> decide

theorem stops_closing : Stops (closing named :: rest) := ⟨_, rest, rfl, .inr (by cases named <;> decide)⟩

theorem stops_comma : Stops (comma :: rest) := ⟨_, rest, rfl, .inl rfl⟩

theorem begins_opening : Begins (opening named) := by cases named <;> exact ⟨rfl, by decide, by decide⟩

theorem Begins.ne_closing (h : Begins c) : c ≠ closing named := by
  cases named
  · exact h.2.2
  · exact h.2.1

theorem renderForest_cons (name : Bytes) (tree : Tree) (rest : Forest) :
    renderForest nameCell valueCell named (.cons name tree rest) =
      label nameCell named name ++ (render nameCell valueCell tree ++ renderRest nameCell valueCell named rest) := by
  cases rest <;> simp only [renderForest, renderRest]

/-- A text of a tree begins as a cell does. -/
theorem render_begins (h : Cells nameCell valueCell N V) (tree : Tree) :
    ∃ c rest, render nameCell valueCell tree = c :: rest ∧ Begins c := by
  obtain ⟨data, children⟩ := tree
  cases children with
  | nil => exact h.value_begins data
  | cons name tree rest => exact ⟨_, _, by rw [render], begins_opening⟩

theorem renderForest_begins (h : Cells nameCell valueCell N V) (name : Bytes) (tree : Tree) (rest : Forest) :
    ∃ c text, renderForest nameCell valueCell named (.cons name tree rest) = c :: text ∧ Begins c := by
  rw [renderForest_cons]
  cases named with
  | true =>
    obtain ⟨c, text, hname, hc⟩ := h.name_begins name
    exact ⟨c, _, by rw [label, if_pos rfl, hname]; rfl, hc⟩
  | false =>
    obtain ⟨c, text, htree, hc⟩ := render_begins h tree
    exact ⟨c, _, by rw [label, if_neg Bool.false_ne_true, htree]; rfl, hc⟩

theorem isWhite_opening : isWhite (opening named) = false := begins_opening.1

/-- Behind the beginning of an object or an array there is a member or an element. -/
theorem readValue_opening (hc : Begins c) : readValue (fuel + 2) (opening named :: c :: rest) =
    (readForest fuel named (c :: rest)).map fun r => (.node [] r.1, r.2) := by
  have hbody : readBody (fuel + 1) named (c :: rest) =
      (readForest fuel named (c :: rest)).map fun r => (.node [] r.1, r.2) := by
    rw [readBody, skipWhite_cons hc.1]
    exact if_neg hc.ne_closing
  rw [readValue, skipWhite_cons isWhite_opening, ← hbody]
  cases named <;> rfl

/-- A name is read with its colon, and elements have empty names. -/
theorem readLabel_label (h : Cells nameCell valueCell N V) (hnamed : named = false → name = []) (text : Bytes) :
    (N name → readLabel named (label nameCell named name ++ text) = some (name, text)) ∧
      (¬N name → readLabel named (label nameCell named name ++ text) = none) := by
  cases named with
  | true =>
    have hlabel : label nameCell true name ++ text = nameCell name ++ colon :: text := by
      rw [label, if_pos rfl, List.append_assoc, List.singleton_append]
    rw [hlabel, readLabel, if_pos rfl]
    exact ⟨fun hn => h.name name hn text, fun hn => h.not_name name hn text⟩
  | false =>
    rw [hnamed rfl]
    exact ⟨fun _ => rfl, fun hn => absurd h.nil hn⟩

/-- Behind a value that stops where no member or element ends, nothing is read. -/
theorem readForest_stuck {label : Bytes × Bytes} {r : Tree × Bytes} (hstuck : ¬Stops (skipWhite r.2))
    (hlabel : readLabel named rest = some label)
    (hvalue : readValue fuel label.2 = some r) : readForest (fuel + 1) named rest = none := by
  rw [readForest, hlabel]
  simp only [Option.bind_eq_bind, Option.bind_some, hvalue]
  split
  · rfl
  · rename_i c text hskip
    have hcomma : c ≠ comma := fun e => hstuck (hskip ▸ e ▸ stops_comma)
    have hclosing : c ≠ closing named := fun e => hstuck (hskip ▸ e ▸ stops_closing)
    rw [if_neg hcomma, if_neg hclosing]

mutual

/-- **A tree** is read from its text iff its cells are; otherwise the reading does not get to what is behind it. -/
theorem read_render (h : Cells nameCell valueCell N V) : ∀ (tree : Tree) (fuel : Nat) (text : Bytes),
    tree.writable = true → tree.cost ≤ fuel → Stops text →
      (tree.All N V → readValue fuel (render nameCell valueCell tree ++ text) = some (tree, text)) ∧
      (¬tree.All N V → ∀ r, readValue fuel (render nameCell valueCell tree ++ text) = some r →
        ¬Stops (skipWhite r.2))
  | .node data .nil, fuel, text, _, hfuel, hstops => by
    simp only [Tree.cost] at hfuel
    obtain ⟨fuel, rfl⟩ := Nat.exists_eq_add_of_le' hfuel
    simp only [Tree.All, render]
    exact ⟨fun hv => h.value data hv fuel text hstops, fun hv r hr => h.not_value data hv _ text r hstops hr⟩
  | .node data (.cons name tree rest), fuel, text, hwritable, hfuel, hstops => by
    simp only [Tree.writable, Bool.and_eq_true, decide_eq_true_eq] at hwritable
    simp only [Tree.cost] at hfuel
    obtain ⟨fuel, rfl⟩ : ∃ k, fuel = k + 2 := ⟨fuel - 2, by omega⟩
    obtain ⟨rfl, hchildren⟩ := hwritable
    simp only [Tree.All, render, List.cons_append, List.append_assoc, List.nil_append]
    generalize hnamed : (!(Forest.cons name tree rest).nameless) = named
    obtain ⟨c, cell, hcell, hc⟩ := @renderForest_begins _ _ _ _ named h name tree rest
    have hread := read_renderForest h (.cons name tree rest) named fuel text (by simp) hchildren
      (by rintro rfl; simpa using hnamed) (by omega)
    rw [hcell, List.cons_append] at hread ⊢
    rw [readValue_opening hc]
    refine ⟨fun hall => by rw [hread.1 hall]; rfl, fun hall r hr => ?_⟩
    rw [hread.2 hall] at hr
    cases hr

theorem read_renderForest (h : Cells nameCell valueCell N V) : ∀ (children : Forest) (named : Bool) (fuel : Nat)
    (text : Bytes), children ≠ .nil → children.writable = true → (named = false → children.nameless = true) →
      children.cost ≤ fuel →
      (children.All N V →
        readForest fuel named (renderForest nameCell valueCell named children ++ closing named :: text) =
          some (children, text)) ∧
      (¬children.All N V →
        readForest fuel named (renderForest nameCell valueCell named children ++ closing named :: text) = none)
  | .nil, _, _, _, hne, _, _, _ => absurd rfl hne
  | .cons name tree rest, named, fuel, text, _, hwritable, hnamed, hfuel => by
    simp only [Forest.writable, Bool.and_eq_true] at hwritable
    simp only [Forest.nameless, Bool.and_eq_true, decide_eq_true_eq] at hnamed
    simp only [Forest.cost] at hfuel
    obtain ⟨fuel, rfl⟩ : ∃ k, fuel = k + 1 := ⟨fuel - 1, by omega⟩
    rw [renderForest_cons, List.append_assoc, List.append_assoc]
    generalize htail : renderRest nameCell valueCell named rest ++ closing named :: text = tail
    have hstops : Stops tail := by
      rw [← htail]
      cases rest with
      | nil => exact stops_closing
      | cons _ _ _ => exact stops_comma
    have hlabel := readLabel_label h (fun hn => (hnamed hn).1) (render nameCell valueCell tree ++ tail)
    have htree := read_render h tree fuel tail hwritable.1 (by omega) hstops
    simp only [Forest.All]
    by_cases hname : N name
    · by_cases hall : tree.All N V
      · -- what is behind the tree decides
        rw [readForest, hlabel.1 hname]
        simp only [Option.bind_eq_bind, Option.bind_some, htree.1 hall, hname, hall, true_and]
        cases rest with
        | nil =>
          rw [← htail, renderRest, List.nil_append, skipWhite_cons isWhite_closing]
          simp only [if_neg closing_ne_comma, if_true]
          exact ⟨fun _ => trivial, fun hnot => absurd trivial hnot⟩
        | cons name' tree' rest' =>
          have hrest := read_renderForest h (.cons name' tree' rest') named fuel text (by simp) hwritable.2
            (fun hn => (hnamed hn).2) (by omega)
          rw [← htail, renderRest, List.cons_append, skipWhite_cons rfl]
          simp only [if_true]
          refine ⟨fun hforest => by rw [hrest.1 hforest]; rfl, fun hforest => by rw [hrest.2 hforest]; rfl⟩
      · refine ⟨fun hforest => absurd hforest.2.1 hall, fun _ => ?_⟩
        cases hvalue : readValue fuel (render nameCell valueCell tree ++ tail) with
        | none =>
          rw [readForest, hlabel.1 hname]
          simp only [Option.bind_eq_bind, Option.bind_some, hvalue]
          rfl
        | some r => exact readForest_stuck (htree.2 hall r hvalue) (hlabel.1 hname) hvalue
    · refine ⟨fun hforest => absurd hforest.1 hname, fun _ => ?_⟩
      rw [readForest, hlabel.2 hname]
      rfl

end

/-! A text is long enough for the steps that reading it takes. -/

mutual

theorem cost_lt_render (h : Cells nameCell valueCell N V) : ∀ tree : Tree,
    tree.cost < 3 * (render nameCell valueCell tree).length
  | .node data .nil => by
    obtain ⟨c, rest, hcell, -⟩ := h.value_begins data
    simp only [Tree.cost, render, hcell, List.length_cons]
    omega
  | .node data (.cons name tree rest) => by
    have hcost := cost_le_renderForest h (!(Forest.cons name tree rest).nameless) (.cons name tree rest)
    simp only [Tree.cost, render, List.length_cons, List.length_append, List.length_nil]
    omega

theorem cost_le_renderForest (h : Cells nameCell valueCell N V) (named : Bool) : ∀ children : Forest,
    children.cost ≤ 3 * (renderForest nameCell valueCell named children).length
  | .nil => Nat.zero_le _
  | .cons name tree .nil => by
    have htree := cost_lt_render h tree
    simp only [Forest.cost, renderForest_cons, renderRest, List.length_append, List.length_nil]
    omega
  | .cons name tree (.cons name' tree' rest) => by
    have htree := cost_lt_render h tree
    have hrest := cost_le_renderForest h named (.cons name' tree' rest)
    rw [renderForest_cons, renderRest]
    simp only [Forest.cost, List.length_append, List.length_cons] at hrest ⊢
    omega

end

/-- Reading an object gets behind it iff its cells are read back. -/
theorem readValue_text (h : Cells nameCell valueCell N V) (hwritable : children.writable = true)
    (hfuel : children.cost + 2 ≤ fuel) :
    (children.All N V → readValue fuel (text nameCell valueCell (.node [] children) ++ rest) =
      some (.node [] children, rest)) ∧
    (¬children.All N V → readValue fuel (text nameCell valueCell (.node [] children) ++ rest) = none) := by
  obtain ⟨fuel, rfl⟩ : ∃ k, fuel = k + 2 := ⟨fuel - 2, by omega⟩
  rw [text, List.cons_append, List.append_assoc, List.singleton_append]
  cases children with
  | nil =>
    refine ⟨fun _ => ?_, fun hnot => absurd trivial hnot⟩
    rw [readValue, skipWhite_cons rfl]
    simp only [readBody, renderForest, List.nil_append]
    rw [skipWhite_cons rfl]
    rfl
  | cons name tree forest =>
    obtain ⟨c, cell, hcell, hc⟩ := @renderForest_begins _ _ _ _ true h name tree forest
    have hread := read_renderForest h (.cons name tree forest) true fuel rest (by simp) hwritable (by simp) (by omega)
    rw [show closeBrace = closing true from rfl, show openBrace = opening true from rfl]
    rw [hcell, List.cons_append] at hread ⊢
    rw [readValue_opening hc]
    exact ⟨fun hall => by rw [hread.1 hall]; rfl, fun hall => by rw [hread.2 hall]; rfl⟩

/-- **The text of an object** is read back iff it is well-formed and its cells are read back. -/
theorem read_text_iff {enc : Encoding} (h : Cells nameCell valueCell N V) (hwritable : children.writable = true)
    (hrest : skipWhite rest = []) :
    read enc (text nameCell valueCell (.node [] children) ++ rest) = some (.node [] children) ↔
      enc.WellFormed (text nameCell valueCell (.node [] children) ++ rest) ∧ children.All N V := by
  have hcost := cost_le_renderForest h true children
  have hfuel : children.cost + 2 ≤ 3 * (text nameCell valueCell (.node [] children) ++ rest).length + 3 := by
    simp only [text, List.length_append, List.length_cons, List.length_nil]
    omega
  have hread := @readValue_text _ _ _ _ rest _ _ h hwritable hfuel
  rw [read]
  by_cases hwell : enc.WellFormed (text nameCell valueCell (.node [] children) ++ rest)
  · rw [if_pos hwell]
    by_cases hall : children.All N V
    · rw [hread.1 hall]
      simp [hrest, hwell, hall]
    · rw [hread.2 hall]
      simp [hall]
  · simp [hwell]

end Read

/-! ## Well-formed texts -/

section WellFormed

variable {enc : Encoding} {nameCell valueCell : Bytes → Bytes} {c : UInt8} {rest : Bytes} {children : Forest}

theorem isWhite_lt (h : isWhite c = true) : c < 128 := by
  rw [isWhite, decide_eq_true_eq] at h
  rcases h with rfl | rfl | rfl | rfl <;> decide

theorem opening_lt (named : Bool) : opening named < 128 := by cases named <;> decide

theorem closing_lt (named : Bool) : closing named < 128 := by cases named <;> decide

theorem wellFormed_concat (h : c < 128) : enc.WellFormed (rest ++ [c]) ↔ enc.WellFormed rest := by
  rw [Encoding.wellFormed_append_cons h, and_iff_left Encoding.wellFormed_nil]

mutual

/-- A text is well-formed iff all of its cells are. -/
theorem wellFormed_render (hnil : enc.WellFormed (nameCell [])) : ∀ tree : Tree,
    enc.WellFormed (render nameCell valueCell tree) ↔
      tree.All (fun s => enc.WellFormed (nameCell s)) fun s => enc.WellFormed (valueCell s)
  | .node data .nil => by simp only [render, Tree.All]
  | .node data (.cons name tree rest) => by
    simp only [render, Tree.All]
    rw [Encoding.wellFormed_cons (opening_lt _), wellFormed_concat (closing_lt _)]
    exact wellFormed_renderForest hnil _ _ (by simp)

theorem wellFormed_renderForest (hnil : enc.WellFormed (nameCell [])) : ∀ (children : Forest) (named : Bool),
    (named = false → children.nameless = true) →
      (enc.WellFormed (renderForest nameCell valueCell named children) ↔
        children.All (fun s => enc.WellFormed (nameCell s)) fun s => enc.WellFormed (valueCell s))
  | .nil, named, _ => by
    simp only [renderForest, Forest.All, iff_true]
    exact Encoding.wellFormed_nil
  | .cons name tree rest, named, hnamed => by
    simp only [Forest.nameless, Bool.and_eq_true, decide_eq_true_eq] at hnamed
    have hlabel : ∀ text, enc.WellFormed (label nameCell named name ++ text) ↔
        enc.WellFormed (nameCell name) ∧ enc.WellFormed text := by
      intro text
      cases named with
      | true =>
        rw [label, if_pos rfl, List.append_assoc, List.singleton_append, Encoding.wellFormed_append_cons (by decide)]
      | false =>
        rw [(hnamed rfl).1, and_iff_right hnil]
        rfl
    rw [renderForest_cons, hlabel, Forest.All, ← wellFormed_render hnil tree]
    refine and_congr_right fun _ => ?_
    cases rest with
    | nil => simp [renderRest, Forest.All]
    | cons name' tree' rest' =>
      rw [renderRest, Encoding.wellFormed_append_cons (by decide),
        wellFormed_renderForest hnil (.cons name' tree' rest') named fun hn => (hnamed hn).2]

end

theorem wellFormed_text (hnil : enc.WellFormed (nameCell [])) (hrest : skipWhite rest = []) :
    enc.WellFormed (text nameCell valueCell (.node [] children) ++ rest) ↔
      children.All (fun s => enc.WellFormed (nameCell s)) fun s => enc.WellFormed (valueCell s) := by
  have hwhite : enc.WellFormed rest :=
    Encoding.wellFormed_of_ascii fun c hc => isWhite_lt (List.dropWhile_eq_nil_iff.1 hrest c hc)
  rw [text, List.cons_append, Encoding.wellFormed_cons (by decide), List.append_assoc, List.singleton_append,
    Encoding.wellFormed_append_cons (by decide), and_iff_left hwhite]
  exact wellFormed_renderForest hnil children true (by simp)

end WellFormed

/-! ## Rewritten texts -/

/-- The characters between the cells. -/
def Punct (c : UInt8) : Prop := c ∈ [comma, colon, openBrace, closeBrace, openBracket, closeBracket]

instance (c : UInt8) : Decidable (Punct c) := inferInstanceAs (Decidable (c ∈ _))

/-- The rewriting `f` takes cells to other cells and what is between them to itself. -/
structure Rewrites (f : Bytes → Bytes) (cell cell' : Bytes → Bytes) : Prop where
  punct : ∀ c rest, Punct c → f (c :: rest) = c :: f rest
  cell : ∀ s c rest, Punct c → f (cell s ++ c :: rest) = cell' s ++ f (c :: rest)

section Rewrite

variable {f cell cell' : Bytes → Bytes} {c : UInt8}

theorem punct_opening (named : Bool) : Punct (opening named) := by cases named <;> decide

theorem punct_closing (named : Bool) : Punct (closing named) := by cases named <;> decide

theorem Rewrites.label (h : Rewrites f cell cell') (named : Bool) (name rest : Bytes) :
    f (label cell named name ++ rest) = label cell' named name ++ f rest := by
  cases named with
  | true =>
    rw [Json.label, Json.label, if_pos rfl, if_pos rfl, List.append_assoc, List.append_assoc, List.singleton_append,
      List.singleton_append, h.cell name colon rest (by decide), h.punct colon rest (by decide)]
  | false => rfl

mutual

/-- **The text of a tree** becomes its text with the other cells. -/
theorem Rewrites.render (h : Rewrites f cell cell') : ∀ (tree : Tree) (c : UInt8) (rest : Bytes), Punct c →
    f (render cell cell tree ++ c :: rest) = render cell' cell' tree ++ f (c :: rest)
  | .node data .nil, c, rest, hc => by
    simp only [Json.render]
    exact h.cell data c rest hc
  | .node data (.cons name tree forest), c, rest, hc => by
    simp only [Json.render, List.cons_append, List.append_assoc, List.nil_append]
    rw [h.punct _ _ (punct_opening _), h.renderForest _ _ _ _ (punct_closing _), h.punct _ _ (punct_closing _)]

theorem Rewrites.renderForest (h : Rewrites f cell cell') : ∀ (children : Forest) (named : Bool) (c : UInt8)
    (rest : Bytes), Punct c →
      f (renderForest cell cell named children ++ c :: rest) = renderForest cell' cell' named children ++ f (c :: rest)
  | .nil, _, _, _, _ => by simp only [Json.renderForest, List.nil_append]
  | .cons name tree .nil, named, c, rest, hc => by
    rw [renderForest_cons, renderForest_cons]
    simp only [renderRest, List.append_nil, List.append_assoc]
    rw [h.label, h.render tree c rest hc]
  | .cons name tree (.cons name' tree' forest), named, c, rest, hc => by
    rw [renderForest_cons, renderForest_cons]
    simp only [renderRest, List.append_assoc, List.cons_append]
    rw [h.label, h.render tree _ _ (by decide), h.punct _ _ (by decide), h.renderForest _ _ _ _ hc]

end

theorem Rewrites.text (h : Rewrites f cell cell') (tree : Tree) (rest : Bytes) :
    f (text cell cell tree ++ rest) = text cell' cell' tree ++ f rest := by
  obtain ⟨data, children⟩ := tree
  simp only [Json.text, List.cons_append, List.append_assoc, List.nil_append]
  rw [h.punct _ _ (by decide), h.renderForest _ _ _ _ (by decide), h.punct _ _ (by decide)]

end Rewrite

end StDns.Lib.Json
