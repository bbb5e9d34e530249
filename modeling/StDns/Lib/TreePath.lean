import StDns.Lib.JsonText

/-!
# Paths in trees

A path leads from a tree along names. Putting data at a path makes the trees that are missing on the way, and leaves
what is elsewhere (`get_set`). When no two subtrees have the same name, what holds of a whole tree is what holds at all
of its paths (`writable_and_all_iff`).
-/

namespace StDns.Lib.Json

def Forest.find? (name : Bytes) : Forest → Option Tree
  | .nil => none
  | .cons n tree rest => if n = name then some tree else rest.find? name

/-- The subtrees in order. -/
def Forest.trees : Forest → List Tree
  | .nil => []
  | .cons _ tree rest => tree :: rest.trees

/-- The subtree of a name, or a new one, is changed by `f`. -/
def Forest.alter (name : Bytes) (f : Tree → Tree) : Forest → Forest
  | .nil => .cons name (f (leaf [])) .nil
  | .cons n tree rest => if n = name then .cons n (f tree) rest else .cons n tree (rest.alter name f)

/-- The data at a path. -/
def Tree.get : Tree → List Bytes → Option Bytes
  | .node data _, [] => some data
  | .node _ children, name :: path => (children.find? name).bind fun tree => tree.get path

/-- The data at a path is changed to `value`. -/
def Tree.set (value : Bytes) : List Bytes → Tree → Tree
  | [], .node _ children => .node value children
  | name :: path, .node data children => .node data (children.alter name (Tree.set value path))

mutual

/-- No two subtrees of a tree have the same name. -/
def Tree.Distinct : Tree → Prop
  | .node _ children => children.Distinct

def Forest.Distinct : Forest → Prop
  | .nil => True
  | .cons name tree rest => rest.find? name = none ∧ tree.Distinct ∧ rest.Distinct

end

/-! ## Getting what was set -/

section Set

variable {name : Bytes} {f : Tree → Tree} {path : List Bytes}

theorem find?_alter : ∀ (children : Forest) (other : Bytes), (children.alter name f).find? other =
    if other = name then some (f ((children.find? name).getD (leaf []))) else children.find? other
  | .nil, other => by
    simp only [Forest.alter, Forest.find?, eq_comm]
    rfl
  | .cons n tree rest, other => by
    have ih := find?_alter rest other
    by_cases hn : n = name
    · subst hn
      by_cases hother : n = other
      · subst hother
        simp only [Forest.alter, if_true, Forest.find?, Option.getD_some]
      · simp only [Forest.alter, if_true, Forest.find?, if_neg hother, if_neg (Ne.symm hother)]
    · simp only [Forest.alter, if_neg hn, Forest.find?]
      rw [ih]
      by_cases hother : n = other
      · rw [if_pos hother, if_pos hother, if_neg (hother ▸ hn)]
      · rw [if_neg hother, if_neg hother]

theorem get_leaf (data : Bytes) (path : List Bytes) : (leaf data).get path = if path = [] then some data else none := by
  cases path <;> rfl

/-- **Behind putting data** at a path, it is there, and the way to it is. -/
theorem get_set (value : Bytes) (path : List Bytes) : ∀ (tree : Tree) (other : List Bytes),
    (tree.set value path).get other =
      if other = path then some value
      else if other <+: path then some ((tree.get other).getD []) else tree.get other := by
  induction path with
  | nil =>
    rintro ⟨data, children⟩ other
    cases other with
    | nil => rfl
    | cons name other => simp [Tree.set, Tree.get]
  | cons name path ih =>
    rintro ⟨data, children⟩ other
    cases other with
    | nil => simp [Tree.set, Tree.get]
    | cons n other =>
      simp only [Tree.set, Tree.get, find?_alter, List.cons.injEq, List.cons_prefix_cons]
      by_cases hn : n = name
      · rw [if_pos hn, Option.bind_some, ih]
        simp only [hn, true_and]
        cases children.find? name with
        | some tree => rfl
        | none =>
          simp only [Option.getD_none, get_leaf, Option.bind_none]
          split
          · rfl
          · by_cases hnil : other = []
            · simp [hnil]
            · simp [hnil]
      · simp [hn]

theorem Forest.Distinct.alter (hf : ∀ tree : Tree, tree.Distinct → (f tree).Distinct) : ∀ {children : Forest},
    children.Distinct → (children.alter name f).Distinct
  | .nil, _ => ⟨rfl, hf _ trivial, trivial⟩
  | .cons n tree rest, h => by
    simp only [Forest.Distinct] at h
    obtain ⟨hfind, htree, hrest⟩ := h
    simp only [Forest.alter]
    split
    · exact ⟨hfind, hf tree htree, hrest⟩
    · rename_i hn
      refine ⟨?_, htree, hrest.alter hf⟩
      rw [find?_alter, if_neg hn, hfind]

theorem Tree.Distinct.set (value : Bytes) (path : List Bytes) : ∀ {tree : Tree}, tree.Distinct →
    (tree.set value path).Distinct := by
  induction path with
  | nil =>
    rintro ⟨data, children⟩ h
    exact h
  | cons name path ih =>
    rintro ⟨data, children⟩ h
    exact Forest.Distinct.alter (fun tree htree => ih htree) h

end Set

/-! ## What holds at all paths -/

/-- At every path the names and the data are as they are to be, and behind data there is no further path. -/
def Tree.AtPaths (N V : Bytes → Prop) (tree : Tree) : Prop :=
  ∀ path data, tree.get path = some data → (∀ name ∈ path, N name) ∧ V data ∧
    (data ≠ [] → ∀ other, path <+: other → (tree.get other).isSome = true → other = path)

section Paths

variable {N V : Bytes → Prop} {data : Bytes} {children : Forest}

theorem get_nil_isSome (tree : Tree) : ∃ data, tree.get [] = some data := by
  obtain ⟨data, children⟩ := tree
  exact ⟨data, rfl⟩

/-- What holds at all paths of a tree holds of its data and at all paths of its subtrees. -/
theorem atPaths_node : (Tree.node data children).AtPaths N V ↔ V data ∧ (data ≠ [] → children = .nil) ∧
    ∀ name tree, children.find? name = some tree → N name ∧ tree.AtPaths N V := by
  constructor
  · intro h
    obtain ⟨-, hdata, hend⟩ := h [] data rfl
    refine ⟨hdata, fun hne => ?_, fun name tree hfind => ⟨?_, fun path d hget => ?_⟩⟩
    · cases children with
      | nil => rfl
      | cons name tree rest =>
        obtain ⟨d, hd⟩ := get_nil_isSome tree
        have hsome : ((Tree.node data (.cons name tree rest)).get [name]).isSome = true := by
          simp [Tree.get, Forest.find?, hd]
        cases hend hne [name] List.nil_prefix hsome
    · obtain ⟨d, hd⟩ := get_nil_isSome tree
      exact (h [name] d (by simp [Tree.get, hfind, hd])).1 name List.mem_cons_self
    · have hnode : ∀ path, (Tree.node data children).get (name :: path) = tree.get path := fun path => by
        simp [Tree.get, hfind]
      obtain ⟨hnames, hd, hlast⟩ := h (name :: path) d (by rw [hnode, hget])
      refine ⟨fun n hn => hnames n (List.mem_cons_of_mem _ hn), hd, fun hne other hbegins hsome => ?_⟩
      have := hlast hne (name :: other) (List.cons_prefix_cons.2 ⟨rfl, hbegins⟩) (by rw [hnode, hsome])
      exact List.tail_eq_of_cons_eq this
  · rintro ⟨hdata, hleaf, htrees⟩ path d hget
    cases path with
    | nil =>
      cases hget
      refine ⟨by simp, hdata, fun hne other _ hsome => ?_⟩
      obtain rfl := hleaf hne
      cases other with
      | nil => rfl
      | cons name other => cases hsome
    | cons name path =>
      simp only [Tree.get, Option.bind_eq_some_iff] at hget
      obtain ⟨tree, hfind, hget⟩ := hget
      obtain ⟨hname, hpaths⟩ := htrees name tree hfind
      obtain ⟨hnames, hd, hlast⟩ := hpaths path d hget
      refine ⟨List.forall_mem_cons.2 ⟨hname, hnames⟩, hd, fun hne other hbegins hsome => ?_⟩
      cases other with
      | nil => cases List.prefix_nil.1 hbegins
      | cons n other =>
        obtain ⟨rfl, htail⟩ := List.cons_prefix_cons.1 hbegins
        rw [hlast hne other htail (by simpa [Tree.get, hfind] using hsome)]

mutual

/-- **A tree** is writable and all of it is as it is to be iff this holds at all of its paths. -/
theorem Tree.writable_and_all_iff (hV : V []) : ∀ {tree : Tree}, tree.Distinct →
    (tree.writable = true ∧ tree.All N V ↔ tree.AtPaths N V)
  | .node data .nil, _ => by
    rw [atPaths_node]
    simp [Tree.writable, Tree.All, Forest.find?]
  | .node data (.cons name tree rest), h => by
    rw [atPaths_node, ← Forest.writable_and_all_iff hV h]
    simp only [Tree.writable, Tree.All, Bool.and_eq_true, decide_eq_true_eq]
    constructor
    · rintro ⟨⟨rfl, hwritable⟩, hall⟩
      exact ⟨hV, fun hne => absurd rfl hne, hwritable, hall⟩
    · rintro ⟨-, hleaf, hwritable, hall⟩
      exact ⟨⟨by_contra fun hne => Forest.noConfusion (hleaf hne), hwritable⟩, hall⟩

theorem Forest.writable_and_all_iff (hV : V []) : ∀ {children : Forest}, children.Distinct →
    (children.writable = true ∧ children.All N V ↔
      ∀ name tree, children.find? name = some tree → N name ∧ tree.AtPaths N V)
  | .nil, _ => by simp [Forest.writable, Forest.All, Forest.find?]
  | .cons name tree rest, h => by
    simp only [Forest.Distinct] at h
    obtain ⟨hfind, htree, hrest⟩ := h
    have ihtree := Tree.writable_and_all_iff hV htree
    have ihrest := Forest.writable_and_all_iff hV hrest
    simp only [Forest.writable, Forest.All, Bool.and_eq_true, Forest.find?]
    constructor
    · rintro ⟨⟨hwtree, hwrest⟩, hname, hatree, harest⟩ n t hn
      split at hn
      · rename_i heq
        cases hn
        exact ⟨heq ▸ hname, ihtree.1 ⟨hwtree, hatree⟩⟩
      · exact ihrest.1 ⟨hwrest, harest⟩ n t hn
    · intro hall
      obtain ⟨hname, hpaths⟩ := hall name tree (if_pos rfl)
      obtain ⟨hwtree, hatree⟩ := ihtree.2 hpaths
      have hothers : ∀ n t, rest.find? n = some t → N n ∧ t.AtPaths N V := fun n t hn => by
        refine hall n t ?_
        rw [if_neg, hn]
        rintro rfl
        rw [hfind] at hn
        cases hn
      obtain ⟨hwrest, harest⟩ := ihrest.2 hothers
      exact ⟨⟨hwtree, hwrest⟩, hname, hatree, harest⟩

end

end Paths

end StDns.Lib.Json
