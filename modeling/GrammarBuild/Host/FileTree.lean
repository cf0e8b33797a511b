/-
  GrammarBuild/Host/FileTree.lean
  ===============================
  **The files of a host** — directories and files by their location, which is the
  list of names that lead to them from the root.

  A tree has a branch for each name, so a location is found name by name.  What a tree
  holds is what `node?` shows; each change of a tree has one equation that says what
  `node?` shows afterwards (`node?_set`, `node?_remove`).
-/

namespace GrammarBuild

/-- The names that lead from the root to a file or directory. -/
abbrev Location := List String

/-- A location written as an absolute path. -/
def Location.text (l : Location) : String := "/" ++ String.intercalate "/" l

/-- What there is at a location. -/
inductive Node where
  | dir
  | file (bytes : ByteArray) (executable : Bool)
deriving BEq

namespace Node

def isDir : Node → Bool
  | dir => true
  | file .. => false

def isFile : Node → Bool
  | dir => false
  | file .. => true

/-- A file that may be run. -/
def isExecutable : Node → Bool
  | file _ true => true
  | _ => false

end Node

/-- What there is at a location, and the branches below it by their names. -/
inductive FileTree where
  | mk (here : Option Node) (branches : List (String × FileTree))

namespace FileTree

/-- The tree without any files. -/
def empty : FileTree := ⟨none, []⟩

instance : EmptyCollection FileTree := ⟨empty⟩

/-- What there is at the root of a tree. -/
def here : FileTree → Option Node
  | ⟨n, _⟩ => n

def branches : FileTree → List (String × FileTree)
  | ⟨_, bs⟩ => bs

/-- The branch of a name; the empty one if there is none. -/
def branch (t : FileTree) (name : String) : FileTree := (t.branches.lookup name).getD empty

/-- The tree below a location. -/
def subtree (t : FileTree) : Location → FileTree
  | [] => t
  | name :: l => (t.branch name).subtree l

/-- What there is at a location.  The root is always a directory. -/
def node? (t : FileTree) (l : Location) : Option Node :=
  if l = [] then some .dir else (t.subtree l).here

def isDirAt (t : FileTree) (l : Location) : Bool :=
  match t.node? l with
  | some n => n.isDir
  | none => false

/-! ### Changes -/

/-- A tree with the branch of a name exchanged. -/
def setBranch (t : FileTree) (name : String) (b : FileTree) : FileTree :=
  ⟨t.here, (name, b) :: t.branches.filter fun e => e.1 != name⟩

/-- A tree with what is below a location changed by `f`. -/
def alter (f : FileTree → FileTree) : Location → FileTree → FileTree
  | [], t => f t
  | name :: l, t => t.setBranch name (alter f l (t.branch name))

/-- A tree with a node put at a location. -/
def set (t : FileTree) (l : Location) (n : Node) : FileTree :=
  t.alter (fun b => ⟨some n, b.branches⟩) l

/-- A tree without a location and everything below it. -/
def remove (t : FileTree) (l : Location) : FileTree := t.alter (fun _ => empty) l

/-- A tree without what is below a location. -/
def clear (t : FileTree) (l : Location) : FileTree := t.alter (fun b => ⟨b.here, []⟩) l

/-! ### Lists of files -/

/-- The names in a directory, in ascending order, each of them once. -/
def names (t : FileTree) (l : Location) : List String :=
  let dir := t.subtree l
  ((dir.branches.map Prod.fst).eraseDups.filter fun n => (dir.branch n).here.isSome).mergeSort
    fun a b => compare a b != .gt

mutual

/-- Everything in a tree, by its location, a directory before what is in it. -/
def toList : FileTree → List (Location × Node)
  | ⟨n, bs⟩ => n.toList.map (fun n => ([], n)) ++ listBranches bs

/-- Everything in some branches. -/
def listBranches : List (String × FileTree) → List (Location × Node)
  | [] => []
  | (name, b) :: bs => b.toList.map (fun e => (name :: e.1, e.2)) ++ listBranches bs

end

/-- Everything below a location, its own node left out. -/
def contents (t : FileTree) (l : Location) : List (Location × Node) :=
  listBranches (t.subtree l).branches

/-! ### What a tree shows after a change -/

theorem subtree_append (t : FileTree) (l k : Location) :
    t.subtree (l ++ k) = (t.subtree l).subtree k := by
  induction l generalizing t with
  | nil => rfl
  | cons name l ih => exact ih (t.branch name)

@[simp]
theorem here_setBranch (t b : FileTree) (name : String) : (t.setBranch name b).here = t.here := rfl

theorem lookup_filter_ne {α : Type} (es : List (String × α)) {name other : String}
    (h : other ≠ name) : (es.filter fun e => e.1 != name).lookup other = es.lookup other := by
  induction es with
  | nil => rfl
  | cons e es ih =>
    obtain ⟨k, x⟩ := e
    by_cases hk : k = name
    · subst hk
      simp [List.lookup_cons, ih, beq_eq_false_iff_ne.2 h]
    · by_cases ho : other = k <;> simp [List.lookup_cons, hk, ho, ih]

theorem branch_setBranch (t b : FileTree) (name other : String) :
    (t.setBranch name b).branch other = if other = name then b else t.branch other := by
  by_cases h : other = name
  · simp [branch, setBranch, branches, h]
  · simp [branch, setBranch, branches, List.lookup_cons, beq_eq_false_iff_ne.2 h, h,
      lookup_filter_ne _ h]

/-- At and below the location of a change there is what `f` made of it. -/
theorem subtree_alter_append (f : FileTree → FileTree) (t : FileTree) (l k : Location) :
    (t.alter f l).subtree (l ++ k) = (f (t.subtree l)).subtree k := by
  induction l generalizing t with
  | nil => rfl
  | cons name l ih =>
    simp only [alter, List.cons_append, subtree, branch_setBranch, if_true]
    exact ih (t.branch name)

/-- Elsewhere a change changes nothing. -/
theorem here_subtree_alter (f : FileTree → FileTree) (t : FileTree) (l l' : Location)
    (h : ¬ l <+: l') : ((t.alter f l).subtree l').here = (t.subtree l').here := by
  induction l generalizing t l' with
  | nil => exact absurd (List.nil_prefix) h
  | cons name l ih =>
    cases l' with
    | nil => rfl
    | cons other l' =>
      simp only [alter, subtree, branch_setBranch]
      by_cases ho : other = name
      · subst ho
        simp only [if_true]
        exact ih (t.branch other) l' fun hp => h (List.cons_prefix_cons.2 ⟨rfl, hp⟩)
      · simp only [ho, if_false]

@[simp]
theorem node?_set_same (t : FileTree) {l : Location} (n : Node) (h : l ≠ []) :
    (t.set l n).node? l = some n := by
  have := subtree_alter_append (fun b => ⟨some n, b.branches⟩) t l []
  rw [List.append_nil] at this
  simp only [node?, h, if_false, set, this]
  rfl

theorem node?_set (t : FileTree) (l l' : Location) (n : Node) :
    (t.set l n).node? l' = if l' ≠ [] ∧ l' = l then some n else t.node? l' := by
  by_cases h0 : l' = []
  · simp [node?, h0]
  · by_cases h : l' = l
    · subst h; simp [h0]
    · simp only [node?, h0, if_false, h, and_false, set]
      by_cases hp : l <+: l'
      · obtain ⟨k, rfl⟩ := hp
        rw [subtree_alter_append, subtree_append]
        cases k with
        | nil => simp at h
        | cons name k => rfl
      · exact here_subtree_alter _ _ _ _ hp

theorem subtree_empty (l : Location) : empty.subtree l = empty := by
  induction l with
  | nil => rfl
  | cons name l ih => exact ih

theorem node?_remove (t : FileTree) (l l' : Location) (h : l' ≠ []) :
    (t.remove l).node? l' = if l.isPrefixOf l' then none else t.node? l' := by
  simp only [node?, h, if_false, remove, List.isPrefixOf_iff_prefix]
  by_cases hp : l <+: l'
  · obtain ⟨k, rfl⟩ := hp
    rw [subtree_alter_append, subtree_empty]
    simp [empty, here]
  · simp only [hp, if_false]
    exact here_subtree_alter _ _ _ _ hp

end FileTree

end GrammarBuild
