import GrammarBuild.Text.Blank

/-
  GrammarBuild/Path/Basic.lean
  ============================
  **Paths as they are written** — a path is its text and is never normalised:
  `src//a.c` is printed as it was declared.  What a path *means* is its list of
  components, in which repeated slashes and inner `.` parts vanish while `..`
  stays, and two paths name the same entry of a table exactly when their
  components agree (`compare_eq_eq_iff`).

  `parent?` is given by what it must be: the shortest text in front of the path
  whose components are the path's own without the last one.
-/

namespace GrammarBuild

/-- A path, as its text. -/
structure Path where
  text : String
deriving DecidableEq, Repr, Inhabited, Hashable

/-- What one part of a path stands for. -/
inductive Component where
  /-- The leading slash of an absolute path. -/
  | root
  /-- A leading `.` of a relative path. -/
  | here
  /-- `..` anywhere. -/
  | up
  /-- An ordinary name. -/
  | normal (name : String)
deriving DecidableEq, Repr, Inhabited

namespace Component

/-- The component a part between slashes stands for; empty parts and `.` stand
    for none. -/
def ofPart? (part : List Char) : Option Component :=
  if part = [] ∨ part = ['.'] then none
  else if part = ['.', '.'] then some up
  else some (normal (String.ofList part))

/-- A component as it is written. -/
def text : Component → String
  | root => "/"
  | here => "."
  | up => ".."
  | normal name => name

/-- The order of the kinds of components. -/
def rank : Component → Nat
  | root => 0
  | here => 1
  | up => 2
  | normal _ => 3

/-- What tells ordinary names apart. -/
def label : Component → String
  | normal name => name
  | _ => ""

/-- Components are ordered by kind, names among themselves by their text. -/
instance : Ord Component := ⟨compareLex (compareOn rank) (compareOn label)⟩

instance : Std.TransOrd Component :=
  inferInstanceAs (Std.TransCmp (compareLex (compareOn rank) (compareOn label)))

instance : Std.LawfulEqOrd Component where
  eq_of_compare {a b} h := by
    have h' : (compareLex (compareOn rank) (compareOn label) a b) = .eq := h
    rw [compareLex_eq_eq] at h'
    have hr := Std.LawfulEqOrd.eq_of_compare h'.1
    have hl := Std.LawfulEqOrd.eq_of_compare h'.2
    cases a <;> cases b <;> simp_all [rank, label]

end Component

namespace Path

/-- The components of a path's characters. -/
def componentsOf (t : List Char) : List Component :=
  match t with
  | '/' :: r => .root :: (List.splitOn '/' r).filterMap Component.ofPart?
  | _ =>
    match List.splitOn '/' t with
    | ['.'] :: parts => .here :: parts.filterMap Component.ofPart?
    | parts => parts.filterMap Component.ofPart?

/-- The components of a path. -/
def components (p : Path) : List Component := componentsOf p.text.toList

def isAbsolute (p : Path) : Bool := p.text.toList.head? == some '/'

def isEmpty (p : Path) : Bool := p.text.isEmpty

/-- Paths are ordered, and told apart in a table, by their components. -/
instance : Ord Path := ⟨compareOn components⟩

instance : Std.TransOrd Path := inferInstanceAs (Std.TransCmp (compareOn components))

theorem compare_eq_eq_iff {p q : Path} : compare p q = .eq ↔ p.components = q.components :=
  Std.LawfulEqCmp.compare_eq_iff_eq (α := List Component)

/-- `p.join q` continues `p` with `q`.  An absolute `q` takes the place of `p`;
    otherwise one slash is put between them unless `p` is empty or has it. -/
def join (p q : Path) : Path :=
  if q.isAbsolute then q
  else if p.text.isEmpty || p.text.toList.getLast? == some '/' then ⟨p.text ++ q.text⟩
  else ⟨p.text ++ "/" ++ q.text⟩

/-- `join` with a text. -/
def child (p : Path) (name : String) : Path := p.join ⟨name⟩

/-- `join` on characters, those of the first path and of the result from back to
    front. -/
def joinReversed (p q : List Char) : List Char :=
  if q.head? == some '/' then q.reverse
  else if p.isEmpty || p.head? == some '/' then q.reverse ++ p
  else q.reverse ++ '/' :: p

/-- A path continued with one text after the other (`children_eq_foldl`). -/
def children (p : Path) (names : List String) : Path :=
  let reversed := names.foldl (fun r name => joinReversed r name.toList) p.text.toList.reverse
  ⟨String.ofList reversed.reverse⟩

/-- The path that arises by joining components one by one. -/
def ofComponents (start : Path) (cs : List Component) : Path :=
  start.children (cs.map Component.text)

theorem reverse_toList_join (p q : Path) :
    (p.join q).text.toList.reverse = joinReversed p.text.toList.reverse q.text.toList := by
  have he : p.text.isEmpty = p.text.toList.reverse.isEmpty := by
    rw [Bool.eq_iff_iff, String.isEmpty_iff, List.isEmpty_iff, List.reverse_eq_nil_iff,
      String.toList_eq_nil_iff]
  unfold join joinReversed isAbsolute
  rw [he, List.head?_reverse]
  split
  · rfl
  split <;> simp

theorem children_eq_foldl (p : Path) (names : List String) :
    p.children names = names.foldl child p := by
  unfold children
  induction names generalizing p with
  | nil => simp
  | cons name names ih =>
    rw [List.foldl_cons, List.foldl_cons, ← ih, child, reverse_toList_join]

/-- The texts that a text ends in, from the text itself to the empty one. -/
def tails : List Char → List (List Char)
  | [] => [[]]
  | c :: r => (c :: r) :: tails r

/-- Of the texts in front of a text, the shortest one with these components; from the
    longest one on, they are looked through until the components are fewer. -/
def front? (cs : List Component) (t : List Char) : Option (List Char) :=
  let fits (r : List Char) : Bool := componentsOf r.reverse = cs
  ((((tails t.reverse).dropWhile fun r => !fits r).takeWhile fits).getLast?).map List.reverse

/-- The path without its last component; none for the empty path and for `/`. -/
def parent? (p : Path) : Option Path :=
  match p.components.getLast? with
  | none => none
  | some .root => none
  | some _ => (front? p.components.dropLast p.text.toList).map fun t => ⟨String.ofList t⟩

theorem componentsOf_of_front? {cs : List Component} {t u : List Char}
    (h : front? cs t = some u) : componentsOf u = cs := by
  obtain ⟨r, hr, rfl⟩ := Option.map_eq_some_iff.1 h
  have hfits := List.all_eq_true.1 List.all_takeWhile r (List.mem_of_getLast? hr)
  exact of_decide_eq_true hfits

/-- The components of a parent are those of the path without the last. -/
theorem components_parent? {p q : Path} (h : p.parent? = some q) :
    q.components = p.components.dropLast := by
  unfold parent? at h
  split at h
  · simp at h
  · simp at h
  · obtain ⟨t, ht, rfl⟩ := Option.map_eq_some_iff.1 h
    simpa only [components, String.toList_ofList] using componentsOf_of_front? ht

/-- A path that has a parent has components. -/
theorem components_ne_nil_of_parent? {p q : Path} (h : p.parent? = some q) :
    p.components ≠ [] := by
  intro hn
  simp [parent?, hn] at h

/-- The name a path ends in; none if it ends in `..`, `/` or is empty. -/
def fileName? (p : Path) : Option String :=
  match p.components.getLast? with
  | some (.normal name) => some name
  | _ => none

/-- What stands before the last dot of a name.  A name whose only dot is its
    first character has no ending. -/
def stemOf (name : List Char) : List Char :=
  match (name.reverse.dropWhile (· ≠ '.')).drop 1 with
  | [] => name
  | rest => rest.reverse

/-- The stem of the name a path ends in. -/
def fileStem? (p : Path) : Option String :=
  p.fileName?.map fun name => String.ofList (stemOf name.toList)

/-- A relative path with a directory part, as opposed to a bare program name. -/
def hasDirectory (p : Path) : Bool := !p.isAbsolute && 1 < p.components.length

/-- A relative path with a directory part is taken from `root`; any other path
    stays as it is. -/
def anchoredAt (p root : Path) : Path := if p.hasDirectory then root.join p else p

/-- The absolute form of a path seen from `cwd`: its components one by one, a
    leading `.` left out, after two leading slashes if it has exactly two. -/
def absoluteFrom (p cwd : Path) : Path :=
  let body := p.components.filter (fun c => c ≠ .root ∧ c ≠ .here)
  let start : Path :=
    if p.isAbsolute then
      match p.text.toList with
      | '/' :: '/' :: '/' :: _ => ⟨"/"⟩
      | '/' :: '/' :: _ => ⟨"//"⟩
      | _ => ⟨"/"⟩
    else cwd
  let full := ofComponents start body
  if p.text.toList.getLast? == some '/' then full.child "" else full

end Path

end GrammarBuild
