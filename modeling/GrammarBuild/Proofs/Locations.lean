import GrammarBuild.Host.Files

/-
  GrammarBuild/Proofs/Locations.lean
  ==================================
  **Where a path leads** — if a walk along a path succeeds, it ends at the location that
  the path's components spell (`Path.locate`), whatever the files are.  So two paths with
  the same components lead to the same place, and what an operation can have touched is
  known from the path alone.

  `Path.locate` goes by the components, the walk of the host by the names between
  slashes; `foldl_stepTo` says that the two come to the same.
-/

namespace GrammarBuild

/-- Where a component leads from a location. -/
def Component.from (l : Location) : Component → Location
  | root => []
  | here => l
  | up => l.dropLast
  | normal name => l ++ [name]

/-- The location that a path spells, seen from the working directory. -/
def Path.locate (cwd : Location) (p : Path) : Location := p.components.foldl Component.from cwd

/-- The locations that components lead through, from where they start. -/
def Component.wayFrom : Location → List Component → List Location
  | l, [] => [l]
  | l, c :: cs => l :: wayFrom (Component.from l c) cs

/-- The locations on the way along a path, the path's own the last. -/
def Path.way (cwd : Location) (p : Path) : List Location := Component.wayFrom cwd p.components

/-- The locations on the way to the directory that a path stands in. -/
def Path.dirWay (cwd : Location) (p : Path) : List Location :=
  Component.wayFrom cwd p.components.dropLast

/-- What is on the way along a part of some components is on the way along all of them. -/
theorem Component.wayFrom_append (l : Location) (a b : List Component) :
    wayFrom l a ⊆ wayFrom l (a ++ b) := by
  induction a generalizing l with
  | nil =>
    cases b with
    | nil => simp [wayFrom]
    | cons c b => simp [wayFrom]
  | cons c a ih =>
    simp only [List.cons_append, wayFrom]
    exact List.cons_subset_cons l (ih (Component.from l c))

theorem Component.foldl_mem_wayFrom (l : Location) (cs : List Component) :
    cs.foldl Component.from l ∈ wayFrom l cs := by
  induction cs generalizing l with
  | nil => simp [wayFrom]
  | cons c cs ih => exact List.mem_cons_of_mem l (ih (Component.from l c))

/-- On the way along components that are followed by names. -/
theorem Component.mem_wayFrom_names {l m : Location} {cs : List Component} {names : List String}
    (h : m ∈ wayFrom l (cs ++ names.map .normal)) :
    m ∈ wayFrom l cs ∨ ∃ x, x <+: names ∧ m = cs.foldl Component.from l ++ x := by
  induction cs generalizing l with
  | nil =>
    right
    induction names generalizing l with
    | nil => exact ⟨[], List.prefix_rfl, by simpa [wayFrom] using h⟩
    | cons name names ih =>
      rcases List.mem_cons.1 h with rfl | h
      · exact ⟨[], List.nil_prefix, by simp⟩
      · obtain ⟨x, hx, rfl⟩ := ih h
        exact ⟨name :: x, List.cons_prefix_cons.2 ⟨rfl, hx⟩, by simp [Component.from]⟩
  | cons c cs ih =>
    rcases List.mem_cons.1 h with rfl | h
    · exact .inl List.mem_cons_self
    · exact (ih h).imp_left (List.mem_cons_of_mem l)

theorem Path.locate_mem_way (cwd : Location) (p : Path) : p.locate cwd ∈ p.way cwd :=
  Component.foldl_mem_wayFrom cwd p.components

/-- The way along a parent is part of the way along the path. -/
theorem Path.way_parent? {p q : Path} (h : p.parent? = some q) (cwd : Location) :
    q.way cwd = p.dirWay cwd := by
  rw [Path.way, Path.components_parent? h, Path.dirWay]

theorem Path.dirWay_subset_way (cwd : Location) (p : Path) : p.dirWay cwd ⊆ p.way cwd := by
  rcases List.eq_nil_or_concat p.components with h | ⟨front, c, h⟩
  · simp [Path.dirWay, Path.way, h]
  · rw [Path.dirWay, Path.way, h, List.concat_eq_append, List.dropLast_concat]
    exact Component.wayFrom_append cwd front [c]

/-- A character in front of a text begins a new piece if it is the separator, and belongs to
    the first piece if not. -/
theorem Text.splitOn_cons_cases (sep c : Char) (t : List Char) :
    (c = sep ∧ List.splitOn sep (c :: t) = [] :: List.splitOn sep t) ∨
      (c ≠ sep ∧ ∃ w ws, List.splitOn sep t = w :: ws ∧ List.splitOn sep (c :: t) = (c :: w) :: ws) := by
  rw [List.splitOn_cons_eq_if_modifyHead]
  by_cases hc : c = sep
  · exact .inl ⟨hc, if_pos (beq_iff_eq.2 hc)⟩
  · obtain ⟨w, ws, hs⟩ := List.exists_cons_of_ne_nil (List.splitOn_ne_nil sep t)
    refine .inr ⟨hc, w, ws, hs, ?_⟩
    rw [if_neg (fun h => hc (beq_iff_eq.1 h)), hs, List.modifyHead_cons]

namespace FileTree

/-! ### Cutting paths at slashes -/

/-- The names between the slashes of a text. -/
def stepsIn (t : List Char) : List String :=
  ((List.splitOn '/' t).filter (· ≠ [])).map String.ofList

theorem stepsIn_append_cons (a b : List Char) : stepsIn (a ++ '/' :: b) = stepsIn a ++ stepsIn b := by
  simp [stepsIn, List.splitOn_append_cons_self]

theorem stepsIn_slash (t : List Char) : stepsIn ('/' :: t) = stepsIn t := by
  simp [stepsIn, List.splitOn_cons_eq_if_modifyHead]

/-- Where a name leads from a location. -/
def stepTo (l : Location) (name : String) : Location :=
  if name = "." then l else if name = ".." then l.dropLast else l ++ [name]

/-- A part between slashes leads where its component does. -/
theorem foldl_stepTo_parts (parts : List (List Char)) (l : Location) :
    ((parts.filter (· ≠ [])).map String.ofList).foldl stepTo l =
      (parts.filterMap Component.ofPart?).foldl Component.from l := by
  induction parts generalizing l with
  | nil => rfl
  | cons part parts ih =>
    have hdot : String.ofList ['.'] = "." := rfl
    have hup : String.ofList ['.', '.'] = ".." := rfl
    by_cases h0 : part = []
    · subst h0
      simpa [Component.ofPart?] using ih l
    by_cases h1 : part = ['.']
    · subst h1
      simpa [Component.ofPart?, stepTo] using ih l
    by_cases h2 : part = ['.', '.']
    · subst h2
      simpa [Component.ofPart?, stepTo, Component.from] using ih l.dropLast
    have hn1 : String.ofList part ≠ "." := fun h => h1 (by simpa using congrArg String.toList h)
    have hn2 : String.ofList part ≠ ".." := fun h => h2 (by simpa using congrArg String.toList h)
    simpa [Component.ofPart?, stepTo, Component.from, h0, h1, h2, hn1, hn2] using
      ih (l ++ [String.ofList part])

theorem foldl_lead (parts : List (List Char)) (l : Location) :
    (match parts with
      | ['.'] :: parts => Component.here :: parts.filterMap Component.ofPart?
      | parts => parts.filterMap Component.ofPart?).foldl Component.from l =
    (parts.filterMap Component.ofPart?).foldl Component.from l := by
  split
  · simp [Component.ofPart?, Component.from]
  · rfl

theorem foldl_componentsOf (t : List Char) (l : Location) :
    (Path.componentsOf t).foldl Component.from l =
      (stepsIn t).foldl stepTo (if t.head? == some '/' then [] else l) := by
  cases t with
  | nil => rfl
  | cons c r =>
    by_cases hc : c = '/'
    · subst hc
      rw [stepsIn_slash]
      exact (foldl_stepTo_parts (List.splitOn '/' r) []).symm
    · have hhead : ((c :: r).head? == some '/') = false := by simpa using hc
      rw [hhead, Path.componentsOf]
      · exact (foldl_lead _ l).trans (foldl_stepTo_parts _ l).symm
      · intro r' h
        exact hc (List.cons.inj h).1

/-- Following the names between slashes leads where the components lead. -/
theorem foldl_stepTo (cwd : Location) (p : Path) :
    (stepsOf p).foldl stepTo (startOf cwd p) = p.locate cwd :=
  (foldl_componentsOf p.text.toList cwd).symm

/-! ### Joined paths -/

theorem locate_congr {p q : Path} (h : p.components = q.components) (cwd : Location) :
    p.locate cwd = q.locate cwd := by
  rw [Path.locate, h, Path.locate]

theorem stepsOf_join {p q : Path} (hq : q.isAbsolute = false) :
    stepsOf (p.join q) = stepsOf p ++ stepsOf q := by
  show stepsIn (p.join q).text.toList = stepsIn p.text.toList ++ stepsIn q.text.toList
  unfold Path.join
  simp only [hq, Bool.false_eq_true, if_false]
  split
  · rename_i hp
    rcases Bool.or_eq_true_iff.1 hp with he | hs
    · have hnil : p.text.toList = [] := by simpa using he
      rw [String.toList_append, hnil]
      rfl
    · obtain ⟨a, ha⟩ := List.getLast?_eq_some_iff.1 (eq_of_beq hs)
      rw [String.toList_append, ha, List.append_assoc, List.singleton_append, stepsIn_append_cons,
        stepsIn_append_cons]
      simp [stepsIn]
  · have hslash : "/".toList = ['/'] := rfl
    rw [String.toList_append, String.toList_append, hslash, List.append_assoc,
      List.singleton_append, stepsIn_append_cons]

theorem isAbsolute_join {p q : Path} (hq : q.isAbsolute = false) :
    (p.join q).isAbsolute = p.isAbsolute := by
  unfold Path.join
  simp only [hq, Bool.false_eq_true, if_false]
  unfold Path.isAbsolute at hq ⊢
  split
  · rename_i hp
    cases hl : p.text.toList with
    | nil => simpa [hl] using hq
    | cons c r => simp [hl]
  · rename_i hp
    cases hl : p.text.toList with
    | nil =>
      have : p.text = "" := String.toList_eq_nil_iff.1 hl
      simp [this] at hp
    | cons c r => simp [hl]

/-- A path that continues another leads where it leads from there. -/
theorem locate_join (cwd : Location) (p q : Path) :
    (p.join q).locate cwd = q.locate (p.locate cwd) := by
  cases hq : q.isAbsolute with
  | true =>
    have hj : p.join q = q := by simp [Path.join, hq]
    rw [hj, ← foldl_stepTo, ← foldl_stepTo (p.locate cwd) q]
    simp only [startOf, hq]
    rfl
  | false =>
    rw [← foldl_stepTo cwd (p.join q), ← foldl_stepTo (p.locate cwd) q, ← foldl_stepTo cwd p,
      stepsOf_join hq, List.foldl_append]
    simp only [startOf, isAbsolute_join hq, hq]
    rfl

end FileTree

end GrammarBuild
