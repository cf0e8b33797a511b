import GrammarBuild.Path.Relative
import GrammarBuild.Proofs.AbsolutePaths
import GrammarBuild.Proofs.DirectoryTexts

/-
  GrammarBuild/Proofs/RelativePaths.lean
  ======================================
  **The way from a directory to a path leads there** — the relative form of an absolute
  path, seen from a root that is spelled with names only, leads from the root to the place
  that the path itself spells (`exists_relativeTo`).  The place is meant as it is written,
  with `..` for one name less; no file is looked at.

  The components of the way can be read off its text again (`components_ofComponents`),
  as each of them is what one part between slashes stands for (`Component.IsStep`).
-/

namespace GrammarBuild

open GrammarBuild.Path FileTree

/-! ### Steps -/

/-- A component that one part between slashes stands for, anywhere in a path. -/
structure Component.IsStep (c : Component) : Prop where
  noSlash : '/' ∉ c.text.toList
  part : Component.ofPart? c.text.toList = some c

theorem Component.isStep_up : Component.IsStep .up := ⟨by decide, by decide⟩

/-- A part is written as the component that it stands for. -/
theorem Component.text_of_ofPart? {part : List Char} {c : Component}
    (h : Component.ofPart? part = some c) : c.text.toList = part := by
  unfold Component.ofPart? at h
  split at h
  · cases h
  split at h
  · rename_i hup
    cases h
    exact hup.symm
  · cases h
    exact String.toList_ofList

theorem Component.isStep_of_mem {t : List Char} {c : Component}
    (h : c ∈ (List.splitOn '/' t).filterMap Component.ofPart?) : c.IsStep := by
  obtain ⟨part, hpart, hc⟩ := List.mem_filterMap.1 h
  have htext := Component.text_of_ofPart? hc
  refine ⟨?_, htext ▸ hc⟩
  rw [htext]
  exact (notMem_of_mem_splitOn hpart).1

/-- An absolute path is the root and steps. -/
theorem Path.components_absolute {p : Path} (hp : p.isAbsolute = true) :
    ∃ steps, p.components = .root :: steps ∧ ∀ c ∈ steps, c.IsStep := by
  have hhead : p.text.toList.head? = some '/' := eq_of_beq hp
  refine ⟨(List.splitOn '/' p.text.toList).filterMap Component.ofPart?, ?_, fun c hc => ?_⟩
  · rw [components, componentsOf_eq, leadOf, if_pos hhead]
    rfl
  · exact Component.isStep_of_mem hc

/-- A single step, written down. -/
theorem Component.IsStep.components {c : Component} (h : c.IsStep) :
    (⟨c.text⟩ : Path).components = [c] := by
  have hhead : c.text.toList.head? ≠ some '/' := fun hh => h.noSlash (List.mem_of_mem_head? hh)
  have hdot : c.text.toList ≠ ['.'] := by
    intro hd
    have hpart := h.part
    rw [hd] at hpart
    cases hpart
  rw [Path.components, componentsOf_eq, leadOf, if_neg hhead, List.splitOn_eq_singleton h.noSlash,
    List.head?_cons, if_neg (fun hd => hdot (Option.some.inj hd)), List.filterMap_cons, h.part]
  rfl

theorem Component.IsStep.ofComponents_singleton {c : Component} (h : c.IsStep) :
    ofComponents ⟨""⟩ [c] = ⟨c.text⟩ := by
  show (⟨""⟩ : Path).children [c.text] = _
  rw [children_eq_foldl, List.foldl_cons, child, Path.join, isAbsolute_name h.noSlash]
  simp

/-- Steps that are written one after the other are read back. -/
theorem Path.components_ofComponents {cs : List Component} (h : ∀ c ∈ cs, c.IsStep) :
    (ofComponents ⟨""⟩ cs).components = cs := by
  induction cs using List.reverseRecOn with
  | nil => rfl
  | append_singleton cs c ih =>
    have hc : c.IsStep := h c (List.mem_append_right _ (List.mem_singleton.2 rfl))
    have hcs := ih fun d hd => h d (List.mem_append_left _ hd)
    have hlast : ofComponents ⟨""⟩ (cs ++ [c]) = (ofComponents ⟨""⟩ cs).child c.text := by
      rw [ofComponents, ofComponents, children_eq_foldl, children_eq_foldl, List.map_append,
        List.foldl_append]
      rfl
    rw [hlast]
    by_cases hnil : cs = []
    · -- nothing is in front of the first step, not even a slash
      subst hnil
      rw [← hlast, List.nil_append, hc.ofComponents_singleton, hc.components]
    · have hne : (ofComponents ⟨""⟩ cs).text ≠ "" := by
        intro hempty
        rw [Path.components, hempty] at hcs
        exact hnil hcs.symm
      rw [Glob.components_child_part hne hc.noSlash, hcs, hc.part]
      rfl

/-! ### The way -/

namespace Path

theorem foldl_replicate_up (l : Location) (names : List String) :
    (List.replicate names.length Component.up).foldl Component.from (l ++ names) = l := by
  induction names using List.reverseRecOn with
  | nil => exact List.append_nil l
  | append_singleton names name ih =>
    rw [List.length_append, List.length_singleton, List.replicate_succ, List.foldl_cons]
    have hup : Component.from (l ++ (names ++ [name])) .up = l ++ names := by
      rw [Component.from, ← List.append_assoc, List.dropLast_concat]
    rw [hup, ih]

theorem route_nil (started : Bool) (names : List String) :
    route started [] (names.map .normal) = some (List.replicate names.length .up) := by
  induction names generalizing started with
  | nil => cases started <;> rfl
  | cons name names ih =>
    rw [List.map_cons, route, ih true]
    rfl

theorem route_same (c : Component) (path base : List Component) :
    route false (c :: path) (c :: base) = route false path base := by
  cases c with
  | root => rfl
  | here => rfl
  | up => rfl
  | normal name => simp [route]

theorem route_other {c : Component} {name : String} (h : c ≠ .normal name) (path : List Component)
    (names : List String) :
    route false (c :: path) ((name :: names).map .normal) =
      some (List.replicate (name :: names).length .up ++ c :: path) := by
  simp [route, h, List.replicate_succ]

/-- A way from where names lead to where `path` leads, made of steps of `path` and of steps
    up.  It is empty only if the names are the path. -/
structure IsRoute (cs path : List Component) (names : List String) : Prop where
  steps : ∀ c ∈ cs, c = .up ∨ c ∈ path
  arrives : ∀ l : Location, cs.foldl Component.from (l ++ names) = path.foldl Component.from l
  nonempty : cs = [] → path = names.map .normal

/-- From a directory that is spelled with names there is a way to every path.  Common
    names fall away one by one; at the first difference all other names are left. -/
theorem exists_route (path : List Component) (names : List String) :
    ∃ cs, route false path (names.map .normal) = some cs ∧ IsRoute cs path names := by
  induction names generalizing path with
  | nil =>
    cases path with
    | nil => exact ⟨[], rfl, by simp, List.append_nil, fun _ => rfl⟩
    | cons c path =>
      exact ⟨c :: path, rfl, fun d hd => .inr hd, fun l => by rw [List.append_nil], fun h => nomatch h⟩
  | cons name names ih =>
    cases path with
    | nil =>
      refine ⟨_, route_nil false (name :: names), fun c hc => .inl (List.eq_of_mem_replicate hc),
        fun l => foldl_replicate_up l (name :: names), fun h => nomatch h⟩
    | cons c path =>
      by_cases hsame : c = .normal name
      · subst hsame
        obtain ⟨cs, hroute, isRoute⟩ := ih path
        refine ⟨cs, ?_, fun d hd => (isRoute.steps d hd).imp_right (List.mem_cons_of_mem _), ?_, ?_⟩
        · rw [List.map_cons, route_same, hroute]
        · intro l
          rw [List.foldl_cons, Component.from, ← isRoute.arrives, List.append_assoc,
            List.singleton_append]
        · intro h
          rw [isRoute.nonempty h, List.map_cons]
      · refine ⟨_, route_other hsame path names, ?_, ?_, ?_⟩
        · intro d hd
          exact (List.mem_append.1 hd).imp_left List.eq_of_mem_replicate
        · intro l
          rw [List.foldl_append, foldl_replicate_up]
        · intro h
          cases (List.append_eq_nil_iff.1 h).2

/-- The relative form of an absolute path leads from the root to the place of the path. -/
theorem exists_relativeTo {root p : Path} {names : List String}
    (hroot : root.components = .root :: names.map .normal) (hp : p.isAbsolute = true) :
    ∃ cs, relativeTo root p = ofComponents ⟨""⟩ cs ∧ (∀ c ∈ cs, c.IsStep) ∧
      (∀ cwd, cs.foldl Component.from names = p.locate cwd) ∧
      (cs = [] → p.components = root.components) := by
  obtain ⟨steps, hsteps, isStep⟩ := components_absolute hp
  have habs : root.isAbsolute = true := (components_head? root).2 (by rw [hroot]; rfl)
  obtain ⟨cs, hroute, isRoute⟩ := exists_route steps names
  have hcs : ∀ c ∈ cs, c.IsStep := by
    intro c hc
    rcases isRoute.steps c hc with rfl | hc
    · exact Component.isStep_up
    · exact isStep c hc
  have hrelative : relativeTo root p = ofComponents ⟨""⟩ cs := by
    rw [relativeTo, habs, hp, hsteps, hroot, route_same, hroute]
    rfl
  refine ⟨cs, hrelative, hcs, fun cwd => ?_, ?_⟩
  · rw [locate, hsteps, List.foldl_cons]
    exact isRoute.arrives []
  · intro h
    rw [hsteps, hroot, isRoute.nonempty h]

end Path

end GrammarBuild
