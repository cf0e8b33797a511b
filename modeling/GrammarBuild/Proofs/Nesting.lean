import GrammarBuild.Proofs.Outputs

/-
  GrammarBuild/Proofs/Nesting.lean
  ================================
  **Outputs below other outputs** — a path above an output has to be a directory, so an
  output must not be above another.  In the plan of a manifest's targets it is in one
  case only: the module of `obj.<stem>` is above the objects of `<stem>.<ending>`, where
  the ending is that of modules (`outputs_above_iff`).

  All outputs are names below the output directory, so the names are compared.  What
  decides is the dash, which is in the last name of an object and in no name of a module,
  and the dot, which is in the last name of a module and in no other (`moduleNames_prefix`,
  `moduleNames_prefix_objectNames`).
-/

namespace GrammarBuild

/-- The first path is a proper ancestor of the second, component by component. -/
def Path.IsAbove (p q : Path) : Prop := p.components <+: q.components ∧ p.components ≠ q.components

instance (p q : Path) : Decidable (p.IsAbove q) := inferInstanceAs (Decidable (_ ∧ _))

theorem Path.isAbove_iff {p q : Path} {base : List Component} {ns ms : List String}
    (hp : p.components = base ++ ns.map .normal) (hq : q.components = base ++ ms.map .normal) :
    p.IsAbove q ↔ ns <+: ms ∧ ns ≠ ms := by
  have hmap := List.map_injective_iff.2 normal_injective
  rw [IsAbove, hp, hq, List.prefix_append_right_inj, List.prefix_map_iff_of_injective normal_injective,
    ne_eq, List.append_cancel_left_eq, hmap.eq_iff]

namespace BuildContext

variable {c : BuildContext} {t u : Target}

/-- The names on the way from the output directory to an object. -/
def objectNames (c : BuildContext) (t : Target) (source : Path) : List String :=
  ["obj", t.name, objectName source c.toolchain.objectEnding]

theorem components_objectPath_names (h : t.Named) (source : Path) :
    (c.objectPath t source).components =
      c.outputDir.components ++ (c.objectNames t source).map .normal := by
  rw [c.components_objectPath, c.components_objectDir h, List.append_assoc]
  rfl

/-! ### Objects and modules among themselves -/

theorem objectNames_prefix {source source' : Path}
    (h : c.objectNames t source <+: c.objectNames u source') :
    c.objectNames t source = c.objectNames u source' :=
  h.eq_of_length rfl

/-- An object is not above a module, since no name of a module has a dash. -/
theorem objectNames_not_prefix (hu : u.Named) (source : Path) :
    ¬ c.objectNames t source <+: c.moduleNames u := by
  intro h
  have hmem : objectName source c.toolchain.objectEnding ∈ c.objectNames t source := by
    simp [objectNames]
  exact (c.plainName_of_mem_moduleNames hu (h.subset hmem)).2 (c.plainName_objectName source).2

theorem dot_mem_moduleFileName (c : BuildContext) (t : Target) :
    '.' ∈ (t.moduleFileName c.toolchain.moduleEnding).toList := by
  rw [c.moduleFileName_eq]
  exact List.mem_append_right _ List.mem_cons_self

/-- A module is not above another, since no name of a directory has a dot. -/
theorem moduleNames_prefix (hu : u.Named) (h : c.moduleNames t <+: c.moduleNames u) :
    c.moduleNames t = c.moduleNames u := by
  rcases List.prefix_concat_iff.1 h with h | h
  · exact h
  · have hmem : t.moduleFileName c.toolchain.moduleEnding ∈ c.moduleNames t := by
      simp [moduleNames]
    have hdot := dot_mem_moduleFileName c t
    exact absurd hdot (Target.notMem_of_mem_dirNames hu (h.subset hmem)).1

/-! ### A module above an object -/

/-- The module is in the directory of all objects and is called like the other target. -/
theorem moduleNames_prefix_objectNames (ht : t.Named) (source : Path) :
    c.moduleNames t <+: c.objectNames u source ↔
      t.dirNames = ["obj"] ∧ t.moduleFileName c.toolchain.moduleEnding = u.name := by
  have hdash := (c.plainName_objectName source).2
  constructor
  · intro h
    rcases List.prefix_concat_iff.1 (show c.moduleNames t <+: ["obj", u.name] ++ [_] from h) with h | h
    · exfalso
      obtain ⟨-, hlast⟩ := List.append_inj' h rfl
      apply (c.plainName_moduleFileName ht).2
      rw [List.singleton_inj.1 hlast]
      exact hdash
    rcases List.prefix_concat_iff.1 (show c.moduleNames t <+: ["obj"] ++ [u.name] from h) with h | h
    · obtain ⟨hdirs, hfile⟩ := List.append_inj' h rfl
      exact ⟨hdirs, List.singleton_inj.1 hfile⟩
    · exfalso
      have hmem : t.moduleFileName c.toolchain.moduleEnding ∈ c.moduleNames t := by
        simp [moduleNames]
      have hobj := List.mem_singleton.1 (h.subset hmem)
      have hdot := dot_mem_moduleFileName c t
      rw [hobj] at hdot
      exact absurd hdot (by decide)
  · rintro ⟨hdirs, hfile⟩
    refine ⟨[objectName source c.toolchain.objectEnding], ?_⟩
    rw [moduleNames, hdirs, hfile]
    rfl

theorem splitOn_name_obj {stem : String} (h : '.' ∉ stem.toList) :
    List.splitOn '.' ("obj." ++ stem).toList = ["obj".toList, stem.toList] := by
  have hobj : ("obj." ++ stem).toList = "obj".toList ++ '.' :: stem.toList := by
    rw [String.toList_append]
    rfl
  rw [hobj, List.splitOn_append_cons_self, List.splitOn_eq_singleton h,
    List.splitOn_eq_singleton (by decide)]
  rfl

/-- The same told by the names of the targets. -/
theorem dirNames_eq_obj_iff (c : BuildContext) (ht : t.Named) :
    t.dirNames = ["obj"] ∧ t.moduleFileName c.toolchain.moduleEnding = u.name ↔
      ∃ stem : String, '.' ∉ stem.toList ∧ t.name = "obj." ++ stem ∧
        u.name = stem ++ "." ++ c.toolchain.moduleEnding := by
  have hfile : t.moduleFileName c.toolchain.moduleEnding =
      t.moduleStem ++ "." ++ c.toolchain.moduleEnding := by
    apply String.toList_injective
    rw [c.moduleFileName_eq, String.toList_append, String.toList_append, List.append_assoc]
    rfl
  have hdotless : '.' ∉ t.moduleStem.toList := by
    intro hm
    exact (Target.isNameChar_ne ((Target.moduleStem_named ht).2 _ hm)).2.1 rfl
  have hsplit := Target.splitOn_name t
  rw [hfile]
  constructor
  · rintro ⟨hdirs, hname⟩
    refine ⟨t.moduleStem, hdotless, ?_, hname.symm⟩
    have hfront : (List.splitOn '.' t.name.toList).dropLast = ["obj".toList] := by
      have hmap := congrArg (List.map String.toList) hdirs
      simpa [Target.dirNames, Function.comp_def] using hmap
    rw [hfront, List.singleton_append, ← splitOn_name_obj hdotless] at hsplit
    exact String.toList_injective (splitOn_injective '.' hsplit)
  · rintro ⟨stem, hstem, htn, hun⟩
    rw [htn, splitOn_name_obj hstem] at hsplit
    have hparts : ["obj".toList] ++ [stem.toList] = ["obj".toList] ++ [t.moduleStem.toList] := hsplit
    have hlast := List.append_cancel_left hparts
    have hms : stem = t.moduleStem := String.toList_injective (List.singleton_inj.1 hlast)
    refine ⟨?_, by rw [hun, hms]⟩
    rw [Target.dirNames, htn, splitOn_name_obj hstem]
    rfl

end BuildContext

/-! ### Plans -/

theorem BuildPlan.output_cases {c : BuildContext} {ts : List Target} {plan : BuildPlan}
    (hc : plan.compileSteps = ts.flatMap c.compileSteps) (hl : plan.linkSteps = ts.map c.linkStep)
    {p : Path} (hp : p ∈ plan.outputs) :
    (∃ t ∈ ts, p = c.modulePath t) ∨ ∃ t ∈ ts, ∃ source ∈ t.sources, p = c.objectPath t source := by
  rcases List.mem_append.1 hp with hp | hp
  · right
    obtain ⟨s, hs, rfl⟩ := List.mem_map.1 hp
    rw [hc] at hs
    obtain ⟨t, ht, source, hsource, rfl⟩ := compileStep_of_mem hs
    exact ⟨t, ht, source, hsource, rfl⟩
  · left
    obtain ⟨s, hs, rfl⟩ := List.mem_map.1 hp
    rw [hl] at hs
    obtain ⟨t, ht, rfl⟩ := linkStep_of_mem hs
    exact ⟨t, ht, rfl⟩

/-- In the plan for a selection of a manifest's targets an output is above another exactly
    if it is the module of a target `obj.<stem>` and the other an object of the target that
    is called like the module's file. -/
theorem outputs_above_iff {text : String} {dir : Path} {m : Manifest}
    (parsed : Manifest.parse text dir = .ok m) {filter : List String} {ts : List Target}
    (selected : m.select filter = .ok ts) (c : BuildContext) :
    ∃ plan, BuildPlan.ofTargets c ts = .ok plan ∧ ∀ p ∈ plan.outputs, ∀ q ∈ plan.outputs,
      (p.IsAbove q ↔ ∃ t ∈ ts, ∃ u ∈ ts, ∃ source ∈ u.sources,
        p = c.modulePath t ∧ q = c.objectPath u source ∧
        ∃ stem : String, '.' ∉ stem.toList ∧ t.name = "obj." ++ stem ∧
          u.name = stem ++ "." ++ c.toolchain.moduleEnding) := by
  have checked := Manifest.checked_of_select (Manifest.checked_of_parse parsed) selected
  have named : ∀ t ∈ ts, t.Named := fun t ht => Target.named_of_validate (checked.valid t ht)
  refine ⟨_, BuildPlan.ofTargets_eq c checked.valid, ?_⟩
  intro p hp q hq
  constructor
  · intro above
    rcases BuildPlan.output_cases rfl rfl hp with ⟨t, ht, rfl⟩ | ⟨t, ht, source, -, rfl⟩
    · rcases BuildPlan.output_cases rfl rfl hq with ⟨u, hu, rfl⟩ | ⟨u, hu, source, hsource, rfl⟩
      · exfalso
        rw [Path.isAbove_iff (c.components_modulePath (named t ht))
          (c.components_modulePath (named u hu))] at above
        exact above.2 (BuildContext.moduleNames_prefix (named u hu) above.1)
      · rw [Path.isAbove_iff (c.components_modulePath (named t ht))
          (BuildContext.components_objectPath_names (named u hu) source),
          BuildContext.moduleNames_prefix_objectNames (named t ht) source] at above
        exact ⟨t, ht, u, hu, source, hsource, rfl, rfl,
          (c.dirNames_eq_obj_iff (named t ht)).1 above.1⟩
    · exfalso
      rcases BuildPlan.output_cases rfl rfl hq with ⟨u, hu, rfl⟩ | ⟨u, hu, source', -, rfl⟩
      · rw [Path.isAbove_iff (BuildContext.components_objectPath_names (named t ht) source)
          (c.components_modulePath (named u hu))] at above
        exact BuildContext.objectNames_not_prefix (named u hu) source above.1
      · rw [Path.isAbove_iff (BuildContext.components_objectPath_names (named t ht) source)
          (BuildContext.components_objectPath_names (named u hu) source')] at above
        exact above.2 (BuildContext.objectNames_prefix above.1)
  · rintro ⟨t, ht, u, hu, source, -, rfl, rfl, names⟩
    rw [Path.isAbove_iff (c.components_modulePath (named t ht))
      (BuildContext.components_objectPath_names (named u hu) source),
      BuildContext.moduleNames_prefix_objectNames (named t ht) source]
    refine ⟨(c.dirNames_eq_obj_iff (named t ht)).2 names, ?_⟩
    intro heq
    have hlength := congrArg List.length heq
    obtain ⟨hdirs, -⟩ := (c.dirNames_eq_obj_iff (named t ht)).2 names
    rw [BuildContext.moduleNames, hdirs] at hlength
    cases hlength

/-! ### Targets that get in each other's way -/

namespace Sample

def targetObjA : Target := { name := "obj.a", sources := [⟨"a.c"⟩] }

def targetAso : Target := { name := "a.so", sources := [⟨"b.c"⟩] }

def nestedManifest : Manifest := { manifest with targets := [targetObjA, targetAso] }

def nestedText : String :=
  Toml.PlainLine.text (nestedManifest.package.lines ++ nestedManifest.targets.flatMap Target.lines)

theorem parse_nestedText : Manifest.parse nestedText ⟨"/p"⟩ = .ok nestedManifest := by
  have hread : Declaration.read nestedText =
      .ok ⟨nestedManifest.package, nestedManifest.targets, []⟩ :=
    Declaration.read_text (by decide) rfl rfl
  rw [Manifest.parse_of_read hread]
  rfl

end Sample

/-- The module of `obj.a` is above the object of `a.so`. -/
theorem outputs_above_nested :
    Sample.nestedManifest.select [] = .ok [Sample.targetObjA, Sample.targetAso] ∧
      ∃ plan, BuildPlan.ofTargets Sample.manifestContext [Sample.targetObjA, Sample.targetAso] = .ok plan ∧
        ∀ p ∈ plan.outputs, ∀ q ∈ plan.outputs, (p.IsAbove q ↔
          ∃ t ∈ [Sample.targetObjA, Sample.targetAso], ∃ u ∈ [Sample.targetObjA, Sample.targetAso],
            ∃ source ∈ u.sources, p = Sample.manifestContext.modulePath t ∧
              q = Sample.manifestContext.objectPath u source ∧
              ∃ stem : String, '.' ∉ stem.toList ∧ t.name = "obj." ++ stem ∧
                u.name = stem ++ "." ++ Sample.manifestContext.toolchain.moduleEnding) := by
  have hselect : Sample.nestedManifest.select [] = .ok [Sample.targetObjA, Sample.targetAso] := rfl
  exact ⟨hselect, outputs_above_iff Sample.parse_nestedText hselect Sample.manifestContext⟩

/-- Two targets that a manifest may declare, and an output of their plan that has to be a
    file and a directory. -/
theorem module_above_object :
    ∃ text dir m ts plan, Manifest.parse text dir = .ok m ∧ m.select [] = .ok ts ∧
      BuildPlan.ofTargets Sample.manifestContext ts = .ok plan ∧
      ∃ p ∈ plan.outputs, ∃ q ∈ plan.outputs, p.IsAbove q := by
  refine ⟨_, _, _, _, _, Sample.parse_nestedText, rfl, rfl,
    Sample.manifestContext.modulePath Sample.targetObjA, ?_,
    Sample.manifestContext.objectPath Sample.targetAso ⟨"b.c"⟩, ?_, ?_⟩
  · exact List.mem_append_right _ List.mem_cons_self
  · exact List.mem_append_left _ (List.mem_cons_of_mem _ List.mem_cons_self)
  · decide +kernel

end GrammarBuild
