import GrammarBuild.Proofs.Parts
import GrammarBuild.Proofs.Reruns

/-
  GrammarBuild/Proofs/Splits.lean
  ===============================
  **Builds that are split** — a plan can be carried out in two parts, in either order, or
  at once: if all steps come out well, the same processes are started for each target, the
  same targets are found fresh, and the files are the same in the end, to the bytes of
  the cache (`builds_split_by_target`).

  The cache is shared by the parts.  Each of them loads it, enters its own results and
  saves it whole; as the keys of different targets differ, what the others have entered
  stays, and the order does not matter (`cacheRecorded_split`).
-/

namespace GrammarBuild

open FileTree

/-- A plan is split into two, each of them with all steps of its targets. -/
structure BuildPlan.Splits (plan part part' : BuildPlan) : Prop where
  compiles : (part.compileSteps ++ part'.compileSteps).Perm plan.compileSteps
  links : (part.linkSteps ++ part'.linkSteps).Perm plan.linkSteps
  first : ∀ s ∈ part.linkSteps, ∀ s' ∈ part'.compileSteps, s'.target ≠ s.target
  second : ∀ s ∈ part'.linkSteps, ∀ s' ∈ part.compileSteps, s'.target ≠ s.target

section

variable {P : Project} {env : Environment} {c : BuildContext} {plan part part' : BuildPlan}
  {h₀ : Host}

namespace BuildPlan.Splits

theorem symm (splits : plan.Splits part part') : plan.Splits part' part :=
  ⟨List.perm_append_comm.trans splits.compiles, List.perm_append_comm.trans splits.links,
    splits.second, splits.first⟩

theorem mem_compiles (splits : plan.Splits part part') {s : CompileStep} :
    s ∈ plan.compileSteps ↔ s ∈ part.compileSteps ∨ s ∈ part'.compileSteps := by
  rw [← splits.compiles.mem_iff, List.mem_append]

theorem mem_links (splits : plan.Splits part part') {s : LinkStep} :
    s ∈ plan.linkSteps ↔ s ∈ part.linkSteps ∨ s ∈ part'.linkSteps := by
  rw [← splits.links.mem_iff, List.mem_append]

theorem partOf (splits : plan.Splits part part') (site : Workplace P env c plan h₀) :
    part.PartOf plan where
  compiles _ hs := splits.mem_compiles.2 (.inl hs)
  links _ hs := splits.mem_links.2 (.inl hs)
  objects := by
    have hall := (splits.compiles.map fun s => s.output.components).nodup_iff.2 site.objects
    rw [List.map_append] at hall
    exact (List.nodup_append.1 hall).1
  targets := by
    have hall := (splits.links.map LinkStep.target).nodup_iff.2 site.targets
    rw [List.map_append] at hall
    exact (List.nodup_append.1 hall).1
  full s hs s' hs' htarget := (splits.mem_compiles.1 hs').resolve_right fun hmem =>
    splits.first s hs s' hmem htarget

/-- The two parts have no object in common. -/
theorem objects_apart (splits : plan.Splits part part') (site : Workplace P env c plan h₀)
    {s s' : CompileStep} (hs : s ∈ part.compileSteps) (hs' : s' ∈ part'.compileSteps) :
    s.output.components ≠ s'.output.components := by
  have hall := (splits.compiles.map fun s => s.output.components).nodup_iff.2 site.objects
  rw [List.map_append] at hall
  exact (List.nodup_append.1 hall).2.2 _ (List.mem_map.2 ⟨s, hs, rfl⟩) _ (List.mem_map.2 ⟨s', hs', rfl⟩)

theorem targets_apart (splits : plan.Splits part part') (site : Workplace P env c plan h₀)
    {s s' : LinkStep} (hs : s ∈ part.linkSteps) (hs' : s' ∈ part'.linkSteps) :
    s.target ≠ s'.target := by
  have hall := (splits.links.map LinkStep.target).nodup_iff.2 site.targets
  rw [List.map_append] at hall
  exact (List.nodup_append.1 hall).2.2 _ (List.mem_map.2 ⟨s, hs, rfl⟩) _ (List.mem_map.2 ⟨s', hs', rfl⟩)

/-- No output of a part is at the place of anything that the other one writes. -/
theorem places_apart (splits : plan.Splits part part') (site : Workplace P env c plan h₀)
    (plans : P.Plans c part) (plans' : P.Plans c part') {o o' : Path} (ho : o ∈ part.outputs)
    (ho' : o' ∈ c.writes part') : o.locate env.cwd ≠ o'.locate env.cwd := by
  rw [BuildContext.mem_writes] at ho'
  rw [mem_outputs] at ho ho'
  intro heq
  rcases ho with ⟨s, hs, rfl⟩ | ⟨s, hs, rfl⟩
  · rcases ho' with (⟨s', hs', rfl⟩ | ⟨s', hs', rfl⟩) | rfl
    · have hout := Project.object_eq_of_location plans plans' hs hs' heq
      exact splits.objects_apart site hs hs' (congrArg Path.components hout)
    · exact Project.object_ne_module plans plans' hs hs' heq
    · rw [plans.holds.fingerprintPath] at heq
      exact Project.object_ne_cache plans hs heq
  · rcases ho' with (⟨s', hs', rfl⟩ | ⟨s', hs', rfl⟩) | rfl
    · exact Project.object_ne_module plans' plans hs' hs heq.symm
    · exact splits.targets_apart site hs hs' (Project.target_eq_of_location plans plans' hs hs' heq)
    · rw [plans.holds.fingerprintPath] at heq
      exact Project.module_ne_cache plans hs heq

end BuildPlan.Splits

/-! ### What the cache is told -/

theorem BuildContext.Succeeds.cacheSaved {h : Host} (built : c.Succeeds part env h) :
    CacheSaved ((c.execute part).runOn env h).1 := by
  obtain ⟨artifacts, hbuilt⟩ := built
  rw [hbuilt]
  intro e he
  cases he

theorem cacheAfter_eq (env : Environment) (c : BuildContext) (plan : BuildPlan) (h : Host) :
    c.cacheAfter env plan h =
      .keptAt (c.after plan env h).files (c.fingerprintPath.locate env.cwd) :=
  rfl

/-- A build starts from the cache that the one before has saved. -/
theorem cacheBefore_after (saved : CacheSaved ((c.execute part).runOn env h₀).1) :
    c.cacheBefore env (c.after part env h₀) = c.cacheRecorded part env h₀ :=
  c.cacheBefore_of_load (c.runOn_load_of_saved part env h₀ saved rfl)

/-- What a build does not compile keeps its entry. -/
theorem get?_cacheRecorded_compile {o : Path}
    (off : ∀ s ∈ part.compileSteps, o.components ≠ s.output.components) :
    (c.cacheRecorded part env h₀).compile.get? o = (c.cacheBefore env h₀).compile.get? o := by
  obtain ⟨procs, ex, -⟩ := c.executes_runOn part env h₀
  rw [c.cacheRecorded_eq]
  refine Table.get?_insertAll_other fun e he heq => ?_
  obtain ⟨turn, ht, d, -, rfl⟩ := mem_compileEntries.1 he
  refine off turn.step ?_ (Path.compare_eq_eq_iff.1 heq)
  rw [← ex.compileSteps]
  exact List.mem_map.2 ⟨turn, ht, rfl⟩

theorem get?_cacheRecorded_link {n : String} (off : ∀ s ∈ part.linkSteps, n ≠ s.target) :
    (c.cacheRecorded part env h₀).link.get? n = (c.cacheBefore env h₀).link.get? n := by
  obtain ⟨procs, ex, -⟩ := c.executes_runOn part env h₀
  rw [c.cacheRecorded_eq]
  refine Table.get?_insertAll_other fun e he heq => ?_
  obtain ⟨turn, ht, -, i, -, rfl⟩ := mem_linkEntries.1 he
  refine off turn.step ?_ (Std.LawfulEqCmp.compare_eq_iff_eq.1 heq)
  exact ex.linkSteps.subset (List.mem_map.2 ⟨turn, ht, rfl⟩)

/-! ### The parts are built -/

/-- A part that is built well adds its outputs, and then they are there. -/
theorem part_extends (site : Workplace P env c plan h₀) (partOf : part.PartOf plan) {h : Host}
    (built : c.Succeeds part env h) :
    Extends (c.writes part) env.cwd h.files (c.after part env h).files ∧
      ∀ o ∈ c.writes part, (c.after part env h).files.pathExists env.cwd o = true := by
  obtain ⟨artifacts, hbuilt⟩ := built
  obtain ⟨procs, ex, -⟩ := c.executes_runOn part env h
  rw [hbuilt] at ex
  have ord := ex.inOrder_of_writes
    (fun s hs => (site.steady.compile s (partOf.compiles hs)).writes)
    (fun s hs => (site.steady.link s (partOf.links hs)).writes)
  exact ⟨(ex.extending ord).whole, fun o ho => ex.writes_found ord ho⟩

/-- The plan is built at once. -/
theorem wholeBuild (site : Workplace P env c plan h₀)
    (built : c.Succeeds plan env h₀) :
    PartBuild P env c plan h₀ plan h₀ (c.after plan env h₀).files := by
  have partOf : plan.PartOf plan :=
    ⟨fun _ hs => hs, fun _ hs => hs, site.objects, site.targets, fun _ _ _ hs' _ => hs'⟩
  exact {
    plans := site.plans, partOf, built
    before := .refl _ _ _
    after := .refl _ _ _
    found := (part_extends site partOf built).2
    untouched := fun _ _ _ => rfl
    kept := fun _ _ => rfl
    objectEntries := fun _ _ => rfl
    moduleEntries := fun _ _ => rfl }

/-- A plan is carried out in two parts, both of which come out well. -/
structure BuiltInParts (P : Project) (env : Environment) (c : BuildContext)
    (plan part part' : BuildPlan) (h₀ : Host) : Prop where
  splits : plan.Splits part part'
  plans : P.Plans c part
  plans' : P.Plans c part'
  built : c.Succeeds part env h₀
  built' : c.Succeeds part' env (c.after part env h₀)

namespace BuiltInParts

variable (two : BuiltInParts P env c plan part part' h₀) (site : Workplace P env c plan h₀)

include two site

/-- When both parts are built, all that the plan asks for is there. -/
theorem found {o : Path} (ho : o ∈ c.writes plan) :
    (c.after part' env (c.after part env h₀)).files.pathExists env.cwd o = true := by
  obtain ⟨hext, hfound⟩ := part_extends site (two.splits.partOf site) two.built
  obtain ⟨hext', hfound'⟩ := part_extends site (two.splits.symm.partOf site) two.built'
  have hfirst (ho : o ∈ c.writes part) := hext'.keeps.pathExists (hfound o ho)
  simp only [BuildContext.mem_writes, BuildPlan.mem_outputs] at ho
  rcases ho with (⟨s, hs, rfl⟩ | ⟨s, hs, rfl⟩) | rfl
  · rcases two.splits.mem_compiles.1 hs with hs | hs
    · exact hfirst (BuildContext.object_mem_writes hs)
    · exact hfound' _ (BuildContext.object_mem_writes hs)
  · rcases two.splits.mem_links.1 hs with hs | hs
    · exact hfirst (BuildContext.module_mem_writes hs)
    · exact hfound' _ (BuildContext.module_mem_writes hs)
  · exact hfound' _ BuildContext.cache_mem_writes

theorem first : PartBuild P env c plan h₀ part h₀
    (c.after part' env (c.after part env h₀)).files := by
  obtain ⟨hext, hfound⟩ := part_extends site (two.splits.partOf site) two.built
  obtain ⟨hext', -⟩ := part_extends site (two.splits.symm.partOf site) two.built'
  exact {
    plans := two.plans
    partOf := two.splits.partOf site
    built := two.built
    before := .refl _ _ _
    after := hext'.mono ((two.splits.symm.partOf site).writes_subset c)
    found := fun o ho => two.found site ho
    untouched := fun _ _ _ => rfl
    kept := fun o ho => hext'.node?_eq
      (node?_of_pathExists (hfound o (BuildContext.mem_writes.2 (.inl ho))))
      fun o' ho' => two.splits.places_apart site two.plans two.plans' ho ho'
    objectEntries := fun _ _ => rfl
    moduleEntries := fun _ _ => rfl }

theorem second : PartBuild P env c plan h₀ part' (c.after part env h₀)
    (c.after part' env (c.after part env h₀)).files := by
  have partOf := two.splits.partOf site
  obtain ⟨hext, -⟩ := part_extends site partOf two.built
  have hcache := cacheBefore_after two.built.cacheSaved
  exact {
    plans := two.plans'
    partOf := two.splits.symm.partOf site
    built := two.built'
    before := hext.mono (partOf.writes_subset c)
    after := .refl _ _ _
    found := fun o ho => two.found site ho
    untouched := fun o ho off_way => hext.node?_of_offWay (partOf.writes_subset c) off_way
      fun o' ho' => two.splits.symm.places_apart site two.plans' two.plans ho ho'
    kept := fun _ _ => rfl
    objectEntries := fun s hs => by
      rw [hcache]
      exact get?_cacheRecorded_compile fun s' hs' => two.splits.symm.objects_apart site hs hs'
    moduleEntries := fun s hs => by
      rw [hcache]
      exact get?_cacheRecorded_link fun s' hs' => two.splits.symm.targets_apart site hs hs' }

end BuiltInParts

/-! ### The same in the end -/

/-- The entries of a plan have different keys. -/
theorem objectEntries_apart (site : Workplace P env c plan h₀) (t : FileTree) :
    (plan.compileSteps.filterMap (c.objectEntry env.cwd t)).Pairwise
      fun e f => compare e.1 f.1 ≠ .eq := by
  refine List.Pairwise.filterMap _ ?_ (List.pairwise_map.1 site.objects)
  intro s s' hne e he e' he' heq
  obtain ⟨i, -, rfl⟩ := Option.map_eq_some_iff.1 he
  obtain ⟨i', -, rfl⟩ := Option.map_eq_some_iff.1 he'
  exact hne (Path.compare_eq_eq_iff.1 heq)

theorem moduleEntries_apart (site : Workplace P env c plan h₀) (t : FileTree) :
    (plan.linkSteps.filterMap (moduleEntry env.cwd t)).Pairwise
      fun e f => compare e.1 f.1 ≠ .eq := by
  refine List.Pairwise.filterMap _ ?_ (List.pairwise_map.1 site.targets)
  intro s s' hne e he e' he' heq
  obtain ⟨i, -, rfl⟩ := Option.map_eq_some_iff.1 he
  obtain ⟨i', -, rfl⟩ := Option.map_eq_some_iff.1 he'
  exact hne (Std.LawfulEqCmp.compare_eq_iff_eq.1 heq)

namespace BuiltInParts

variable (two : BuiltInParts P env c plan part part' h₀) (site : Workplace P env c plan h₀)
  (whole : c.Succeeds plan env h₀)

include two site whole

/-- What the link steps read is the same as in the build of the whole. -/
theorem moduleEntry_eq {s : LinkStep} (hs : s ∈ plan.linkSteps) :
    moduleEntry env.cwd (c.after part' env (c.after part env h₀)).files s =
      moduleEntry env.cwd (c.after plan env h₀).files s := by
  have w := wholeBuild site whole
  rw [moduleEntry, moduleEntry]
  rcases two.splits.mem_links.1 hs with hs' | hs'
  · rw [w.linkInputs_alike site (two.first site) hs hs']
  · rw [w.linkInputs_alike site (two.second site) hs hs']

/-- The two parts leave the same cache as the whole. -/
theorem cacheRecorded_eq :
    c.cacheRecorded part' env (c.after part env h₀) = c.cacheRecorded plan env h₀ := by
  have w := wholeBuild site whole
  have hlinks := List.filterMap_congr fun s hs => two.moduleEntry_eq site whole (s := s) hs
  rw [c.cacheRecorded_eq, c.cacheRecorded_eq, (two.second site).compileEntries_eq site,
    (two.second site).linkEntries_eq site, w.compileEntries_eq site, w.linkEntries_eq site,
    cacheBefore_after two.built.cacheSaved, c.cacheRecorded_eq,
    (two.first site).compileEntries_eq site, (two.first site).linkEntries_eq site,
    ← Table.insertAll_append, ← Table.insertAll_append, ← List.filterMap_append,
    ← List.filterMap_append, ← hlinks,
    Table.insertAll_perm (two.splits.compiles.symm.filterMap _) (objectEntries_apart site _),
    Table.insertAll_perm (two.splits.links.symm.filterMap _) (moduleEntries_apart site _)]

/-- The two parts leave the same files as the whole. -/
theorem node?_eq (l : Location) :
    (c.after part' env (c.after part env h₀)).files.node? l = (c.after plan env h₀).files.node? l := by
  have w := wholeBuild site whole
  have b := two.first site
  have b' := two.second site
  by_cases off_way : c.OnWay plan env.cwd l
  · exact w.onWay_alike site b off_way
  by_cases hobject : ∃ s ∈ plan.compileSteps, l = s.output.locate env.cwd
  · obtain ⟨s, hs, rfl⟩ := hobject
    rcases two.splits.mem_compiles.1 hs with hs' | hs'
    · exact w.object_alike site b hs hs'
    · exact w.object_alike site b' hs hs'
  by_cases hmodule : ∃ s ∈ plan.linkSteps, l = s.output.locate env.cwd
  · obtain ⟨s, hs, rfl⟩ := hmodule
    rcases two.splits.mem_links.1 hs with hs' | hs'
    · exact w.module_alike site b hs hs'
    · exact w.module_alike site b' hs hs'
  by_cases hcache : l = c.fingerprintPath.locate env.cwd
  · subst hcache
    rw [b'.cache_place site, b.cache_place site, w.cache_place site,
      two.cacheRecorded_eq site whole, Option.map_some, Option.getD_some, isExecutable_file]
  · have off (o : Path) (ho : o ∈ c.writes plan) : l ≠ o.locate env.cwd := by
      intro heq
      simp only [BuildContext.mem_writes, BuildPlan.mem_outputs] at ho
      rcases ho with (⟨s, hs, rfl⟩ | ⟨s, hs, rfl⟩) | rfl
      · exact hobject ⟨s, hs, heq⟩
      · exact hmodule ⟨s, hs, heq⟩
      · exact hcache heq
    rw [(b.whole_extends site).node?_of_offWay (fun _ ho => ho) off_way off,
      (w.whole_extends site).node?_of_offWay (fun _ ho => ho) off_way off]

/-- The two parts start the processes of the whole, and give its artifacts. -/
theorem does {compiles : CompileStep → Bool} {links : LinkStep → Bool}
    (hcompiles : ∀ s ∈ plan.compileSteps, compiles s = true ↔ c.Recompiles plan env h₀ s)
    (hlinks : ∀ s ∈ plan.linkSteps,
      links s = true ↔ c.Relinks plan env h₀ (c.after plan env h₀).files s) :
    Does env c part h₀ compiles links ∧ Does env c part' (c.after part env h₀) compiles links := by
  have w := wholeBuild site whole
  have b := two.first site
  have b' := two.second site
  constructor
  · refine b.does site (fun s hs => hcompiles s (b.partOf.compiles hs)) fun s hs => ?_
    rw [hlinks s (b.partOf.links hs), w.relinks_alike site b (b.partOf.links hs) hs]
  · refine b'.does site (fun s hs => hcompiles s (b'.partOf.compiles hs)) fun s hs => ?_
    rw [hlinks s (b'.partOf.links hs), w.relinks_alike site b' (b'.partOf.links hs) hs]

end BuiltInParts

end

/-! ### Targets apart -/

section

variable {m : Manifest} {c : BuildContext} {ts₁ ts₂ : List Target} {p₁ p₂ p : BuildPlan}

/-- The plan for two lists of targets is split into the plans for each of them. -/
theorem BuildPlan.splits_of_targets (checked : CheckedTargets (ts₁ ++ ts₂))
    (planned₁ : BuildPlan.ofTargets c ts₁ = .ok p₁) (planned₂ : BuildPlan.ofTargets c ts₂ = .ok p₂)
    (planned : BuildPlan.ofTargets c (ts₁ ++ ts₂) = .ok p) : p.Splits p₁ p₂ := by
  have hvalid := checked.valid
  rw [BuildPlan.ofTargets_eq c hvalid] at planned
  rw [BuildPlan.ofTargets_eq c fun t ht => hvalid t (List.mem_append_left _ ht)] at planned₁
  rw [BuildPlan.ofTargets_eq c fun t ht => hvalid t (List.mem_append_right _ ht)] at planned₂
  cases planned
  cases planned₁
  cases planned₂
  have hnames {t t' : Target} (ht : t ∈ ts₁) (ht' : t' ∈ ts₂) : t.name ≠ t'.name := by
    have hdistinct := checked.distinct
    rw [List.map_append] at hdistinct
    exact (List.nodup_append.1 hdistinct).2.2 _ (List.mem_map.2 ⟨t, ht, rfl⟩) _
      (List.mem_map.2 ⟨t', ht', rfl⟩)
  constructor
  · rw [List.flatMap_append]
  · rw [List.map_append]
  · intro s hs s' hs'
    obtain ⟨t, ht, rfl⟩ := List.mem_map.1 hs
    obtain ⟨t', ht', hs'⟩ := List.mem_flatMap.1 hs'
    rw [c.target_of_mem_compileSteps hs']
    exact (hnames ht ht').symm
  · intro s hs s' hs'
    obtain ⟨t, ht, rfl⟩ := List.mem_map.1 hs
    obtain ⟨t', ht', hs'⟩ := List.mem_flatMap.1 hs'
    rw [c.target_of_mem_compileSteps hs']
    exact hnames ht' ht

/-- A build leaves the entries of a target as they are: those of all objects that it could
    have, and that of its module. -/
def LeavesEntries (env : Environment) (c : BuildContext) (plan : BuildPlan) (h : Host) (t : Target) :
    Prop :=
  (∀ source, (c.cacheAfter env plan h).compile.get? (c.objectPath t source) =
    (c.cacheBefore env h).compile.get? (c.objectPath t source)) ∧
  (c.cacheAfter env plan h).link.get? t.name = (c.cacheBefore env h).link.get? t.name

/-- Two plans can be carried out in both orders, and a third one at once, without a failure. -/
structure OrdersSucceed (env : Environment) (c : BuildContext) (p₁ p₂ p : BuildPlan) (h : Host) :
    Prop where
  first : c.Succeeds p₁ env h
  firstSecond : c.Succeeds p₂ env (c.after p₁ env h)
  second : c.Succeeds p₂ env h
  secondFirst : c.Succeeds p₁ env (c.after p₂ env h)
  whole : c.Succeeds p env h

/-- It does not matter in which order two plans are carried out, or whether a third one is
    instead. -/
structure OrdersAgree (env : Environment) (c : BuildContext) (p₁ p₂ p : BuildPlan) (h : Host) :
    Prop where
  does : ∃ compiles links, Does env c p h compiles links ∧
    (Does env c p₁ h compiles links ∧ Does env c p₂ (c.after p₁ env h) compiles links) ∧
    (Does env c p₂ h compiles links ∧ Does env c p₁ (c.after p₂ env h) compiles links)
  files : ∀ l, (c.after p₂ env (c.after p₁ env h)).files.node? l = (c.after p env h).files.node? l ∧
    (c.after p₁ env (c.after p₂ env h)).files.node? l = (c.after p env h).files.node? l

/-- A build of some targets leaves the entries of all others alone. -/
theorem leavesEntries_of_planned {ts : List Target} {plan : BuildPlan}
    (checked : CheckedTargets m.targets) (sub : ts ⊆ m.targets)
    (planned : BuildPlan.ofTargets c ts = .ok plan) {env : Environment} {h : Host}
    (saved : CacheSaved ((c.execute plan).runOn env h).1) {t : Target} (ht : t ∈ m.targets)
    (other : t ∉ ts) : LeavesEntries env c plan h t := by
  have named := Target.named_of_validate (checked.valid t ht)
  have hname {t' : Target} (ht' : t' ∈ ts) : t.name ≠ t'.name := fun heq =>
    other (checked.eq_of_name ht (sub ht') heq ▸ ht')
  rw [BuildPlan.ofTargets_eq c fun t' ht' => checked.valid t' (sub ht')] at planned
  cases planned
  rw [LeavesEntries, BuildContext.cacheAfter, c.keptAt_of_saved _ env h saved]
  constructor
  · intro source
    refine get?_cacheRecorded_compile fun s hs heq => ?_
    obtain ⟨t', ht', hs⟩ := List.mem_flatMap.1 hs
    obtain ⟨source', -, rfl⟩ := List.mem_map.1 hs
    have named' := Target.named_of_validate (checked.valid t' (sub ht'))
    rw [BuildContext.output_compileStep] at heq
    exact hname ht' ((c.objectPath_eq_iff named named').1 heq).1
  · refine get?_cacheRecorded_link fun s hs heq => ?_
    obtain ⟨t', ht', rfl⟩ := List.mem_map.1 hs
    exact hname ht' heq

/-- A build can be split by targets: two lists of targets without a common one can be built
    one after the other, in either order, or at once.  If all steps come out well, the same
    processes are started for each target, the same targets are fresh, and all files are the
    same in the end.  The build of one list leaves the entries of all other targets alone. -/
theorem builds_split_by_target {text : String} {dir : Path}
    (parsed : Manifest.parse text dir = .ok m) (sub₁ : ts₁ ⊆ m.targets) (sub₂ : ts₂ ⊆ m.targets)
    (distinct : (ts₁ ++ ts₂).Nodup) {w : Workspace} {tc : Toolchain} {settings : ToolchainSettings}
    (context : BuildContext.of w tc settings = .ok c)
    (planned₁ : BuildPlan.ofTargets c ts₁ = .ok p₁) (planned₂ : BuildPlan.ofTargets c ts₂ = .ok p₂)
    (planned : BuildPlan.ofTargets c (ts₁ ++ ts₂) = .ok p)
    (env : Environment) :
    ((p.compileSteps.map fun s => s.output.components).Nodup → SteadyTools env c p →
      ∀ h, h.files.Closed → h.files.isDirAt env.cwd = true → c.ReadsApart p env.cwd h.files →
        OrdersSucceed env c p₁ p₂ p h → OrdersAgree env c p₁ p₂ p h) ∧
    ∀ h, CacheSaved ((c.execute p₁).runOn env h).1 → ∀ t ∈ m.targets, t ∉ ts₁ →
      LeavesEntries env c p₁ h t := by
  have checked := Manifest.checked_of_parse parsed
  have sub : ts₁ ++ ts₂ ⊆ m.targets := List.append_subset.2 ⟨sub₁, sub₂⟩
  have checked' := checked.of_subset sub distinct
  have holds := Project.holds_of context
  refine ⟨fun objects steady h closed here apart succeed => ?_, fun h saved t ht other =>
    leavesEntries_of_planned checked sub₁ planned₁ saved ht other⟩
  have site : Workplace (Project.of w) env c p h :=
    ⟨⟨holds, _, planned⟩, objects, BuildPlan.linkTargets_nodup checked' planned, closed, here, apart,
      steady⟩
  have splits := BuildPlan.splits_of_targets checked' planned₁ planned₂ planned
  have two : BuiltInParts (Project.of w) env c p p₁ p₂ h :=
    ⟨splits, ⟨holds, _, planned₁⟩, ⟨holds, _, planned₂⟩, succeed.first, succeed.firstSecond⟩
  have two' : BuiltInParts (Project.of w) env c p p₂ p₁ h :=
    ⟨splits.symm, ⟨holds, _, planned₂⟩, ⟨holds, _, planned₁⟩, succeed.second, succeed.secondFirst⟩
  classical
  have hcompiles (s : CompileStep) (_ : s ∈ p.compileSteps) :
      decide (c.Recompiles p env h s) = true ↔ c.Recompiles p env h s := decide_eq_true_iff
  have hlinks (s : LinkStep) (_ : s ∈ p.linkSteps) :
      decide (c.Relinks p env h (c.after p env h).files s) = true ↔
        c.Relinks p env h (c.after p env h).files s := decide_eq_true_iff
  refine ⟨⟨_, _, (wholeBuild site succeed.whole).does site hcompiles hlinks,
    two.does site succeed.whole hcompiles hlinks, two'.does site succeed.whole hcompiles hlinks⟩,
    fun l => ⟨two.node?_eq site succeed.whole l, two'.node?_eq site succeed.whole l⟩⟩

/-! ### When all steps come out well -/

section

variable {env : Environment} {outs : List Path} {h : Host}
  (ready : Unhindered env c outs p h.files) (tidy : TidyTools env c p)
  (compilers : ∀ s ∈ p.compileSteps, Works env (c.compileCall s) s.output)
  (linkers : ∀ s ∈ p.linkSteps, Works env (c.linkCall s) s.output)

include ready tidy compilers linkers

/-- A part of a plan is built where nothing stands in the way of the plan, and nothing does
    afterwards. -/
theorem Unhindered.part_succeeds (part : BuildPlan) (compiles : part.compileSteps ⊆ p.compileSteps)
    (links : part.linkSteps ⊆ p.linkSteps) :
    c.Succeeds part env h ∧ Unhindered env c outs p (c.after part env h).files := by
  have tidy' : TidyTools env c part :=
    ⟨fun s hs => tidy.compile s (compiles hs), fun s hs => tidy.link s (links hs)⟩
  have ready' := ready.part compiles links
  exact ⟨ready'.succeeds tidy' (fun s hs => linkers s (links hs)) fun s hs =>
    compilers s (compiles hs), ready.mono (tidy'.extends ready'.outputs)⟩

theorem OrdersSucceed.of_unhindered (splits : p.Splits p₁ p₂) : OrdersSucceed env c p₁ p₂ p h := by
  have first {h' : Host} (now : Unhindered env c outs p h'.files) :=
    now.part_succeeds tidy compilers linkers p₁
      (fun s hs => splits.mem_compiles.2 (.inl hs)) fun s hs => splits.mem_links.2 (.inl hs)
  have second {h' : Host} (now : Unhindered env c outs p h'.files) :=
    now.part_succeeds tidy compilers linkers p₂
      (fun s hs => splits.mem_compiles.2 (.inr hs)) fun s hs => splits.mem_links.2 (.inr hs)
  exact ⟨(first ready).1, (second (first ready).2).1, (second ready).1, (first (second ready).2).1,
    ready.succeeds tidy linkers compilers⟩

end

end

/-! ### One target at a time -/

namespace Sample

theorem planned_targetA : BuildPlan.ofTargets manifestContext [targetA] =
    .ok (manifestContext.planFor targetA) :=
  BuildPlan.ofTargets_singleton _ rfl

theorem planned_targetB : BuildPlan.ofTargets manifestContext [targetB] =
    .ok (manifestContext.planFor targetB) :=
  BuildPlan.ofTargets_singleton _ rfl

theorem steady_writing {ι : Type} {bad : String} {i : Invocation} {p : Path}
    (h : resultOf i.command.args = some p) (reads : FileTree → Except Failure ι) :
    Steady (writingRun bad) i [] p reads where
  writes v := (tidyRun_writing h v).1
  alike v v' _ exit exit' _ _ same := by
    rw [node?_of_writeFile (writeFile_of_exitsZero h exit),
      node?_of_writeFile (writeFile_of_exitsZero h exit'), same]

/-- Compilers and linkers that write where they are told to are deterministic. -/
theorem steadyTools_writing (bad : String) {plan : BuildPlan}
    (compiles : ∀ s ∈ plan.compileSteps, resultOf s.command.args = some s.output)
    (links : ∀ s ∈ plan.linkSteps, resultOf s.command.args = some s.output) :
    SteadyTools (writingEnvironment bad) manifestContext plan :=
  ⟨fun s hs => steady_writing (i := manifestContext.compileCall s) (compiles s hs) _,
    fun s hs => steady_writing (i := manifestContext.linkCall s) (links s hs) _⟩

theorem ordersSucceed_manifest :
    OrdersSucceed (writingEnvironment "-bad") manifestContext (manifestContext.planFor targetA)
      (manifestContext.planFor targetB) manifestPlan unbuilt := by
  have checked : CheckedTargets ([targetA] ++ [targetB]) := Manifest.checked_of_parse parse_manifestText
  exact .of_unhindered (unhindered_manifestPlan "-bad") (tidy_manifestPlan "-bad")
    works_manifestPlan.1 works_manifestPlan.2
    (BuildPlan.splits_of_targets checked planned_targetA planned_targetB planned_manifest)

end Sample

/-- The two targets of the manifest are built one after the other, in both orders. -/
theorem builds_split_by_target_manifest :
    Manifest.parse Sample.manifestText ⟨"/p"⟩ = .ok Sample.manifest ∧
    [Sample.targetA] ⊆ Sample.manifest.targets ∧ [Sample.targetB] ⊆ Sample.manifest.targets ∧
    ([Sample.targetA] ++ [Sample.targetB]).Nodup ∧
    BuildContext.of { manifest := Sample.manifest } (.gnu ⟨"/bin/gcc"⟩ .gcc) {} =
      .ok Sample.manifestContext ∧
    BuildPlan.ofTargets Sample.manifestContext [Sample.targetA] =
      .ok (Sample.manifestContext.planFor Sample.targetA) ∧
    BuildPlan.ofTargets Sample.manifestContext [Sample.targetB] =
      .ok (Sample.manifestContext.planFor Sample.targetB) ∧
    BuildPlan.ofTargets Sample.manifestContext ([Sample.targetA] ++ [Sample.targetB]) =
      .ok Sample.manifestPlan ∧
    (Sample.manifestPlan.compileSteps.map fun s => s.output.components).Nodup ∧
    SteadyTools (Sample.writingEnvironment "-bad") Sample.manifestContext Sample.manifestPlan ∧
    Sample.sources.Closed ∧
    Sample.manifestContext.ReadsApart Sample.manifestPlan [] Sample.sources ∧
    OrdersSucceed (Sample.writingEnvironment "-bad") Sample.manifestContext
      (Sample.manifestContext.planFor Sample.targetA) (Sample.manifestContext.planFor Sample.targetB)
      Sample.manifestPlan Sample.unbuilt ∧
    OrdersAgree (Sample.writingEnvironment "-bad") Sample.manifestContext
      (Sample.manifestContext.planFor Sample.targetA) (Sample.manifestContext.planFor Sample.targetB)
      Sample.manifestPlan Sample.unbuilt ∧
    LeavesEntries (Sample.writingEnvironment "-bad") Sample.manifestContext
      (Sample.manifestContext.planFor Sample.targetA) Sample.unbuilt Sample.targetB := by
  have sub₁ : [Sample.targetA] ⊆ Sample.manifest.targets := List.subset_append_left _ [Sample.targetB]
  have sub₂ : [Sample.targetB] ⊆ Sample.manifest.targets := List.subset_append_right [Sample.targetA] _
  have distinct : ([Sample.targetA] ++ [Sample.targetB]).Nodup := by decide
  have steady := Sample.steadyTools_writing "-bad" Sample.compileResults_manifestPlan
    Sample.linkResults_manifestPlan
  have succeed := Sample.ordersSucceed_manifest
  obtain ⟨hagree, hleaves⟩ := builds_split_by_target Sample.parse_manifestText sub₁ sub₂ distinct
    Sample.contextOf_manifest Sample.planned_targetA Sample.planned_targetB Sample.planned_manifest
    (Sample.writingEnvironment "-bad")
  exact ⟨Sample.parse_manifestText, sub₁, sub₂, distinct, Sample.contextOf_manifest,
    Sample.planned_targetA, Sample.planned_targetB, Sample.planned_manifest, Sample.objects_manifestPlan, steady,
    Sample.closed_sources, Sample.readsApart_manifestPlan, succeed,
    hagree Sample.objects_manifestPlan steady Sample.unbuilt Sample.closed_sources rfl
      Sample.readsApart_manifestPlan succeed,
    hleaves _ succeed.first.cacheSaved _ (sub₂ List.mem_cons_self) (by decide)⟩

/-! ### A directory that one target makes for another -/

/-- A build that succeeds records of its first step what this reads at the beginning. -/
theorem BuildContext.Succeeds.records_first {env : Environment} {c : BuildContext} {plan : BuildPlan}
    {h : Host} (built : c.Succeeds plan env h) {s : CompileStep} {ss : List CompileStep}
    (steps : plan.compileSteps = s :: ss)
    (objects : (plan.compileSteps.map fun s => s.output.components).Nodup) :
    ∃ i, CompileInputs.ofStep h.files env.cwd c.root s = .ok i ∧
      (c.cacheAfter env plan h).compile.get? s.output = some (c.compileNow s i) := by
  have saved := built.cacheSaved
  obtain ⟨artifacts, hbuilt⟩ := built
  obtain ⟨procs, ex, -⟩ := c.executes_runOn plan env h
  rw [hbuilt] at ex
  obtain ⟨turn, ht, rfl, hfiles⟩ := c.head_planCompileTurns plan env h steps
  obtain ⟨d, hd⟩ := ex.steps_succeeded.1 turn ht
  obtain ⟨i, hi, hrecorded⟩ := (recordsCompiles_of_saved objects saved).done turn ht d hd
  exact ⟨i, hfiles ▸ hi, hrecorded⟩

namespace Sample

theorem steps_detourPlan : detourPlan.compileSteps =
      manifestContext.compileSteps detourA ++ manifestContext.compileSteps plainB ∧
    detourPlan.linkSteps = [manifestContext.linkStep detourA, manifestContext.linkStep plainB] := by
  have planned := planned_detour
  rw [BuildPlan.ofTargets_eq manifestContext (Manifest.checked_of_parse parse_detourText).valid]
    at planned
  have hplan := Except.ok.inj planned
  exact ⟨(congrArg BuildPlan.compileSteps hplan).symm, (congrArg BuildPlan.linkSteps hplan).symm⟩

theorem compileSteps_detourA : manifestContext.compileSteps detourA = [detourStep] := by
  have hlength : (manifestContext.compileSteps detourA).length = [detourStep].length := rfl
  exact (List.append_inj steps_detourPlan.1.symm hlength).1

theorem planned_detourA : BuildPlan.ofTargets manifestContext [detourA] =
    .ok (manifestContext.planFor detourA) :=
  BuildPlan.ofTargets_singleton _ rfl

theorem planned_plainB : BuildPlan.ofTargets manifestContext [plainB] =
    .ok (manifestContext.planFor plainB) :=
  BuildPlan.ofTargets_singleton _ rfl

theorem splits_detourPlan :
    detourPlan.Splits (manifestContext.planFor detourA) (manifestContext.planFor plainB) := by
  have checked : CheckedTargets ([detourA] ++ [plainB]) := Manifest.checked_of_parse parse_detourText
  exact BuildPlan.splits_of_targets checked planned_detourA planned_plainB planned_detour

theorem ordersSucceed_detour :
    OrdersSucceed (writingEnvironment "-bad") manifestContext (manifestContext.planFor detourA)
      (manifestContext.planFor plainB) detourPlan unbuilt :=
  .of_unhindered (unhindered_detourPlan "-bad") (tidy_detourPlan "-bad") works_detourPlan.1
    works_detourPlan.2 splits_detourPlan

/-- What is recorded of the step depends on whether `b` was built before. -/
theorem detour_recorded_apart (env : Environment) (cwd : env.cwd = []) (h₁ : Host) {h₂ : Host}
    (p₁ : BuildPlan) {p₂ : BuildPlan} {ss₁ ss₂ : List CompileStep}
    (steps₁ : p₁.compileSteps = detourStep :: ss₁)
    (steps₂ : p₂.compileSteps = detourStep :: ss₂)
    (objects₁ : (p₁.compileSteps.map fun s => s.output.components).Nodup)
    (objects₂ : (p₂.compileSteps.map fun s => s.output.components).Nodup)
    (built₁ : manifestContext.Succeeds p₁ env h₁) (built₂ : manifestContext.Succeeds p₂ env h₂)
    (before : h₁.files = sources) (after : Extends detourOuts [] sources h₂.files)
    (opened : h₂.files.isDirAt ["p", ".october"] = true) :
    manifestContext.cacheAfter env p₁ h₁ ≠ manifestContext.cacheAfter env p₂ h₂ := by
  intro hsame
  obtain ⟨i₁, hi₁, hrecorded₁⟩ := built₁.records_first steps₁ objects₁
  obtain ⟨i₂, hi₂, hrecorded₂⟩ := built₂.records_first steps₂ objects₂
  rw [before, cwd] at hi₁
  rw [cwd] at hi₂
  rw [hsame, hrecorded₂] at hrecorded₁
  have hapart := agrees_detour (headers_before hi₁) (headers_after after opened hi₂)
  rw [Option.some.inj hrecorded₁, CompileFingerprint.agrees_self] at hapart
  cases hapart

/-- The first build of `b` makes the directory. -/
theorem opened_plainB {h : Host} (env : Environment) (cwd : env.cwd = []) (first : h.files = sources)
    (tidy : TidyTools env manifestContext detourPlan)
    (built : manifestContext.Succeeds (manifestContext.planFor plainB) env h) :
    Extends detourOuts [] sources (manifestContext.after (manifestContext.planFor plainB) env h).files ∧
      (manifestContext.after (manifestContext.planFor plainB) env h).files.isDirAt ["p", ".october"] =
        true := by
  have tidy' : TidyTools env manifestContext (manifestContext.planFor plainB) :=
    ⟨fun s hs => tidy.compile s (splits_detourPlan.mem_compiles.2 (.inr hs)),
      fun s hs => tidy.link s (splits_detourPlan.mem_links.2 (.inr hs))⟩
  have houts := ((unhindered_detourPlan "-bad").part
    (fun s hs => splits_detourPlan.mem_compiles.2 (.inr hs))
    fun s hs => splits_detourPlan.mem_links.2 (.inr hs)).outputs
  rw [BuildContext.after]
  refine ⟨?_, opened_after cwd built.cacheSaved⟩
  rw [← first, ← cwd]
  exact tidy'.extends houts

end Sample

/-- That paths are distinct and no output is an input does not suffice: the fingerprint file
    is not the same in the end if one target finds headers by way of a directory that is made
    for the other. -/
theorem split_orders_differ :
    Manifest.parse Sample.detourText ⟨"/p"⟩ = .ok Sample.detourManifest ∧
    [Sample.detourA] ⊆ Sample.detourManifest.targets ∧
    [Sample.plainB] ⊆ Sample.detourManifest.targets ∧
    ([Sample.detourA] ++ [Sample.plainB]).Nodup ∧
    BuildContext.of { manifest := Sample.detourManifest } (.gnu ⟨"/bin/gcc"⟩ .gcc) {} =
      .ok Sample.manifestContext ∧
    BuildPlan.ofTargets Sample.manifestContext [Sample.detourA] =
      .ok (Sample.manifestContext.planFor Sample.detourA) ∧
    BuildPlan.ofTargets Sample.manifestContext [Sample.plainB] =
      .ok (Sample.manifestContext.planFor Sample.plainB) ∧
    BuildPlan.ofTargets Sample.manifestContext ([Sample.detourA] ++ [Sample.plainB]) =
      .ok Sample.detourPlan ∧
    (Sample.detourPlan.outputs.map Path.components).Nodup ∧
    (∀ s ∈ Sample.detourPlan.compileSteps, s.Unread [] Sample.manifestContext.root
      (Sample.manifestContext.writes Sample.detourPlan)) ∧
    SteadyTools (Sample.writingEnvironment "-bad") Sample.manifestContext Sample.detourPlan ∧
    OrdersSucceed (Sample.writingEnvironment "-bad") Sample.manifestContext
      (Sample.manifestContext.planFor Sample.detourA) (Sample.manifestContext.planFor Sample.plainB)
      Sample.detourPlan Sample.unbuilt ∧
    (Sample.manifestContext.after (Sample.manifestContext.planFor Sample.detourA)
        (Sample.writingEnvironment "-bad")
        (Sample.manifestContext.after (Sample.manifestContext.planFor Sample.plainB)
          (Sample.writingEnvironment "-bad") Sample.unbuilt)).files.node?
        (Sample.manifestContext.fingerprintPath.locate []) ≠
      (Sample.manifestContext.after Sample.detourPlan (Sample.writingEnvironment "-bad")
        Sample.unbuilt).files.node? (Sample.manifestContext.fingerprintPath.locate []) := by
  have succeed := Sample.ordersSucceed_detour
  refine ⟨Sample.parse_detourText, List.subset_append_left _ [Sample.plainB],
    List.subset_append_right [Sample.detourA] _, by decide, Sample.contextOf_detour,
    Sample.planned_detourA, Sample.planned_plainB, Sample.planned_detour, by decide,
    Sample.unread_detourPlan,
    Sample.steadyTools_writing "-bad" Sample.results_detourPlan.1 Sample.results_detourPlan.2, succeed,
    fun hsame => ?_⟩
  obtain ⟨after, opened⟩ := Sample.opened_plainB (Sample.writingEnvironment "-bad") rfl rfl
    (Sample.tidy_detourPlan "-bad") succeed.second
  refine Sample.detour_recorded_apart (Sample.writingEnvironment "-bad") rfl Sample.unbuilt
    Sample.detourPlan rfl Sample.compileSteps_detourA Sample.objects_detourPlan ?_ succeed.whole
    succeed.secondFirst rfl after opened ?_
  · show ((Sample.manifestContext.compileSteps Sample.detourA).map _).Nodup
    rw [Sample.compileSteps_detourA]
    exact List.nodup_singleton _
  · rw [cacheAfter_eq, cacheAfter_eq]
    exact FingerprintCache.keptAt_congr hsame.symm

end GrammarBuild
