import GrammarBuild.Proofs.Completed
import GrammarBuild.Proofs.Entries

/-
  GrammarBuild/Proofs/Parts.lean
  ==============================
  **Parts of a plan** — the targets of a plan can be built in parts, one after the other.
  What becomes of a step does not depend on the part that it is in and on the parts that
  were built before: its inputs are no outputs, its place and its entry of the cache are
  its own (`PartBuild.compile_turn`, `PartBuild.link_turn`).  So two builds of parts that have a
  step in common leave the same at its place (`PartBuild.object_alike`,
  `PartBuild.module_alike`).

  There is one exception: a place at which another output needs a directory.  If all steps
  come out well, no process has written there.
-/

namespace GrammarBuild

open FileTree

/-! ### Steady tools -/

/-- A process that exits with 0 has written its output and nothing else.  What it writes
    depends on what it reads, and on what was at the place of the output. -/
structure Steady {ι : Type} (run : Runner) (call : Invocation) (cwd : Location) (o : Path)
    (reads : FileTree → Except Failure ι) : Prop where
  writes : ∀ v, exitsZero (run v call).1 = true → WroteOutput cwd o v (run v call).2
  alike : ∀ v v' i, exitsZero (run v call).1 = true → exitsZero (run v' call).1 = true →
    reads v = .ok i → reads v' = .ok i → v.node? (o.locate cwd) = v'.node? (o.locate cwd) →
      (run v call).2.node? (o.locate cwd) = (run v' call).2.node? (o.locate cwd)

/-- The compiler and the linker are deterministic and write what they are asked for. -/
structure SteadyTools (env : Environment) (c : BuildContext) (plan : BuildPlan) : Prop where
  compile : ∀ s ∈ plan.compileSteps, Steady env.run (c.compileCall s) env.cwd s.output
    fun v => CompileInputs.ofStep v env.cwd c.root s
  link : ∀ s ∈ plan.linkSteps, Steady env.run (c.linkCall s) env.cwd s.output
    fun v => LinkInputs.ofStep v env.cwd s

/-! ### Parts -/

/-- A plan for some of the targets of another one. -/
structure BuildPlan.PartOf (part plan : BuildPlan) : Prop where
  compiles : part.compileSteps ⊆ plan.compileSteps
  links : part.linkSteps ⊆ plan.linkSteps
  objects : (part.compileSteps.map fun s => s.output.components).Nodup
  targets : (part.linkSteps.map LinkStep.target).Nodup
  /-- With a target come all its compile steps. -/
  full : ∀ s ∈ part.linkSteps, ∀ s' ∈ plan.compileSteps, s'.target = s.target →
    s' ∈ part.compileSteps

/-- A location at which a build needs a directory. -/
def BuildContext.OnWay (c : BuildContext) (plan : BuildPlan) (cwd l : Location) : Prop :=
  ∃ o ∈ c.writes plan, l ∈ o.dirWay cwd

/-- The host after a build. -/
def BuildContext.after (c : BuildContext) (plan : BuildPlan) (env : Environment) (h : Host) : Host :=
  ((c.execute plan).runOn env h).2

/-- A build in which all steps come out well. -/
def BuildContext.Succeeds (c : BuildContext) (plan : BuildPlan) (env : Environment) (h : Host) :
    Prop :=
  ∃ artifacts, ((c.execute plan).runOn env h).1 = .ok artifacts

/-- A plan that is to be built, in whole or in part, and the host before. -/
structure Workplace (P : Project) (env : Environment) (c : BuildContext) (plan : BuildPlan)
    (h₀ : Host) : Prop where
  plans : P.Plans c plan
  objects : (plan.compileSteps.map fun s => s.output.components).Nodup
  targets : (plan.linkSteps.map LinkStep.target).Nodup
  closed : h₀.files.Closed
  here : h₀.files.isDirAt env.cwd = true
  apart : c.ReadsApart plan env.cwd h₀.files
  steady : SteadyTools env c plan

/-- A source is compiled again if the object is not there as recorded, unless nothing can
    be written in its place. -/
def BuildContext.Recompiles (c : BuildContext) (plan : BuildPlan) (env : Environment) (h : Host)
    (s : CompileStep) : Prop :=
  ¬ c.OnWay plan env.cwd (s.output.locate env.cwd) ∧
    ∀ i, CompileInputs.ofStep h.files env.cwd c.root s = .ok i →
      (c.cacheBefore env h).objectFresh h.files env.cwd s.output (c.compileNow s i) = false

/-- The same for a target whose objects are, in the end, what is in `F`. -/
def BuildContext.Relinks (c : BuildContext) (plan : BuildPlan) (env : Environment) (h : Host)
    (F : FileTree) (s : LinkStep) : Prop :=
  ¬ c.OnWay plan env.cwd (s.output.locate env.cwd) ∧
    ((∃ s' ∈ plan.compileSteps, s'.target = s.target ∧ c.Recompiles plan env h s') ∨
      ∀ i, LinkInputs.ofStep F env.cwd s = .ok i →
        (c.cacheBefore env h).linkFresh h.files env.cwd false s i = false)

/-- The entry of a compile step that reads what there is in `t`. -/
def BuildContext.objectEntry (c : BuildContext) (cwd : Location) (t : FileTree) (s : CompileStep) :
    Option (Path × CompileFingerprint) :=
  (CompileInputs.ofStep t cwd c.root s).toOption.map fun i => (s.output, c.compileNow s i)

/-- The entry of a link step that reads what there is in `t`. -/
def moduleEntry (cwd : Location) (t : FileTree) (s : LinkStep) : Option (String × LinkFingerprint) :=
  (LinkInputs.ofStep t cwd s).toOption.map fun i => (s.target, i.fingerprint s)

/-- A build that succeeds, in which exactly the steps for which `compiles` and `links` are
    true start their processes. -/
structure Does (env : Environment) (c : BuildContext) (plan : BuildPlan) (h : Host)
    (compiles : CompileStep → Bool) (links : LinkStep → Bool) : Prop where
  started : (c.after plan env h).started = h.started ++
    ((plan.compileSteps.filter compiles).map c.compileCall ++
      (plan.linkSteps.filter links).map c.linkCall)
  artifacts : ((c.execute plan).runOn env h).1 =
    .ok (plan.linkSteps.map fun s => s.artifact (!links s))

/-- A part of a plan is built well on a host on which other parts may have been built
    since `h₀`, and others may follow until the files are `F`. -/
structure PartBuild (P : Project) (env : Environment) (c : BuildContext) (plan : BuildPlan)
    (h₀ : Host) (part : BuildPlan) (h : Host) (F : FileTree) : Prop where
  plans : P.Plans c part
  partOf : part.PartOf plan
  built : c.Succeeds part env h
  before : Extends (c.writes plan) env.cwd h₀.files h.files
  after : Extends (c.writes plan) env.cwd (c.after part env h).files F
  /-- In the end all that the plan asks for is there. -/
  found : ∀ o ∈ c.writes plan, F.pathExists env.cwd o = true
  untouched : ∀ o ∈ part.outputs, ¬ c.OnWay plan env.cwd (o.locate env.cwd) →
    h.files.node? (o.locate env.cwd) = h₀.files.node? (o.locate env.cwd)
  kept : ∀ o ∈ part.outputs,
    F.node? (o.locate env.cwd) = (c.after part env h).files.node? (o.locate env.cwd)
  objectEntries : ∀ s ∈ part.compileSteps,
    (c.cacheBefore env h).compile.get? s.output = (c.cacheBefore env h₀).compile.get? s.output
  moduleEntries : ∀ s ∈ part.linkSteps,
    (c.cacheBefore env h).link.get? s.target = (c.cacheBefore env h₀).link.get? s.target

section

variable {P : Project} {env : Environment} {c : BuildContext} {plan part : BuildPlan}
  {cwd : Location}

namespace BuildPlan.PartOf

theorem outputs_subset (p : part.PartOf plan) : part.outputs ⊆ plan.outputs := by
  intro o ho
  rw [mem_outputs] at ho ⊢
  exact ho.imp (fun ⟨s, hs, heq⟩ => ⟨s, p.compiles hs, heq⟩) fun ⟨s, hs, heq⟩ => ⟨s, p.links hs, heq⟩

theorem writes_subset (p : part.PartOf plan) (c : BuildContext) : c.writes part ⊆ c.writes plan := by
  intro o ho
  rw [BuildContext.mem_writes] at ho ⊢
  exact ho.imp_left fun ho => p.outputs_subset ho

end BuildPlan.PartOf

/-! ### Places of their own -/

theorem Project.Plans.objectPlaces_nodup (plans : P.Plans c plan)
    (objects : (plan.compileSteps.map fun s => s.output.components).Nodup) (cwd : Location) :
    (plan.compileSteps.map fun s => s.output.locate cwd).Nodup := by
  refine List.Nodup.map_on (fun s hs s' hs' heq => ?_) (List.Nodup.of_map _ objects)
  have hout := Project.object_eq_of_location plans plans hs hs' heq
  exact List.inj_on_of_nodup_map objects hs hs' (congrArg Path.components hout)

theorem Project.Plans.modulePlaces_nodup (plans : P.Plans c plan)
    (targets : (plan.linkSteps.map LinkStep.target).Nodup) (cwd : Location) :
    (plan.linkSteps.map fun s => s.output.locate cwd).Nodup := by
  refine List.Nodup.map_on (fun s hs s' hs' heq => ?_) (List.Nodup.of_map _ targets)
  exact List.inj_on_of_nodup_map targets hs hs' (Project.target_eq_of_location plans plans hs hs' heq)

/-- Off the ways to outputs nothing but these is changed. -/
theorem FileTree.Extends.node?_of_offWay {outs : List Path} {l : Location} {t u : FileTree}
    (a : Extends outs cwd t u) (sub : outs ⊆ c.writes plan) (off_way : ¬ c.OnWay plan cwd l)
    (off : ∀ o ∈ outs, l ≠ o.locate cwd) : u.node? l = t.node? l :=
  a.node?_same off fun o ho hm => off_way ⟨o, sub ho, hm⟩

theorem BuildPlan.PartOf.not_onWay (p : part.PartOf plan) {l : Location}
    (off_way : ¬ c.OnWay plan cwd l) : ¬ c.OnWay part cwd l :=
  fun ⟨o, ho, hm⟩ => off_way ⟨o, p.writes_subset c ho, hm⟩

section

variable {cache : FingerprintCache} {t u : FileTree} {turns : List CompileTurn}
  {links : List LinkTurn} {procs : List Invocation} {l : Location}

theorem CompilesAll.node?_elsewhere (all : CompilesAll env c cache t plan.compileSteps turns u procs)
    (ord : InOrder env.cwd turns links) (off_way : ¬ c.OnWay plan env.cwd l)
    (off : ∀ s ∈ plan.compileSteps, l ≠ s.output.locate env.cwd) : u.node? l = t.node? l := by
  have hext := (all.extends ord fun s hs => List.mem_map_of_mem (f := CompileStep.output) hs).1
  refine hext.node?_of_offWay (fun o ho => ?_) off_way fun o ho => ?_
  · obtain ⟨s, hs, rfl⟩ := List.mem_map.1 ho
    exact BuildContext.object_mem_writes hs
  · obtain ⟨s, hs, rfl⟩ := List.mem_map.1 ho
    exact off s hs

theorem LinksAll.node?_elsewhere {names : List String}
    (all : LinksAll env c names cache t plan.linkSteps links u procs)
    (ord : InOrder env.cwd turns links) (off_way : ¬ c.OnWay plan env.cwd l)
    (off : ∀ s ∈ plan.linkSteps, l ≠ s.output.locate env.cwd) : u.node? l = t.node? l := by
  have hext := (all.extends ord fun s hs => List.mem_map_of_mem (f := LinkStep.output) hs).1
  refine hext.node?_of_offWay (fun o ho => ?_) off_way fun o ho => ?_
  · obtain ⟨s, hs, rfl⟩ := List.mem_map.1 ho
    exact BuildContext.module_mem_writes hs
  · obtain ⟨s, hs, rfl⟩ := List.mem_map.1 ho
    exact off s hs

theorem FingerprintCache.Saves.node?_elsewhere {r : Except Failure Unit}
    (saves : FingerprintCache.Saves cwd c.fingerprintPath cache t r u)
    (off_way : ¬ c.OnWay plan cwd l) (off : l ≠ c.fingerprintPath.locate cwd) :
    u.node? l = t.node? l := by
  refine saves.extends.node?_of_offWay (fun o ho => ?_) off_way fun o ho => ?_
  · rw [List.mem_singleton.1 ho]
    exact BuildContext.cache_mem_writes
  · rw [List.mem_singleton.1 ho]
    exact off

/-- The place of an object is left alone before and after the turn of its step. -/
theorem CompilesAll.node?_around (all : CompilesAll env c cache t plan.compileSteps turns u procs)
    (ord : InOrder env.cwd turns links)
    (distinct : (plan.compileSteps.map fun s => s.output.locate env.cwd).Nodup)
    {turn : CompileTurn} (ht : turn ∈ turns)
    (off_way : ¬ c.OnWay plan env.cwd (turn.step.output.locate env.cwd)) :
    turn.files.node? (turn.step.output.locate env.cwd) =
        t.node? (turn.step.output.locate env.cwd) ∧
      u.node? (turn.step.output.locate env.cwd) =
        turn.after.node? (turn.step.output.locate env.cwd) := by
  rw [← all.steps, List.map_map] at distinct
  refine all.chained.node?_around (fun s : CompileStep => s.output.locate env.cwd) distinct
    (fun turn' ht' hne => ?_) ht rfl
  refine (ord.compile all ht').node?_of_offWay (fun o ho => ?_) off_way fun o ho => ?_
  · rw [List.mem_singleton.1 ho]
    exact BuildContext.object_mem_writes (all.step_mem ht')
  · rw [List.mem_singleton.1 ho]
    exact hne.symm

theorem LinksAll.node?_around {names : List String}
    (all : LinksAll env c names cache t plan.linkSteps links u procs)
    (ord : InOrder env.cwd turns links)
    (distinct : (plan.linkSteps.map fun s => s.output.locate env.cwd).Nodup)
    (steps : links.map Turn.step = plan.linkSteps) {turn : LinkTurn} (ht : turn ∈ links)
    (off_way : ¬ c.OnWay plan env.cwd (turn.step.output.locate env.cwd)) :
    turn.files.node? (turn.step.output.locate env.cwd) =
        t.node? (turn.step.output.locate env.cwd) ∧
      u.node? (turn.step.output.locate env.cwd) =
        turn.after.node? (turn.step.output.locate env.cwd) := by
  rw [← steps, List.map_map] at distinct
  refine all.chained.node?_around (fun s : LinkStep => s.output.locate env.cwd) distinct
    (fun turn' ht' hne => ?_) ht rfl
  refine (ord.link all ht').node?_of_offWay (fun o ho => ?_) off_way fun o ho => ?_
  · rw [List.mem_singleton.1 ho]
    exact BuildContext.module_mem_writes (all.step_mem ht')
  · rw [List.mem_singleton.1 ho]
    exact hne.symm

end

/-! ### What steps come to -/

/-- A compile step that comes out well is fresh if its object is. -/
theorem Compiles.eq_of_ok {cache : FingerprintCache} {s : CompileStep} {t u : FileTree}
    {d : Compiled} {procs : List Invocation} (h : Compiles env c cache s t (.ok d) u procs) :
    ∃ i, CompileInputs.ofStep t env.cwd c.root s = .ok i ∧
      d = ⟨c.compileNow s i, cache.objectFresh t env.cwd s.output (c.compileNow s i)⟩ := by
  cases h with
  | fresh inputs fresh => exact ⟨_, inputs, by rw [fresh]⟩
  | succeeded inputs stale => exact ⟨_, inputs, by rw [stale]⟩

theorem Links.eq_of_ok {cache now : FingerprintCache} {rebuilt : Bool} {s : LinkStep}
    {t u : FileTree} {a : Artifact} {procs : List Invocation}
    (h : Links env c cache rebuilt s t (.ok (a, now)) u procs) :
    ∃ i, LinkInputs.ofStep t env.cwd s = .ok i ∧
      a = s.artifact (cache.linkFresh t env.cwd rebuilt s i) := by
  cases h with
  | fresh inputs fresh => exact ⟨_, inputs, by rw [fresh]⟩
  | succeeded inputs stale => exact ⟨_, inputs, by rw [stale]⟩

/-- A fresh step changes nothing. -/
theorem Compiles.of_ok_fresh {cache : FingerprintCache} {s : CompileStep} {t u : FileTree}
    {d : Compiled} {procs : List Invocation} (h : Compiles env c cache s t (.ok d) u procs)
    (fresh : d.fresh = true) : u = t := by
  cases h with
  | fresh => rfl
  | succeeded => cases fresh

theorem Links.of_ok_fresh {cache now : FingerprintCache} {rebuilt : Bool} {s : LinkStep}
    {t u : FileTree} {a : Artifact} {procs : List Invocation}
    (h : Links env c cache rebuilt s t (.ok (a, now)) u procs) (fresh : a.fresh = true) :
    u = t := by
  cases h with
  | fresh => rfl
  | succeeded => cases fresh

/-- A step that comes out well has started its process, unless it is fresh. -/
theorem Compiles.procs_of_ok {cache : FingerprintCache} {s : CompileStep} {t u : FileTree}
    {d : Compiled} {procs : List Invocation} (h : Compiles env c cache s t (.ok d) u procs) :
    procs = if d.fresh then [] else [c.compileCall s] := by
  cases h with
  | fresh => rfl
  | succeeded => rfl

theorem Links.procs_of_ok {cache now : FingerprintCache} {rebuilt : Bool} {s : LinkStep}
    {t u : FileTree} {a : Artifact} {procs : List Invocation}
    (h : Links env c cache rebuilt s t (.ok (a, now)) u procs) :
    procs = if a.fresh then [] else [c.linkCall s] := by
  cases h with
  | fresh => rfl
  | succeeded => rfl

theorem CompilesAll.procs_eq_filter {cache : FingerprintCache} {t u : FileTree}
    {ss : List CompileStep} {turns : List CompileTurn} {procs : List Invocation}
    (all : CompilesAll env c cache t ss turns u procs) {ran : CompileStep → Bool}
    (outcome : ∀ turn ∈ turns, ∃ f, turn.result = .ok ⟨f, !ran turn.step⟩) :
    procs = (ss.filter ran).map c.compileCall := by
  induction all with
  | nil t => rfl
  | @cons s ss t t₁ t₂ r turns procs procs' first later ih =>
    obtain ⟨f, hf⟩ := outcome _ List.mem_cons_self
    obtain rfl : r = .ok ⟨f, !ran s⟩ := hf
    rw [first.procs_of_ok, ih fun turn ht => outcome turn (List.mem_cons_of_mem _ ht),
      List.filter_cons]
    cases ran s with
    | true => rfl
    | false => rfl

theorem LinksAll.procs_eq_filter {cache : FingerprintCache} {names : List String} {t u : FileTree}
    {ss : List LinkStep} {links : List LinkTurn} {procs : List Invocation}
    (all : LinksAll env c names cache t ss links u procs) {ran : LinkStep → Bool}
    (outcome : ∀ turn ∈ links, ∃ now,
      turn.result = .ok (turn.step.artifact (!ran turn.step), now)) :
    procs = (ss.filter ran).map c.linkCall := by
  induction all with
  | nil cache t => rfl
  | failed first =>
    obtain ⟨now, hnow⟩ := outcome _ List.mem_cons_self
    cases hnow
  | @cons cache cache₁ s ss t t₁ t₂ a links procs procs' first later ih =>
    obtain ⟨now, hnow⟩ := outcome _ List.mem_cons_self
    obtain rfl : a = s.artifact (!ran s) := congrArg Prod.fst (Except.ok.inj hnow)
    rw [first.procs_of_ok, ih fun turn ht => outcome turn (List.mem_cons_of_mem _ ht),
      List.filter_cons]
    simp only [LinkStep.artifact]
    cases ran s with
    | true => rfl
    | false => rfl

/-- A compile step of which a process was run left what the process has made of the files
    with the directory for the object. -/
theorem Compiles.ran {cache : FingerprintCache} {s : CompileStep} {t u : FileTree}
    {d : Compiled} {procs : List Invocation} (h : Compiles env c cache s t (.ok d) u procs)
    (ran : d.fresh = false) :
    ∃ v, AddsDirs (s.output.dirWay env.cwd) t v ∧
      exitsZero (env.run v (c.compileCall s)).1 = true ∧ u = (env.run v (c.compileCall s)).2 := by
  cases h with
  | fresh => cases ran
  | succeeded inputs stale dir run exit =>
    refine ⟨_, .of_prepare dir fun _ => rfl, ?_, ?_⟩
    · rw [run]
      exact exit
    · rw [run]

theorem Links.ran {cache now : FingerprintCache} {rebuilt : Bool} {s : LinkStep} {t u : FileTree}
    {a : Artifact} {procs : List Invocation}
    (h : Links env c cache rebuilt s t (.ok (a, now)) u procs) (ran : a.fresh = false) :
    ∃ v, AddsDirs (s.output.dirWay env.cwd) t v ∧
      exitsZero (env.run v (c.linkCall s)).1 = true ∧ u = (env.run v (c.linkCall s)).2 := by
  cases h with
  | fresh => cases ran
  | succeeded inputs stale dir run exit =>
    refine ⟨_, .of_prepare dir fun _ => rfl, ?_, ?_⟩
    · rw [run]
      exact exit
    · rw [run]

end

/-- A target is rebuilt if a compiler was run for it. -/
theorem mem_rebuiltTargets {turns : List CompileTurn} {n : String} :
    n ∈ BuildContext.rebuiltTargets (outcomesOf turns) ↔
      ∃ turn ∈ turns, turn.step.target = n ∧ ∃ f, turn.result = .ok ⟨f, false⟩ := by
  simp only [BuildContext.rebuiltTargets, outcomesOf, List.filterMap_map, List.mem_filterMap,
    Function.comp_apply]
  refine exists_congr fun turn => and_congr_right fun _ => ?_
  rcases turn.result with e | ⟨f, fresh⟩
  · simp
  · cases fresh with
    | true => simp
    | false => simp

/-- A cache that cannot be found is empty. -/
theorem FingerprintCache.ofFile_of_notFound {t : FileTree} {cwd : Location} {p : Path}
    (h : t.pathExists cwd p = false) : FingerprintCache.ofFile t cwd p = {} := by
  unfold ofFile
  cases hr : t.readFile cwd p with
  | error f => rfl
  | ok bytes =>
    rw [pathExists_of_readFile hr] at h
    cases h

/-! ### Builds of parts -/

namespace PartBuild

variable {P : Project} {env : Environment} {c : BuildContext} {plan part : BuildPlan}
  {h₀ h : Host} {F t : FileTree}

theorem executes (b : PartBuild P env c plan h₀ part h F) :
    ∃ artifacts procs, ((c.execute part).runOn env h).1 = .ok artifacts ∧
      (c.after part env h).started = h.started ++ procs ∧
      Executes env c part h.files (c.planCompileTurns part env h) (c.planLinkTurns part env h)
        (.ok artifacts) (c.after part env h).files procs := by
  obtain ⟨artifacts, hbuilt⟩ := b.built
  obtain ⟨procs, ex, hstarted⟩ := c.executes_runOn part env h
  rw [hbuilt] at ex
  exact ⟨artifacts, procs, hbuilt, hstarted, ex⟩

variable (site : Workplace P env c plan h₀) (b : PartBuild P env c plan h₀ part h F)

include site b

theorem inOrder :
    InOrder env.cwd (c.planCompileTurns part env h) (c.planLinkTurns part env h) := by
  obtain ⟨artifacts, procs, -, -, ex⟩ := b.executes
  exact ex.inOrder_of_writes
    (fun s hs => (site.steady.compile s (b.partOf.compiles hs)).writes)
    (fun s hs => (site.steady.link s (b.partOf.links hs)).writes)

theorem compile_extends {turn : CompileTurn} (ht : turn ∈ c.planCompileTurns part env h) :
    Extends (c.writes plan) env.cwd h₀.files turn.files ∧
      Extends (c.writes plan) env.cwd turn.files turn.after ∧
      Extends (c.writes plan) env.cwd turn.after F := by
  obtain ⟨artifacts, procs, -, -, ex⟩ := b.executes
  obtain ⟨hbefore, hturn, hafter⟩ := (ex.extending (b.inOrder site)).compile turn ht
  have hsub := b.partOf.writes_subset c
  exact ⟨b.before.trans (hbefore.mono hsub), hturn.mono hsub, (hafter.mono hsub).trans b.after⟩

theorem link_extends {turn : LinkTurn} (ht : turn ∈ c.planLinkTurns part env h) :
    Extends (c.writes plan) env.cwd h₀.files turn.files ∧
      Extends (c.writes plan) env.cwd turn.files turn.after ∧
      Extends (c.writes plan) env.cwd turn.after F := by
  obtain ⟨artifacts, procs, -, -, ex⟩ := b.executes
  obtain ⟨hbefore, hturn, hafter⟩ := (ex.extending (b.inOrder site)).link turn ht
  have hsub := b.partOf.writes_subset c
  exact ⟨b.before.trans (hbefore.mono hsub), hturn.mono hsub, (hafter.mono hsub).trans b.after⟩

theorem whole_extends : Extends (c.writes plan) env.cwd h₀.files F := by
  obtain ⟨artifacts, procs, -, -, ex⟩ := b.executes
  have hwhole := (ex.extending (b.inOrder site)).whole
  exact b.before.trans ((hwhole.mono (b.partOf.writes_subset c)).trans b.after)

/-- In the end there are directories on all ways. -/
theorem isDirAt_of_onWay {l : Location} (hl : c.OnWay plan env.cwd l) : F.isDirAt l = true := by
  obtain ⟨o, ho, hm⟩ := hl
  have hhere := (b.whole_extends site).keeps.dirs _ site.here
  exact isDirAt_of_found (b.found o ho) hhere hm

/-- So nothing was written there. -/
theorem offWay_of_wrote {o : Path} {u : FileTree} (wrote : WroteOutput env.cwd o t u)
    (later : Extends (c.writes plan) env.cwd u F) :
    ¬ c.OnWay plan env.cwd (o.locate env.cwd) := by
  intro hl
  have hdir := b.isDirAt_of_onWay site hl
  obtain ⟨bytes, x, hfile⟩ := later.file (node?_of_isFile wrote.file)
  rw [isDirAt_node?, hfile] at hdir
  cases hdir

/-- Whether an output is found depends on what is at its place, if a cache is. -/
theorem pathExists_eq (before : Extends (c.writes plan) env.cwd h₀.files t)
    (after : Extends (c.writes plan) env.cwd t F)
    (cached : h₀.files.pathExists env.cwd c.fingerprintPath = true) {o : Path}
    (ho : o ∈ plan.outputs)
    (own : t.node? (o.locate env.cwd) = h₀.files.node? (o.locate env.cwd)) :
    t.pathExists env.cwd o = h₀.files.pathExists env.cwd o := by
  have hplain : PlainName ".fingerprints.json" := ⟨by decide, by decide, by decide, by decide⟩
  have hcache : c.fingerprintPath.components =
      c.outputDir.components ++ [".fingerprints.json"].map .normal := by
    rw [site.plans.holds.fingerprintPath, site.plans.holds.outputDir]
    exact Path.components_child hplain P.outputDir
  have straight := straight_of_found hcache (by simp) cached
  have more : ∀ m ∈ o.dirWay env.cwd,
      t.node? m = h₀.files.node? m ∨ Gains h₀.files t m := fun m hm =>
    before.same_or_gains after (b.isDirAt_of_onWay site ⟨o, BuildContext.mem_writes.2 (.inl ho), hm⟩)
  rw [BuildPlan.mem_outputs] at ho
  rcases ho with ⟨s, hs, rfl⟩ | ⟨s, hs, rfl⟩
  · obtain ⟨g, named, source, rfl⟩ := site.plans.compileStep hs
    exact pathExists_over more site.closed (straight.objectPath named source) own
  · obtain ⟨g, named, rfl⟩ := site.plans.linkStep hs
    exact pathExists_over more site.closed (straight.modulePath named) own

theorem objectFresh_eq {s : CompileStep} (hs : s ∈ part.compileSteps)
    (before : Extends (c.writes plan) env.cwd h₀.files t)
    (after : Extends (c.writes plan) env.cwd t F)
    (own : t.node? (s.output.locate env.cwd) = h₀.files.node? (s.output.locate env.cwd))
    (f : CompileFingerprint) :
    (c.cacheBefore env h).objectFresh t env.cwd s.output f =
      (c.cacheBefore env h₀).objectFresh h₀.files env.cwd s.output f := by
  rw [FingerprintCache.objectFresh, FingerprintCache.objectFresh, b.objectEntries s hs]
  cases hcached : h₀.files.pathExists env.cwd c.fingerprintPath with
  | true =>
    rw [b.pathExists_eq site before after hcached
      (BuildPlan.object_mem_outputs (b.partOf.compiles hs)) own]
  | false =>
    rw [BuildContext.cacheBefore, FingerprintCache.ofFile_of_notFound hcached]
    exact (Bool.and_false _).trans (Bool.and_false _).symm

theorem moduleFresh_eq {s : LinkStep} (hs : s ∈ part.linkSteps)
    (before : Extends (c.writes plan) env.cwd h₀.files t)
    (after : Extends (c.writes plan) env.cwd t F)
    (own : t.node? (s.output.locate env.cwd) = h₀.files.node? (s.output.locate env.cwd))
    (f : LinkFingerprint) :
    (c.cacheBefore env h).moduleFresh t env.cwd s.target s.output f =
      (c.cacheBefore env h₀).moduleFresh h₀.files env.cwd s.target s.output f := by
  rw [FingerprintCache.moduleFresh, FingerprintCache.moduleFresh, b.moduleEntries s hs]
  cases hcached : h₀.files.pathExists env.cwd c.fingerprintPath with
  | true =>
    rw [b.pathExists_eq site before after hcached
      (BuildPlan.module_mem_outputs (b.partOf.links hs)) own]
  | false =>
    rw [BuildContext.cacheBefore, FingerprintCache.ofFile_of_notFound hcached]
    exact (Bool.and_false _).trans (Bool.and_false _).symm

/-! ### Places -/

/-- At the place of a step's object there is what was there, until its turn comes; what the
    turn leaves is there in the end. -/
theorem object_place {turn : CompileTurn} (ht : turn ∈ c.planCompileTurns part env h)
    (off_way : ¬ c.OnWay plan env.cwd (turn.step.output.locate env.cwd)) :
    turn.files.node? (turn.step.output.locate env.cwd) =
        h₀.files.node? (turn.step.output.locate env.cwd) ∧
      F.node? (turn.step.output.locate env.cwd) =
        turn.after.node? (turn.step.output.locate env.cwd) := by
  have ord := b.inOrder site
  obtain ⟨artifacts, procs, -, -, ex⟩ := b.executes
  obtain ⟨t₁, t₂, q, q', -, compiles, -, all, -, saves⟩ := ex.succeeded
  have hs := compiles.step_mem ht
  have off_part := b.partOf.not_onWay off_way
  obtain ⟨hbefore, hafter⟩ := compiles.node?_around ord
    (b.plans.objectPlaces_nodup b.partOf.objects env.cwd) ht off_part
  have hlinks := all.node?_elsewhere ord off_part fun s' hs' =>
    Project.object_ne_module b.plans b.plans hs hs'
  have hsave := saves.node?_elsewhere off_part (by
    rw [b.plans.holds.fingerprintPath]
    exact Project.object_ne_cache b.plans hs)
  constructor
  · rw [hbefore]
    exact b.untouched _ (BuildPlan.object_mem_outputs hs) off_way
  · rw [b.kept _ (BuildPlan.object_mem_outputs hs), hsave, hlinks, hafter]

/-- The same for the place of a module. -/
theorem module_place {turn : LinkTurn} (ht : turn ∈ c.planLinkTurns part env h)
    (off_way : ¬ c.OnWay plan env.cwd (turn.step.output.locate env.cwd)) :
    turn.files.node? (turn.step.output.locate env.cwd) =
        h₀.files.node? (turn.step.output.locate env.cwd) ∧
      F.node? (turn.step.output.locate env.cwd) =
        turn.after.node? (turn.step.output.locate env.cwd) := by
  have ord := b.inOrder site
  obtain ⟨artifacts, procs, -, -, ex⟩ := b.executes
  obtain ⟨t₁, t₂, q, q', -, compiles, -, all, given, saves⟩ := ex.succeeded
  have hs := all.step_mem ht
  have off_part := b.partOf.not_onWay off_way
  obtain ⟨hbefore, hafter⟩ := all.node?_around ord
    (b.plans.modulePlaces_nodup b.partOf.targets env.cwd) (all.of_artifacts given).1 ht off_part
  have hcompiles := compiles.node?_elsewhere ord off_part fun s' hs' =>
    (Project.object_ne_module b.plans b.plans hs' hs).symm
  have hsave := saves.node?_elsewhere off_part (by
    rw [b.plans.holds.fingerprintPath]
    exact Project.module_ne_cache b.plans hs)
  constructor
  · rw [hbefore, hcompiles]
    exact b.untouched _ (BuildPlan.module_mem_outputs hs) off_way
  · rw [b.kept _ (BuildPlan.module_mem_outputs hs), hsave, hafter]

/-- At the place of the cache is what was saved, to be run if what was there was. -/
theorem cache_place :
    (c.after part env h).files.node? (c.fingerprintPath.locate env.cwd) =
      some (.file (c.cacheRecorded part env h).write.toUTF8
        ((h.files.node? (c.fingerprintPath.locate env.cwd)).map Node.isExecutable |>.getD false)) := by
  have ord := b.inOrder site
  obtain ⟨artifacts, procs, -, -, ex⟩ := b.executes
  obtain ⟨t₁, t₂, q, q', -, compiles, -, all, -, saves⟩ := ex.succeeded
  obtain ⟨t₃, dirs, hwrite⟩ := saves.ok_cases
  have hnode := node?_of_writeFile hwrite
  have off_way : ¬ c.OnWay plan env.cwd (c.fingerprintPath.locate env.cwd) := by
    intro hl
    have hdir := b.isDirAt_of_onWay site hl
    obtain ⟨bytes, x, hfile⟩ := b.after.file ⟨_, _, hnode⟩
    rw [isDirAt_node?, hfile] at hdir
    cases hdir
  have off_part := b.partOf.not_onWay off_way
  have hcompiles := compiles.node?_elsewhere ord off_part fun s hs => by
    rw [b.plans.holds.fingerprintPath]
    exact (Project.object_ne_cache b.plans hs).symm
  have hlinks := all.node?_elsewhere ord off_part fun s hs => by
    rw [b.plans.holds.fingerprintPath]
    exact (Project.module_ne_cache b.plans hs).symm
  have hdirs : t₃.node? (c.fingerprintPath.locate env.cwd) =
      t₂.node? (c.fingerprintPath.locate env.cwd) := by
    rcases dirs (c.fingerprintPath.locate env.cwd) with heq | ⟨hm, -⟩
    · exact heq
    · exact absurd ⟨_, BuildContext.cache_mem_writes, hm⟩ off_part
  rw [hnode, hdirs, hlinks, hcompiles]
  rfl

/-! ### Steps of a part -/

/-- Whether a compile step starts a process does not depend on the part that it is in. -/
theorem compile_turn {turn : CompileTurn} (ht : turn ∈ c.planCompileTurns part env h) :
    ∃ i fresh, CompileInputs.ofStep h₀.files env.cwd c.root turn.step = .ok i ∧
      turn.result = .ok ⟨c.compileNow turn.step i, fresh⟩ ∧
      (fresh = false ↔ c.Recompiles plan env h₀ turn.step) := by
  have ord := b.inOrder site
  obtain ⟨artifacts, procs, -, -, ex⟩ := b.executes
  obtain ⟨hbefore, hchange, hafter⟩ := b.compile_extends site ht
  obtain ⟨d, hd⟩ := ex.steps_succeeded.1 turn ht
  obtain ⟨t₁, t₂, q, q', -, compiles, -, -, -, -⟩ := ex.succeeded
  have hs := compiles.step_mem ht
  obtain ⟨procs₁, hturn⟩ := compiles.turn ht
  rw [hd] at hturn
  obtain ⟨i, hi, hfresh⟩ := hturn.eq_of_ok
  rw [site.apart _ (b.partOf.compiles hs) _ hbefore] at hi
  refine ⟨i, d.fresh, hi, by rw [hd, hfresh], ?_⟩
  have hrecompiles : (∀ j, CompileInputs.ofStep h₀.files env.cwd c.root turn.step = .ok j →
      (c.cacheBefore env h₀).objectFresh h₀.files env.cwd turn.step.output
        (c.compileNow turn.step j) = false) ↔
      (c.cacheBefore env h₀).objectFresh h₀.files env.cwd turn.step.output
        (c.compileNow turn.step i) = false := by
    refine ⟨fun hall => hall i hi, fun hnow j hj => ?_⟩
    rwa [← Except.ok.inj (hi.symm.trans hj)]
  rw [BuildContext.Recompiles, hrecompiles]
  by_cases off_way : c.OnWay plan env.cwd (turn.step.output.locate env.cwd)
  · -- where a directory is needed nothing was written
    refine ⟨fun hran => ?_, fun hnow => absurd off_way hnow.1⟩
    exact absurd off_way (b.offWay_of_wrote site (ord.compiled turn ht d hd hran) hafter)
  · have hplace := (b.object_place site ht off_way).1
    have hsame := b.objectFresh_eq site hs hbefore (hchange.trans hafter) hplace
      (c.compileNow turn.step i)
    rw [hfresh, ← hsame, and_iff_right off_way]
    rfl

/-- A link step reads what is there in the end. -/
theorem linkInputs_eq {turn : LinkTurn} (ht : turn ∈ c.planLinkTurns part env h) :
    LinkInputs.ofStep turn.files env.cwd turn.step = LinkInputs.ofStep F env.cwd turn.step := by
  have ord := b.inOrder site
  obtain ⟨artifacts, procs, -, -, ex⟩ := b.executes
  obtain ⟨t₁, t₂, q, q', -, -, -, all, -, -⟩ := ex.succeeded
  have hobject {o : Path} (ho : o ∈ turn.step.objects) :
      ∃ s ∈ part.compileSteps, s.output = o := b.plans.exists_compileStep (all.step_mem ht) ho
  rw [ex.linkInputs_kept b.plans ord ht]
  refine (LinkInputs.ofStep_of_found ?_ ?_ ?_).symm
  · intro o ho
    obtain ⟨s, hs, rfl⟩ := hobject ho
    exact ex.writes_found ord (BuildContext.object_mem_writes hs)
  · intro o ho
    obtain ⟨s, hs, rfl⟩ := hobject ho
    exact b.found _ (BuildContext.object_mem_writes (b.partOf.compiles hs))
  · intro o ho
    obtain ⟨s, hs, rfl⟩ := hobject ho
    exact b.kept _ (BuildPlan.object_mem_outputs hs)

/-- Whether a target is rebuilt does not depend on the part either. -/
theorem rebuilt_iff {s : LinkStep} (hs : s ∈ part.linkSteps) :
    s.target ∈ BuildContext.rebuiltTargets (outcomesOf (c.planCompileTurns part env h)) ↔
      ∃ s' ∈ plan.compileSteps, s'.target = s.target ∧ c.Recompiles plan env h₀ s' := by
  obtain ⟨artifacts, procs, -, -, ex⟩ := b.executes
  rw [mem_rebuiltTargets]
  constructor
  · rintro ⟨turn, ht, htarget, f, hf⟩
    have hmem : turn.step ∈ part.compileSteps := by
      rw [← ex.compileSteps]
      exact List.mem_map.2 ⟨turn, ht, rfl⟩
    obtain ⟨i, fresh, -, hr, hiff⟩ := b.compile_turn site ht
    rw [hf] at hr
    injection hr with hr
    injection hr with _ hfresh
    exact ⟨_, b.partOf.compiles hmem, htarget, hiff.1 hfresh.symm⟩
  · rintro ⟨s', hs', htarget, hre⟩
    have hmem := b.partOf.full s hs s' hs' htarget
    rw [← ex.compileSteps] at hmem
    obtain ⟨turn, ht, rfl⟩ := List.mem_map.1 hmem
    obtain ⟨i, fresh, -, hr, hiff⟩ := b.compile_turn site ht
    exact ⟨turn, ht, htarget, _, by rw [hr, hiff.2 hre]⟩

/-- Whether a link step starts a process depends only on what its objects are in the end. -/
theorem link_turn {turn : LinkTurn} (ht : turn ∈ c.planLinkTurns part env h) :
    ∃ i fresh now, LinkInputs.ofStep F env.cwd turn.step = .ok i ∧
      turn.result = .ok (turn.step.artifact fresh, now) ∧
      (fresh = false ↔ c.Relinks plan env h₀ F turn.step) := by
  have ord := b.inOrder site
  obtain ⟨artifacts, procs, -, -, ex⟩ := b.executes
  obtain ⟨hbefore, hchange, hafter⟩ := b.link_extends site ht
  obtain ⟨⟨a, now⟩, ha⟩ := ex.steps_succeeded.2.2 turn ht
  obtain ⟨t₁, t₂, q, q', -, -, -, all, -, -⟩ := ex.succeeded
  have hs := all.step_mem ht
  obtain ⟨cache, procs₁, hturn, hcache⟩ := all.turn ht
  have hentry := hcache b.partOf.targets
  rw [link_recordOutcomes] at hentry
  rw [ha] at hturn
  obtain ⟨i, hi, hfresh⟩ := hturn.eq_of_ok
  rw [b.linkInputs_eq site ht] at hi
  refine ⟨i, _, now, hi, by rw [ha, hfresh], ?_⟩
  have hrelinks : (∀ j, LinkInputs.ofStep F env.cwd turn.step = .ok j →
      (c.cacheBefore env h₀).linkFresh h₀.files env.cwd false turn.step j = false) ↔
      (c.cacheBefore env h₀).moduleFresh h₀.files env.cwd turn.step.target turn.step.output
        (i.fingerprint turn.step) = false := by
    refine ⟨fun hall => hall i hi, fun hnow j hj => ?_⟩
    rw [← Except.ok.inj (hi.symm.trans hj)]
    exact hnow
  rw [BuildContext.Relinks, hrelinks, ← b.rebuilt_iff site hs]
  by_cases off_way : c.OnWay plan env.cwd (turn.step.output.locate env.cwd)
  · refine ⟨fun hran => ?_, fun hnow => absurd off_way hnow.1⟩
    rw [hfresh] at ha
    exact absurd off_way (b.offWay_of_wrote site (ord.linked turn ht _ _ ha hran) hafter)
  · have hplace := (b.module_place site ht off_way).1
    have hsame : cache.moduleFresh turn.files env.cwd turn.step.target turn.step.output
        (i.fingerprint turn.step) = (c.cacheBefore env h).moduleFresh turn.files env.cwd
          turn.step.target turn.step.output (i.fingerprint turn.step) := by
      rw [FingerprintCache.moduleFresh, FingerprintCache.moduleFresh, hentry]
      rfl
    rw [FingerprintCache.linkFresh, hsame, b.moduleFresh_eq site hs hbefore (hchange.trans hafter) hplace,
      and_iff_right off_way, Bool.and_eq_false_iff, Bool.not_eq_false', List.contains_iff_mem]

/-- What is left at the place of an object that nothing stands in the way of: what the
    compiler makes if it is run, else what was there. -/
theorem object_left {s : CompileStep} (hs : s ∈ part.compileSteps)
    (off_way : ¬ c.OnWay plan env.cwd (s.output.locate env.cwd)) :
    (c.Recompiles plan env h₀ s → ∃ v i, exitsZero (env.run v (c.compileCall s)).1 = true ∧
      CompileInputs.ofStep v env.cwd c.root s = .ok i ∧
      CompileInputs.ofStep h₀.files env.cwd c.root s = .ok i ∧
      v.node? (s.output.locate env.cwd) = h₀.files.node? (s.output.locate env.cwd) ∧
      F.node? (s.output.locate env.cwd) =
        (env.run v (c.compileCall s)).2.node? (s.output.locate env.cwd)) ∧
    (¬ c.Recompiles plan env h₀ s →
      F.node? (s.output.locate env.cwd) = h₀.files.node? (s.output.locate env.cwd)) := by
  obtain ⟨artifacts, procs, -, -, ex⟩ := b.executes
  obtain ⟨t₁, t₂, q, q', -, compiles, -, -, -, -⟩ := ex.succeeded
  have hpart := b.partOf.compiles hs
  rw [← ex.compileSteps] at hs
  obtain ⟨turn, ht, rfl⟩ := List.mem_map.1 hs
  obtain ⟨procs₁, hturn⟩ := compiles.turn ht
  obtain ⟨i, fresh, hi, hr, hiff⟩ := b.compile_turn site ht
  obtain ⟨hbefore, hafter⟩ := b.object_place site ht off_way
  rw [hr] at hturn
  constructor
  · intro hre
    obtain ⟨v, dirs, hexit, hrun⟩ := hturn.ran (hiff.2 hre)
    have hdirs : Extends (c.writes plan) env.cwd turn.files v :=
      dirs.extends.mono (by simpa using BuildContext.object_mem_writes hpart)
    have hext := (b.compile_extends site ht).1.trans hdirs
    refine ⟨v, i, hexit, (site.apart _ hpart v hext).trans hi, hi, ?_, ?_⟩
    · rw [← hbefore]
      exact (dirs _).resolve_right fun hm =>
        off_way ⟨_, BuildContext.object_mem_writes hpart, hm.1⟩
    · rw [hafter, hrun]
  · intro hre
    have hfresh : fresh = true := by
      rw [← Bool.not_eq_false]
      exact fun hran => hre (hiff.1 hran)
    rw [hafter, hturn.of_ok_fresh hfresh, hbefore]

theorem module_left {s : LinkStep} (hs : s ∈ part.linkSteps)
    (off_way : ¬ c.OnWay plan env.cwd (s.output.locate env.cwd)) :
    (c.Relinks plan env h₀ F s → ∃ v i, exitsZero (env.run v (c.linkCall s)).1 = true ∧
      LinkInputs.ofStep v env.cwd s = .ok i ∧ LinkInputs.ofStep F env.cwd s = .ok i ∧
      v.node? (s.output.locate env.cwd) = h₀.files.node? (s.output.locate env.cwd) ∧
      F.node? (s.output.locate env.cwd) =
        (env.run v (c.linkCall s)).2.node? (s.output.locate env.cwd)) ∧
    (¬ c.Relinks plan env h₀ F s →
      F.node? (s.output.locate env.cwd) = h₀.files.node? (s.output.locate env.cwd)) := by
  have ord := b.inOrder site
  obtain ⟨artifacts, procs, -, -, ex⟩ := b.executes
  obtain ⟨t₁, t₂, q, q', -, -, -, all, given, -⟩ := ex.succeeded
  have hpart := b.partOf.links hs
  rw [← (all.of_artifacts given).1] at hs
  obtain ⟨turn, ht, rfl⟩ := List.mem_map.1 hs
  obtain ⟨cache, procs₁, hturn, -⟩ := all.turn ht
  obtain ⟨i, fresh, now, hi, hr, hiff⟩ := b.link_turn site ht
  obtain ⟨hbefore, hafter⟩ := b.module_place site ht off_way
  rw [hr] at hturn
  constructor
  · intro hre
    obtain ⟨v, dirs, hexit, hrun⟩ := hturn.ran (hiff.2 hre)
    refine ⟨v, i, hexit, ?_, hi, ?_, ?_⟩
    · rw [← hi, ← b.linkInputs_eq site ht]
      refine LinkInputs.ofStep_of_found (fun o ho => ex.objects_at_link b.plans ord ht ho)
        (fun o ho => dirs.extends.keeps.pathExists (ex.objects_at_link b.plans ord ht ho))
        fun o ho => ?_
      have hthere := node?_of_pathExists (ex.objects_at_link b.plans ord ht ho)
      rcases dirs (o.locate env.cwd) with heq | ⟨-, hnone, -⟩
      · exact heq
      · rw [hnone] at hthere
        cases hthere
    · rw [← hbefore]
      exact (dirs _).resolve_right fun hm =>
        off_way ⟨_, BuildContext.module_mem_writes hpart, hm.1⟩
    · rw [hafter, hrun]
  · intro hre
    have hfresh : fresh = true := by
      rw [← Bool.not_eq_false]
      exact fun hran => hre (hiff.1 hran)
    rw [hafter, hturn.of_ok_fresh hfresh, hbefore]

/-- What a build of a part starts and gives. -/
theorem does {compiles : CompileStep → Bool} {links : LinkStep → Bool}
    (hcompiles : ∀ s ∈ part.compileSteps, compiles s = true ↔ c.Recompiles plan env h₀ s)
    (hlinks : ∀ s ∈ part.linkSteps, links s = true ↔ c.Relinks plan env h₀ F s) :
    Does env c part h compiles links := by
  obtain ⟨artifacts, procs, hbuilt, hstarted, ex⟩ := b.executes
  obtain ⟨t₁, t₂, q, q', rfl, all, -, all', given, -⟩ := ex.succeeded
  have hsteps := (all'.of_artifacts given).1
  have houtcome (turn : CompileTurn) (ht : turn ∈ c.planCompileTurns part env h) :
      ∃ f, turn.result = .ok ⟨f, !compiles turn.step⟩ := by
    obtain ⟨i, fresh, -, hr, hiff⟩ := b.compile_turn site ht
    rw [← hcompiles _ (all.step_mem ht)] at hiff
    have hfresh : fresh = !compiles turn.step := by
      rw [Bool.eq_iff_iff, Bool.not_eq_true']
      simpa using not_congr hiff
    exact ⟨_, hfresh ▸ hr⟩
  have houtcome' (turn : LinkTurn) (ht : turn ∈ c.planLinkTurns part env h) :
      ∃ now, turn.result = .ok (turn.step.artifact (!links turn.step), now) := by
    obtain ⟨i, fresh, now, -, hr, hiff⟩ := b.link_turn site ht
    rw [← hlinks _ (all'.step_mem ht)] at hiff
    have hfresh : fresh = !links turn.step := by
      rw [Bool.eq_iff_iff, Bool.not_eq_true']
      simpa using not_congr hiff
    exact ⟨now, hfresh ▸ hr⟩
  refine ⟨?_, ?_⟩
  · rw [hstarted, all.procs_eq_filter houtcome, all'.procs_eq_filter houtcome']
  · rw [hbuilt, ← given, artifactsOf_eq houtcome', hsteps]

/-- What a build of a part enters for objects. -/
theorem compileEntries_eq : compileEntries (c.planCompileTurns part env h) =
    part.compileSteps.filterMap (c.objectEntry env.cwd h₀.files) := by
  obtain ⟨artifacts, procs, -, -, ex⟩ := b.executes
  rw [← ex.compileSteps, List.filterMap_map, compileEntries]
  refine List.filterMap_congr fun turn ht => ?_
  obtain ⟨i, fresh, hi, hr, -⟩ := b.compile_turn site ht
  rw [entryOfCompile?, hr, Function.comp_apply, BuildContext.objectEntry, hi]
  rfl

/-- What a build of a part enters for modules. -/
theorem linkEntries_eq : linkEntries env.cwd (c.planLinkTurns part env h) =
    part.linkSteps.filterMap (moduleEntry env.cwd F) := by
  obtain ⟨artifacts, procs, -, -, ex⟩ := b.executes
  rw [← ex.steps_succeeded.2.1, List.filterMap_map, linkEntries]
  refine List.filterMap_congr fun turn ht => ?_
  obtain ⟨i, fresh, now, hi, hr, -⟩ := b.link_turn site ht
  rw [entryOfLink?, hr, b.linkInputs_eq site ht, hi, Function.comp_apply, moduleEntry, hi]
  rfl

/-! ### Parts that have steps in common -/

variable {part' : BuildPlan} {h' : Host} {F' : FileTree}
  (b' : PartBuild P env c plan h₀ part' h' F')

include b'

/-- Where a build needs a directory there is one in the end, whichever parts were built. -/
theorem onWay_alike {l : Location} (hl : c.OnWay plan env.cwd l) : F'.node? l = F.node? l := by
  rw [(isDirAt_node? F l).1 (b.isDirAt_of_onWay site hl),
    (isDirAt_node? F' l).1 (b'.isDirAt_of_onWay site hl)]

/-- The object of a step does not depend on the parts that are built. -/
theorem object_alike {s : CompileStep} (hs : s ∈ part.compileSteps) (hs' : s ∈ part'.compileSteps) :
    F'.node? (s.output.locate env.cwd) = F.node? (s.output.locate env.cwd) := by
  by_cases off_way : c.OnWay plan env.cwd (s.output.locate env.cwd)
  · exact b.onWay_alike site b' off_way
  obtain ⟨hran, hfresh⟩ := b.object_left site hs off_way
  obtain ⟨hran', hfresh'⟩ := b'.object_left site hs' off_way
  by_cases hre : c.Recompiles plan env h₀ s
  · obtain ⟨v, i, hexit, hi, hi₀, hv, hF⟩ := hran hre
    obtain ⟨v', i', hexit', hi', hi₀', hv', hF'⟩ := hran' hre
    obtain rfl := Except.ok.inj (hi₀.symm.trans hi₀')
    rw [hF, hF']
    exact (site.steady.compile s (b.partOf.compiles hs)).alike v' v i hexit' hexit hi' hi
      (hv'.trans hv.symm)
  · rw [hfresh hre, hfresh' hre]

theorem linkInputs_alike {s : LinkStep} (hs : s ∈ part.linkSteps) (hs' : s ∈ part'.linkSteps) :
    LinkInputs.ofStep F' env.cwd s = LinkInputs.ofStep F env.cwd s := by
  refine LinkInputs.ofStep_of_found ?_ ?_ ?_
  · intro o ho
    obtain ⟨s', hs'', rfl⟩ := b.plans.exists_compileStep hs ho
    exact b.found _ (BuildContext.object_mem_writes (b.partOf.compiles hs''))
  · intro o ho
    obtain ⟨s', hs'', rfl⟩ := b.plans.exists_compileStep hs ho
    exact b'.found _ (BuildContext.object_mem_writes (b.partOf.compiles hs''))
  · intro o ho
    obtain ⟨s₁, hs₁, rfl⟩ := b.plans.exists_compileStep hs ho
    obtain ⟨s₂, hs₂, heq⟩ := b'.plans.exists_compileStep hs' ho
    -- the two parts have the same step for the object
    have hsame := List.inj_on_of_nodup_map site.objects (b'.partOf.compiles hs₂)
      (b.partOf.compiles hs₁) (congrArg Path.components heq)
    exact b.object_alike site b' hs₁ (hsame ▸ hs₂)

theorem relinks_alike {s : LinkStep} (hs : s ∈ part.linkSteps) (hs' : s ∈ part'.linkSteps) :
    c.Relinks plan env h₀ F' s ↔ c.Relinks plan env h₀ F s := by
  rw [BuildContext.Relinks, BuildContext.Relinks, b.linkInputs_alike site b' hs hs']

/-- The module of a target does not depend on the parts that are built. -/
theorem module_alike {s : LinkStep} (hs : s ∈ part.linkSteps) (hs' : s ∈ part'.linkSteps) :
    F'.node? (s.output.locate env.cwd) = F.node? (s.output.locate env.cwd) := by
  by_cases off_way : c.OnWay plan env.cwd (s.output.locate env.cwd)
  · exact b.onWay_alike site b' off_way
  obtain ⟨hran, hfresh⟩ := b.module_left site hs off_way
  obtain ⟨hran', hfresh'⟩ := b'.module_left site hs' off_way
  rw [b.relinks_alike site b' hs hs', b.linkInputs_alike site b' hs hs'] at hran'
  rw [b.relinks_alike site b' hs hs'] at hfresh'
  by_cases hre : c.Relinks plan env h₀ F s
  · obtain ⟨v, i, hexit, hi, hi₀, hv, hF⟩ := hran hre
    obtain ⟨v', i', hexit', hi', hi₀', hv', hF'⟩ := hran' hre
    obtain rfl := Except.ok.inj (hi₀.symm.trans hi₀')
    rw [hF, hF']
    exact (site.steady.link s (b.partOf.links hs)).alike v' v i hexit' hexit hi' hi
      (hv'.trans hv.symm)
  · rw [hfresh hre, hfresh' hre]

end PartBuild

end GrammarBuild
