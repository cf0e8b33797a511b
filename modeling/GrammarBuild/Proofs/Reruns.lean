import GrammarBuild.Proofs.Completed
import GrammarBuild.Proofs.Progress

/-
  GrammarBuild/Proofs/Reruns.lean
  ===============================
  **Building again** — a build that succeeded, built again, starts nothing, gives the same
  modules, all of them fresh, and leaves all files as they are, the cache's with them
  (`build_again_fresh`).

  The second build reads what the first has left.  At each of its steps the fingerprint is
  the recorded one: a compile step reads no output, and the objects that a link step reads
  are not written after their own steps.  So the cache stays the same, and the same cache
  is written as the same bytes.
-/

namespace GrammarBuild

open FileTree

namespace FingerprintCache

/-- A cache that was saved is saved again without a change of the files, unless it is refused
    then. -/
theorem save_again {env : Environment} {h : Host} {p : Path} {cache : FingerprintCache}
    {t : FileTree} (saved : Saves env.cwd p cache t (.ok ()) h.files)
    (taken : env.refuses (p.locate env.cwd) = none) :
    ∃ h', (cache.save p).runOn env h = (.ok (), h') ∧ h'.started = h.started ∧
      ∀ l, h'.files.node? l = h.files.node? l := by
  obtain ⟨t₁, -, hwrite⟩ := saved.ok_cases
  have hfound : h.files.pathExists env.cwd p = true :=
    pathExists_of_readFile (readFile_of_writeFile hwrite)
  have hprepare := prepare_of_pathExists hfound (names_ne_nil_of_writeFile hwrite)
  have htakes : h.files.Takes env.cwd p := by
    refine ⟨by rw [hprepare], p.locate env.cwd, ?_⟩
    rw [hprepare]
    exact place_of_writeFile (writeFile_again hwrite cache.write.toUTF8)
  refine ⟨_, save_of_takes cache htakes taken, rfl, fun l => ?_⟩
  rw [hprepare]
  exact node?_writeAt_again hwrite l

end FingerprintCache

/-! ### Builds without work -/

section

variable {env : Environment} {c : BuildContext} {cache : FingerprintCache} {t u : FileTree}
  {procs : List Invocation}

/-- What a build looks for before it compiles a step's source: the object is there, and
    what the step reads is recorded. -/
def FingerprintCache.HasObject (cache : FingerprintCache) (cwd : Location) (c : BuildContext)
    (t : FileTree) (s : CompileStep) : Prop :=
  t.pathExists cwd s.output = true ∧ ∃ i, CompileInputs.ofStep t cwd c.root s = .ok i ∧
    cache.compile.get? s.output = some (c.compileNow s i)

/-- The same before it links a target. -/
def FingerprintCache.HasModule (cache : FingerprintCache) (cwd : Location) (t : FileTree)
    (s : LinkStep) : Prop :=
  t.pathExists cwd s.output = true ∧ ∃ i, LinkInputs.ofStep t cwd s = .ok i ∧
    cache.link.get? s.target = some (i.fingerprint s)

/-- Where every object is there and recorded, the compile steps do nothing. -/
theorem CompilesAll.of_recorded {ss : List CompileStep} {turns : List CompileTurn}
    (all : CompilesAll env c cache t ss turns u procs) (has : ∀ s ∈ ss, cache.HasObject env.cwd c t s) :
    u = t ∧ procs = [] ∧ ∀ turn ∈ turns, ∃ f, turn.result = .ok ⟨f, true⟩ ∧
      cache.compile.get? turn.step.output = some f := by
  induction all with
  | nil t => exact ⟨rfl, rfl, fun _ h => by cases h⟩
  | cons first later ih =>
    obtain ⟨hfound, i, hi, hrecorded⟩ := has _ List.mem_cons_self
    have hfresh := FingerprintCache.objectFresh_of_recorded hfound hrecorded
    obtain ⟨rfl, rfl, rfl⟩ := first.of_fresh hi hfresh
    obtain ⟨rfl, rfl, hturns⟩ := ih fun s hs => has s (List.mem_cons_of_mem _ hs)
    refine ⟨rfl, rfl, fun turn ht => ?_⟩
    rcases List.mem_cons.1 ht with rfl | ht
    · exact ⟨_, rfl, hrecorded⟩
    · exact hturns turn ht

/-- Where every module is there and recorded, the link steps do nothing. -/
theorem LinksAll.of_recorded {ss : List LinkStep} {links : List LinkTurn}
    (all : LinksAll env c [] cache t ss links u procs) (has : ∀ s ∈ ss, cache.HasModule env.cwd t s) :
    u = t ∧ procs = [] ∧ artifactsOf links = .ok (ss.map (·.artifact true)) ∧
      cacheAfterLinks cache links = cache := by
  have hfresh {s : LinkStep} (hs : s ∈ ss) :
      ∃ i, LinkInputs.ofStep t env.cwd s = .ok i ∧ cache.linkFresh t env.cwd false s i = true ∧
        cache.recordLink s.target (i.fingerprint s) = cache := by
    obtain ⟨hfound, i, hi, hrecorded⟩ := has s hs
    refine ⟨i, hi, FingerprintCache.linkFresh_of_recorded hfound hrecorded, ?_⟩
    rw [FingerprintCache.recordLink, Table.insert_same hrecorded]
  induction all with
  | nil cache t => exact ⟨rfl, rfl, rfl, rfl⟩
  | failed first =>
    obtain ⟨i, hi, hnow, -⟩ := hfresh List.mem_cons_self
    obtain ⟨hr, -, -⟩ := first.of_fresh hi hnow
    cases hr
  | cons first later ih =>
    obtain ⟨i, hi, hnow, hsame⟩ := hfresh List.mem_cons_self
    obtain ⟨hr, rfl, rfl⟩ := first.of_fresh hi hnow
    cases hr
    rw [hsame] at ih
    obtain ⟨rfl, rfl, hartifacts, hcache⟩ := ih (fun s hs => has s (List.mem_cons_of_mem _ hs))
      fun hs => hfresh (List.mem_cons_of_mem _ hs)
    refine ⟨rfl, rfl, ?_, ?_⟩
    · simp [artifactsOf, hartifacts, Except.map]
    · simpa only [cacheAfterLinks, hsame] using hcache

/-- Turns that find everything up to date have no failure and rebuild nothing. -/
theorem outcomes_of_fresh {turns : List CompileTurn}
    (fresh : ∀ turn ∈ turns, ∃ f, turn.result = .ok ⟨f, true⟩ ∧
      cache.compile.get? turn.step.output = some f) :
    BuildContext.firstFailure? (outcomesOf turns) = none ∧
      BuildContext.rebuiltTargets (outcomesOf turns) = [] ∧
      BuildContext.recordOutcomes cache (outcomesOf turns) = cache := by
  refine ⟨?_, ?_, ?_⟩
  · refine List.findSome?_eq_none_iff.2 fun o ho => ?_
    obtain ⟨turn, ht, rfl⟩ := List.mem_map.1 ho
    obtain ⟨f, hf, -⟩ := fresh turn ht
    simp [hf]
  · refine List.filterMap_eq_nil_iff.2 fun o ho => ?_
    obtain ⟨turn, ht, rfl⟩ := List.mem_map.1 ho
    obtain ⟨f, hf, -⟩ := fresh turn ht
    simp [hf]
  · rw [recordOutcomes_eq, Table.insertAll_same]
    intro e he
    obtain ⟨turn, ht, d, hd, rfl⟩ := mem_compileEntries.1 he
    obtain ⟨f, hf, hrecorded⟩ := fresh turn ht
    obtain rfl := Except.ok.inj (hd.symm.trans hf)
    exact hrecorded

end

section

variable {env env' : Environment} {c : BuildContext} {plan : BuildPlan} {P : Project} {t u : FileTree}
  {turns : List CompileTurn} {links : List LinkTurn} {artifacts : List Artifact}
  {procs : List Invocation}

/-- The compile steps of a build are recorded if those with one object are one step. -/
theorem Executes.recordsCompiles_of_apart {r : Except Failure (List Artifact)}
    (ex : Executes env c plan t turns links r u procs) (ord : InOrder env.cwd turns links)
    (apart : c.ReadsApart plan env.cwd t)
    (objects : ∀ s ∈ plan.compileSteps, ∀ s' ∈ plan.compileSteps,
      s.output.components = s'.output.components → s = s') {before : FingerprintCache}
    (loaded : .ofFile t env.cwd c.fingerprintPath = before) :
    RecordsCompiles env c turns before (cacheAfterTurns before turns links) := by
  have hstep {turn : CompileTurn} (ht : turn ∈ turns) : turn.step ∈ plan.compileSteps := by
    rw [← ex.compileSteps]
    exact List.mem_map.2 ⟨turn, ht, rfl⟩
  refine ex.recordsCompiles loaded fun turn ht turn' ht' d d' hd hd' heq => ?_
  obtain ⟨i, hi, hf⟩ := ex.compile_reads ord apart ht hd
  obtain ⟨i', hi', hf'⟩ := ex.compile_reads ord apart ht' hd'
  have hsame := objects _ (hstep ht) _ (hstep ht') heq
  rw [← hsame, hi] at hi'
  obtain rfl := Except.ok.inj hi'
  rw [hf, hf', hsame]

/-- A build that succeeded leaves every object, and the record of what its step reads. -/
theorem Executes.hasObject (ex : Executes env c plan t turns links (.ok artifacts) u procs)
    (ord : InOrder env.cwd turns links) (apart : c.ReadsApart plan env.cwd t)
    {before now : FingerprintCache} (records : RecordsCompiles env c turns before now)
    {s : CompileStep} (hs : s ∈ plan.compileSteps) : now.HasObject env.cwd c u s := by
  refine ⟨ex.writes_found ord (BuildContext.object_mem_writes hs), ?_⟩
  have ext := ex.extending ord
  have hread := apart s hs
  rw [← ex.compileSteps] at hs
  obtain ⟨turn, ht, rfl⟩ := List.mem_map.1 hs
  obtain ⟨d, hd⟩ := ex.steps_succeeded.1 turn ht
  obtain ⟨i, hi, hrecorded⟩ := records.done turn ht d hd
  refine ⟨i, ?_, hrecorded⟩
  rw [hread u ext.whole, ← hread _ (ext.compile turn ht).1]
  exact hi

/-- A build that succeeded leaves every module, and the record of what was linked. -/
theorem Executes.hasModule (plans : P.Plans c plan)
    (ex : Executes env c plan t turns links (.ok artifacts) u procs)
    (ord : InOrder env.cwd turns links) {before now : FingerprintCache}
    (records : RecordsLinks env links before now) {s : LinkStep} (hs : s ∈ plan.linkSteps) :
    now.HasModule env.cwd u s := by
  refine ⟨ex.writes_found ord (BuildContext.module_mem_writes hs), ?_⟩
  obtain ⟨-, hsteps, hlinked⟩ := ex.steps_succeeded
  rw [← hsteps] at hs
  obtain ⟨turn, ht, rfl⟩ := List.mem_map.1 hs
  obtain ⟨a, ha⟩ := hlinked turn ht
  obtain ⟨i, hi, hrecorded⟩ := records.done turn ht a ha
  rw [← ex.linkInputs_kept plans ord ht]
  exact ⟨i, hi, hrecorded⟩

/-- A build that finds everything there and recorded does nothing but save its cache again. -/
theorem BuildContext.runOn_proceed_of_recorded {cache : FingerprintCache} {h : Host} {t : FileTree}
    (saved : FingerprintCache.Saves env.cwd c.fingerprintPath cache t (.ok ()) h.files)
    (taken : env.refuses (c.fingerprintPath.locate env.cwd) = none)
    (objects : ∀ s ∈ plan.compileSteps, cache.HasObject env.cwd c h.files s)
    (modules : ∀ s ∈ plan.linkSteps, cache.HasModule env.cwd h.files s) :
    ∃ h', (c.proceed cache plan).runOn env h = (.ok (plan.linkSteps.map (·.artifact true)), h') ∧
      h'.started = h.started ∧ ∀ l, h'.files.node? l = h.files.node? l := by
  obtain ⟨procs, compiles, hstarted⟩ := c.compilesAll_turns env h cache plan.compileSteps
  obtain ⟨hfiles, rfl, hfresh⟩ := compiles.of_recorded objects
  obtain ⟨hnone, hrebuilt, hsame⟩ := outcomes_of_fresh hfresh
  obtain ⟨t₁, procs', all, hstarted', hend⟩ := c.linksAll_runOn [] env
    (c.afterCompiles cache env h plan.compileSteps) cache plan.linkSteps
  rw [hfiles] at all
  obtain ⟨rfl, rfl, hartifacts, hcache⟩ := all.of_recorded modules
  simp only [hartifacts, hcache] at hend
  obtain ⟨hfiles', hresult⟩ := hend
  rw [proceed, Action.runOn_bind, runOn_compileAll]
  simp only [hnone, hrebuilt, hsame, Action.runOn_bind]
  rcases hl : (c.linkAll [] cache plan.linkSteps).runOn env
    (c.afterCompiles cache env h plan.compileSteps) with ⟨r, h₁⟩
  rw [hl] at hstarted' hfiles' hresult
  obtain rfl := hresult
  rw [← hfiles'] at saved
  obtain ⟨h₂, hsave, hstarted₂, hnodes⟩ := FingerprintCache.save_again saved taken
  refine ⟨h₂, ?_, ?_, ?_⟩
  · simp only [hsave]
    rfl
  · rw [hstarted₂, hstarted', hstarted, List.append_nil, List.append_nil]
  · intro l
    rw [hnodes, hfiles']

/-- A build that succeeded, built again, gives the same artifacts, all of them fresh; it starts
    no process and leaves everything as it is, to the bytes of its cache. -/
theorem build_again_fresh {text : String} {dir : Path} {m : Manifest}
    (parsed : Manifest.parse text dir = .ok m) {filter : List String} {ts : List Target}
    (selected : m.select filter = .ok ts) {w : Workspace} {tc : Toolchain}
    {settings : ToolchainSettings} (context : BuildContext.of w tc settings = .ok c)
    (planned : BuildPlan.ofTargets c ts = .ok plan)
    (objects : ∀ s ∈ plan.compileSteps, ∀ s' ∈ plan.compileSteps,
      s.output.components = s'.output.components → s = s')
    (env : Environment) (h : Host) (apart : c.ReadsApart plan env.cwd h.files)
    (ordered : InOrder env.cwd (c.planCompileTurns plan env h) (c.planLinkTurns plan env h))
    (built : ((c.execute plan).runOn env h).1 = .ok artifacts) (env' : Environment)
    (cwd : env'.cwd = env.cwd) (taken : env'.refuses (c.fingerprintPath.locate env'.cwd) = none)
    (h' : Host) (files : h'.files = ((c.execute plan).runOn env h).2.files) :
    ∃ h'', (c.execute plan).runOn env' h' =
        (.ok (artifacts.map fun a => { a with fresh := true }), h'') ∧
      h''.started = h'.started ∧ ∀ l, h''.files.node? l = h'.files.node? l := by
  have plans : (Project.of w).Plans c plan := ⟨Project.holds_of context, ts, planned⟩
  have unique := BuildPlan.linkTargets_nodup
    (Manifest.checked_of_select (Manifest.checked_of_parse parsed) selected) planned
  obtain ⟨procs, ex, -⟩ := c.executes_runOn plan env h
  rw [built, ← files] at ex
  have compiles := ex.recordsCompiles_of_apart ordered apart objects rfl
  have links := ex.recordsLinks rfl (by
    rw [← ex.steps_succeeded.2.1, List.map_map] at unique
    exact unique)
  obtain ⟨t₁, t₂, q, q', -, -, -, all, given, saves⟩ := ex.succeeded
  rw [(all.of_artifacts given).2.2]
  rw [← cwd] at saves
  rw [c.runOn_execute_of_load plan saves.runOn_load]
  refine BuildContext.runOn_proceed_of_recorded saves taken (fun s hs => ?_) fun s hs => ?_
  · rw [cwd]
    exact ex.hasObject ordered apart compiles hs
  · rw [cwd]
    exact ex.hasModule plans ordered links hs

end

/-! ### Two targets -/

namespace Sample

theorem distinct_manifestPlan : ∀ s ∈ manifestPlan.compileSteps, ∀ s' ∈ manifestPlan.compileSteps,
    s.output.components = s'.output.components → s = s' := by
  intro s hs s' hs' heq
  exact List.inj_on_of_nodup_map objects_manifestPlan hs hs' heq

/-- All steps for the manifest come out well where it is `-bad` that does not. -/
theorem works_manifestPlan :
    (∀ s ∈ manifestPlan.compileSteps,
      Works (writingEnvironment "-bad") (manifestContext.compileCall s) s.output) ∧
    ∀ s ∈ manifestPlan.linkSteps,
      Works (writingEnvironment "-bad") (manifestContext.linkCall s) s.output := by
  have hcompilers : ∀ s ∈ manifestPlan.compileSteps, "-bad" ∉ s.command.args := by decide
  have hlinkers : ∀ s ∈ manifestPlan.linkSteps, "-bad" ∉ s.command.args := by decide
  exact ⟨fun s hs => works_writing (hcompilers s hs) (compileResults_manifestPlan s hs),
    fun s hs => works_writing (hlinkers s hs) (linkResults_manifestPlan s hs)⟩

/-- After a build of the manifest that succeeds. -/
@[irreducible] def fullyBuilt : Host where
  files := ((manifestContext.execute manifestPlan).runOn (writingEnvironment "-bad") unbuilt).2.files

theorem files_fullyBuilt : fullyBuilt.files =
    ((manifestContext.execute manifestPlan).runOn (writingEnvironment "-bad") unbuilt).2.files :=
  Host.files_of_eq <| by
    unfold fullyBuilt
    rfl

theorem manifestPlan_succeeds : ∃ artifacts,
    ((manifestContext.execute manifestPlan).runOn (writingEnvironment "-bad") unbuilt).1 =
      .ok artifacts :=
  (unhindered_manifestPlan "-bad").succeeds (tidy_manifestPlan "-bad") works_manifestPlan.2
    works_manifestPlan.1

end Sample

/-- Both targets of the manifest are built, and then found fresh. -/
theorem build_again_fresh_manifest :
    Manifest.parse Sample.manifestText ⟨"/p"⟩ = .ok Sample.manifest ∧
    Sample.manifest.select [] = .ok Sample.manifest.targets ∧
    BuildContext.of { manifest := Sample.manifest } (.gnu ⟨"/bin/gcc"⟩ .gcc) {} =
      .ok Sample.manifestContext ∧
    BuildPlan.ofTargets Sample.manifestContext Sample.manifest.targets = .ok Sample.manifestPlan ∧
    (∀ s ∈ Sample.manifestPlan.compileSteps, ∀ s' ∈ Sample.manifestPlan.compileSteps,
      s.output.components = s'.output.components → s = s') ∧
    Sample.manifestContext.ReadsApart Sample.manifestPlan [] Sample.sources ∧
    InOrder [] (Sample.manifestContext.planCompileTurns Sample.manifestPlan
        (Sample.writingEnvironment "-bad") Sample.unbuilt)
      (Sample.manifestContext.planLinkTurns Sample.manifestPlan
        (Sample.writingEnvironment "-bad") Sample.unbuilt) ∧
    ∃ artifacts, ((Sample.manifestContext.execute Sample.manifestPlan).runOn
        (Sample.writingEnvironment "-bad") Sample.unbuilt).1 = .ok artifacts ∧
      ∃ h'', (Sample.manifestContext.execute Sample.manifestPlan).runOn
          (Sample.writingEnvironment "-bad") Sample.fullyBuilt =
          (.ok (artifacts.map fun a => { a with fresh := true }), h'') ∧
        h''.started = Sample.fullyBuilt.started ∧
        ∀ l, h''.files.node? l = Sample.fullyBuilt.files.node? l := by
  have selected : Sample.manifest.select [] = .ok Sample.manifest.targets := rfl
  obtain ⟨artifacts, built⟩ := Sample.manifestPlan_succeeds
  obtain ⟨procs, ex, -⟩ := Sample.manifestContext.executes_runOn Sample.manifestPlan
    (Sample.writingEnvironment "-bad") Sample.unbuilt
  have ordered := ex.inOrder (Sample.tidy_manifestPlan "-bad")
  exact ⟨Sample.parse_manifestText, selected, Sample.contextOf_manifest, Sample.planned_manifest,
    Sample.distinct_manifestPlan, Sample.readsApart_manifestPlan, ordered, artifacts, built,
    build_again_fresh Sample.parse_manifestText selected Sample.contextOf_manifest
      Sample.planned_manifest Sample.distinct_manifestPlan _ _ Sample.readsApart_manifestPlan ordered
      built _ rfl rfl _ Sample.files_fullyBuilt⟩

/-! ### A directory that the first build makes -/

namespace Sample

theorem distinct_detourPlan : ∀ s ∈ detourPlan.compileSteps, ∀ s' ∈ detourPlan.compileSteps,
    s.output.components = s'.output.components → s = s' := by
  intro s hs s' hs' heq
  exact List.inj_on_of_nodup_map objects_detourPlan hs hs' heq

theorem good_detourPlan : (∀ s ∈ detourPlan.compileSteps, "-bad" ∉ s.command.args) ∧
    ∀ s ∈ detourPlan.linkSteps, "-bad" ∉ s.command.args := by
  decide

theorem works_detourPlan :
    (∀ s ∈ detourPlan.compileSteps,
      Works (writingEnvironment "-bad") (manifestContext.compileCall s) s.output) ∧
    ∀ s ∈ detourPlan.linkSteps,
      Works (writingEnvironment "-bad") (manifestContext.linkCall s) s.output :=
  ⟨fun s hs => works_writing (good_detourPlan.1 s hs) (results_detourPlan.1 s hs),
    fun s hs => works_writing (good_detourPlan.2 s hs) (results_detourPlan.2 s hs)⟩

theorem detourPlan_succeeds : ∃ artifacts,
    ((manifestContext.execute detourPlan).runOn (writingEnvironment "-bad") unbuilt).1 =
      .ok artifacts :=
  (unhindered_detourPlan "-bad").succeeds (tidy_detourPlan "-bad") works_detourPlan.2
    works_detourPlan.1

end Sample

/-- That objects are distinct and no output is an input does not suffice: a build that
    succeeds, of which each process writes its output and nothing else, compiles a source again
    when it is repeated, if the source's headers are found by way of a directory that the
    build has made. -/
theorem build_again_compiles :
    Manifest.parse Sample.detourText ⟨"/p"⟩ = .ok Sample.detourManifest ∧
    Sample.detourManifest.select [] = .ok Sample.detourManifest.targets ∧
    BuildContext.of { manifest := Sample.detourManifest } (.gnu ⟨"/bin/gcc"⟩ .gcc) {} =
      .ok Sample.manifestContext ∧
    BuildPlan.ofTargets Sample.manifestContext Sample.detourManifest.targets = .ok Sample.detourPlan ∧
    (∀ s ∈ Sample.detourPlan.compileSteps, ∀ s' ∈ Sample.detourPlan.compileSteps,
      s.output.components = s'.output.components → s = s') ∧
    (∀ s ∈ Sample.detourPlan.compileSteps, s.Unread [] Sample.manifestContext.root
      (Sample.manifestContext.writes Sample.detourPlan)) ∧
    InOrder [] (Sample.manifestContext.planCompileTurns Sample.detourPlan
        (Sample.writingEnvironment "-bad") Sample.unbuilt)
      (Sample.manifestContext.planLinkTurns Sample.detourPlan
        (Sample.writingEnvironment "-bad") Sample.unbuilt) ∧
    (∃ artifacts, ((Sample.manifestContext.execute Sample.detourPlan).runOn
        (Sample.writingEnvironment "-bad") Sample.unbuilt).1 = .ok artifacts) ∧
    (Sample.detourNext "-bad").files = ((Sample.manifestContext.execute Sample.detourPlan).runOn
      (Sample.writingEnvironment "-bad") Sample.unbuilt).2.files ∧
    (Sample.detourNext "-bad").started = [] ∧
    ((Sample.manifestContext.execute Sample.detourPlan).runOn (Sample.writingEnvironment "-bad")
      (Sample.detourNext "-bad")).2.started ≠ [] := by
  obtain ⟨procs, ex, -⟩ := Sample.manifestContext.executes_runOn Sample.detourPlan
    (Sample.writingEnvironment "-bad") Sample.unbuilt
  obtain ⟨turn, -, -, turn', -, -, -, hstarted⟩ :=
    Sample.detour_compiled_again "-bad" (Sample.good_detourPlan.1 _ List.mem_cons_self)
      Sample.good_detourPlan.2 (h := Sample.unbuilt) rfl (Sample.files_detourNext "-bad")
  exact ⟨Sample.parse_detourText, rfl, Sample.contextOf_detour, Sample.planned_detour,
    Sample.distinct_detourPlan, Sample.unread_detourPlan, ex.inOrder (Sample.tidy_detourPlan "-bad"),
    Sample.detourPlan_succeeds, Sample.files_detourNext "-bad", Sample.started_detourNext "-bad",
    List.ne_nil_of_mem hstarted⟩

end GrammarBuild
