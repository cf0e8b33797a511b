import GrammarBuild.Proofs.Entries
import GrammarBuild.Proofs.UnhinderedBuilds
import GrammarBuild.Proofs.Views

/-
  GrammarBuild/Proofs/Progress.lean
  =================================
  **What a failed build keeps** — a build of which some step fails saves the fingerprints of
  exactly the steps that succeeded before it ended: all compile steps are attempted, the
  link steps up to the first that fails (`failed_build_keeps_progress`).  The next build
  compiles none of the sources again that were compiled, as long as no step reads what
  the build writes, nor by way of a directory that it makes (`made_inputs_run_again`).
-/

namespace GrammarBuild

open FileTree

section

variable {env : Environment} {c : BuildContext} {plan : BuildPlan} {cache : FingerprintCache}
  {t u : FileTree} {procs : List Invocation}

/-! ### What a failed build leaves alone -/

/-- Where its process writes nothing, a compile step changes no file. -/
theorem Compiles.file_iff {s : CompileStep} {r : Except Failure Compiled}
    (h : Compiles env c cache s t r u procs) {l : Location}
    (off : ∀ v, (env.run v (c.compileCall s)).2.node? l = v.node? l) (bytes : ByteArray) (x : Bool) :
    u.node? l = some (.file bytes x) ↔ t.node? l = some (.file bytes x) := by
  have hprepare {e : Except Failure Unit} {v : FileTree} (dir : t.prepare env.cwd s.output = (e, v)) :
      v.node? l = some (.file bytes x) ↔ t.node? l = some (.file bytes x) := by
    have adds := t.prepare_adds env.cwd s.output
    rw [dir] at adds
    exact adds.file_iff
  have hrun {v w : FileTree} {q : Except HostFault Completed}
      (dir : t.prepare env.cwd s.output = (.ok (), v)) (run : env.run v (c.compileCall s) = (q, w)) :
      w.node? l = some (.file bytes x) ↔ t.node? l = some (.file bytes x) := by
    have hsame := off v
    rw [run] at hsame
    rw [hsame]
    exact hprepare dir
  cases h with
  | unreadable => exact Iff.rfl
  | fresh => exact Iff.rfl
  | blocked _ _ dir => exact hprepare dir
  | succeeded _ _ dir run => exact hrun dir run
  | failed _ _ dir run => exact hrun dir run

theorem FingerprintCache.Saves.file_iff {cwd : Location} {p : Path} {r : Except Failure Unit}
    (s : FingerprintCache.Saves cwd p cache t r u) {l : Location} (hl : l ≠ p.locate cwd)
    (bytes : ByteArray) (x : Bool) :
    u.node? l = some (.file bytes x) ↔ t.node? l = some (.file bytes x) := by
  rcases s.dirs_or_file with dirs | ⟨t₁, content, dirs, file⟩
  · exact dirs.file_iff
  · obtain ⟨rfl, -, -⟩ := writeFile_ok file
    rw [node?_writeAt, if_neg fun h => hl h.2]
    exact dirs.file_iff

/-- Link steps end with the first that fails. -/
theorem LinksAll.failed_split {rebuilt : List String} {ss : List LinkStep} {links : List LinkTurn}
    (all : LinksAll env c rebuilt cache t ss links u procs) {turn : LinkTurn} (ht : turn ∈ links)
    {e : Failure} (failed : turn.result = .error e) :
    ∃ pre post, links = pre ++ [turn] ∧ ss = pre.map Turn.step ++ turn.step :: post ∧
      (∀ turn' ∈ pre, ∃ a, turn'.result = .ok a) ∧
      procs.Sublist ((pre ++ [turn]).map fun turn => c.linkCall turn.step) := by
  induction all with
  | nil cache t => cases ht
  | @failed cache s ss t t₁ e' procs first =>
    obtain rfl := List.mem_singleton.1 ht
    exact ⟨[], ss, rfl, rfl, fun _ h => (List.not_mem_nil h).elim, first.procs_sublist⟩
  | cons first later ih =>
    rcases List.mem_cons.1 ht with rfl | ht
    · cases failed
    · obtain ⟨pre, post, rfl, rfl, hpre, hprocs⟩ := ih ht
      refine ⟨_ :: pre, post, rfl, rfl, ?_, first.procs_sublist.append hprocs⟩
      intro turn' hturn'
      rcases List.mem_cons.1 hturn' with rfl | hturn'
      · exact ⟨_, rfl⟩
      · exact hpre turn' hturn'

/-- If a compile step fails, a build goes no further. -/
theorem Executes.stopped {turns : List CompileTurn} {links : List LinkTurn}
    {r : Except Failure (List Artifact)} (ex : Executes env c plan t turns links r u procs)
    (failed : ∃ turn ∈ turns, ∃ e, turn.result = .error e) :
    links = [] ∧ procs.Sublist (plan.compileSteps.map c.compileCall) ∧
      ∀ l, l ≠ c.fingerprintPath.locate env.cwd →
        (∀ s ∈ plan.compileSteps, ∀ v, (env.run v (c.compileCall s)).2.node? l = v.node? l) →
        ∀ bytes x, u.node? l = some (.file bytes x) ↔ t.node? l = some (.file bytes x) := by
  obtain ⟨compiles, finishes, saves⟩ := ex
  cases finishes with
  | linked none all =>
    obtain ⟨turn, ht, e, he⟩ := failed
    obtain ⟨d, hd⟩ := ok_of_firstFailure? none ht
    rw [he] at hd
    cases hd
  | stopped first =>
    refine ⟨rfl, ?_, ?_⟩
    · rw [List.append_nil]
      exact compiles.procs_sublist
    · intro l hl off bytes x
      refine (saves.file_iff hl bytes x).trans ?_
      refine compiles.chained.whole (R := fun t u => u.node? l = some (.file bytes x) ↔
        t.node? l = some (.file bytes x)) (fun _ => Iff.rfl) (fun a b => b.trans a) ?_
      intro turn ht
      obtain ⟨procs₁, hturn⟩ := compiles.turn ht
      exact hturn.file_iff (off _ (compiles.step_mem ht)) bytes x

/-- If a link step fails, all compile steps and all link steps before it have succeeded,
    and those after it are not come to. -/
theorem Executes.failed_link {turns : List CompileTurn} {links : List LinkTurn}
    {r : Except Failure (List Artifact)} (ex : Executes env c plan t turns links r u procs)
    {turn : LinkTurn} (ht : turn ∈ links) {e : Failure} (failed : turn.result = .error e) :
    ∃ pre post, links = pre ++ [turn] ∧ plan.linkSteps = pre.map Turn.step ++ turn.step :: post ∧
      (∀ turn ∈ turns, ∃ d, turn.result = .ok d) ∧ (∀ turn ∈ pre, ∃ a, turn.result = .ok a) ∧
      ∃ q q', procs = q ++ q' ∧ q.Sublist (plan.compileSteps.map c.compileCall) ∧
        q'.Sublist ((pre ++ [turn]).map fun turn => c.linkCall turn.step) := by
  obtain ⟨compiles, finishes, saves⟩ := ex
  cases finishes with
  | stopped first => cases ht
  | linked none all =>
    obtain ⟨pre, post, hlinks, hsteps, hpre, hprocs⟩ := all.failed_split ht failed
    exact ⟨pre, post, hlinks, hsteps, fun turn ht => ok_of_firstFailure? none ht, hpre, _, _, rfl,
      compiles.procs_sublist, hprocs⟩

/-! ### What the next build finds -/

/-- A compile step that came out well and is recorded is up to date from then on. -/
theorem Executes.objectFresh_later {turns : List CompileTurn} {links : List LinkTurn}
    {r : Except Failure (List Artifact)} (ex : Executes env c plan t turns links r u procs)
    (ord : InOrder env.cwd turns links) (apart : c.ReadsApart plan env.cwd t)
    {before now : FingerprintCache} (records : RecordsCompiles env c turns before now)
    {turn : CompileTurn} (ht : turn ∈ turns) {d : Compiled} (hd : turn.result = .ok d)
    {v : FileTree} (later : Extends (c.writes plan) env.cwd u v) :
    ∃ i, CompileInputs.ofStep v env.cwd c.root turn.step = .ok i ∧
      now.objectFresh v env.cwd turn.step.output (c.compileNow turn.step i) = true := by
  have ext := ex.extending ord
  obtain ⟨compiles, -, -⟩ := ex
  obtain ⟨procs₁, hturn⟩ := compiles.turn ht
  obtain ⟨hbefore, -, hafter⟩ := ext.compile turn ht
  obtain ⟨i, hi, hrecorded⟩ := records.done turn ht d hd
  have hs := compiles.step_mem ht
  refine ⟨i, ?_, ?_⟩
  · rw [apart _ hs v (ext.whole.trans later), ← apart _ hs _ hbefore]
    exact hi
  · rw [hd] at hturn
    have hfound := (hturn.found fun hran => ord.compiled turn ht d hd hran).1
    exact FingerprintCache.objectFresh_of_recorded ((hafter.trans later).keeps.pathExists hfound)
      hrecorded

/-- Only compile steps that are not up to date start a process. -/
theorem CompilesAll.procs_sublist_due {ss : List CompileStep} {turns : List CompileTurn}
    (all : CompilesAll env c cache t ss turns u procs) (due : CompileStep → Bool)
    (fresh : ∀ turn ∈ turns, due turn.step = false → ∃ f, turn.result = .ok ⟨f, true⟩) :
    procs.Sublist ((ss.filter due).map c.compileCall) := by
  induction all with
  | nil t => exact List.Sublist.refl _
  | @cons s ss t t₁ t₂ r turns procs procs' first later ih =>
    have hrest := ih fun turn ht => fresh turn (List.mem_cons_of_mem _ ht)
    cases hdue : due s with
    | true =>
      rw [List.filter_cons_of_pos hdue]
      exact first.procs_sublist.append hrest
    | false =>
      obtain ⟨f, hf⟩ := fresh _ List.mem_cons_self hdue
      obtain rfl : r = .ok ⟨f, true⟩ := hf
      rw [List.filter_cons_of_neg (by simp [hdue])]
      cases first with
      | fresh => exact hrest

theorem Executes.procs_sublist_due {turns : List CompileTurn} {links : List LinkTurn}
    {r : Except Failure (List Artifact)} (ex : Executes env c plan t turns links r u procs)
    (due : CompileStep → Bool)
    (fresh : ∀ turn ∈ turns, due turn.step = false → ∃ f, turn.result = .ok ⟨f, true⟩) :
    ∃ q q', procs = q ++ q' ∧ q.Sublist ((plan.compileSteps.filter due).map c.compileCall) ∧
      q'.Sublist (plan.linkSteps.map c.linkCall) := by
  obtain ⟨compiles, finishes, saves⟩ := ex
  refine ⟨_, _, rfl, compiles.procs_sublist_due due fresh, ?_⟩
  cases finishes with
  | stopped first => exact List.nil_sublist _
  | linked first all => exact all.procs_sublist

/-- A compile step whose object is up to date at its turn is found fresh. -/
theorem Executes.compile_of_fresh {turns : List CompileTurn} {links : List LinkTurn}
    {r : Except Failure (List Artifact)} (ex : Executes env c plan t turns links r u procs)
    {turn : CompileTurn} (ht : turn ∈ turns) {i : CompileInputs}
    (inputs : CompileInputs.ofStep turn.files env.cwd c.root turn.step = .ok i)
    (fresh : (FingerprintCache.ofFile t env.cwd c.fingerprintPath).objectFresh turn.files env.cwd
      turn.step.output (c.compileNow turn.step i) = true) :
    turn.result = .ok ⟨c.compileNow turn.step i, true⟩ := by
  obtain ⟨compiles, -, -⟩ := ex
  obtain ⟨procs₁, hturn⟩ := compiles.turn ht
  exact (hturn.of_fresh inputs fresh).1

end

/-! ### Failed builds -/

section

variable (env : Environment) (c : BuildContext) (plan : BuildPlan) (h : Host)

/-- What is kept in the cache's file after a build. -/
def BuildContext.cacheAfter : FingerprintCache :=
  .keptAt ((c.execute plan).runOn env h).2.files (c.fingerprintPath.locate env.cwd)

/-- A build that ends with its compile steps. -/
structure StopsBeforeLinks : Prop where
  /-- No link process is started. -/
  started : ∃ procs, procs.Sublist (plan.compileSteps.map c.compileCall) ∧
    ((c.execute plan).runOn env h).2.started = h.started ++ procs
  /-- No module is changed, nor any other file that no compiler writes and that is not
      the cache's. -/
  files : ∀ l, l ≠ c.fingerprintPath.locate env.cwd →
    (∀ s ∈ plan.compileSteps, ∀ v, (env.run v (c.compileCall s)).2.node? l = v.node? l) →
    ∀ bytes x, ((c.execute plan).runOn env h).2.files.node? l = some (.file bytes x) ↔
      h.files.node? l = some (.file bytes x)
  compiles : RecordsCompiles env c (c.planCompileTurns plan env h) (c.cacheBefore env h)
    (c.cacheAfter env plan h)
  links : (c.cacheAfter env plan h).link = (c.cacheBefore env h).link

/-- A build that ends with a link step that fails: `pre` are the turns of those before it,
    `post` are the link steps that it does not come to. -/
structure StopsAtLink (pre : List LinkTurn) (turn : LinkTurn) (post : List LinkStep) : Prop where
  turns : c.planLinkTurns plan env h = pre ++ [turn]
  steps : plan.linkSteps = pre.map Turn.step ++ turn.step :: post
  compiled : ∀ turn ∈ c.planCompileTurns plan env h, ∃ d, turn.result = .ok d
  linked : ∀ turn ∈ pre, ∃ a, turn.result = .ok a
  started : ∃ procs procs', procs.Sublist (plan.compileSteps.map c.compileCall) ∧
    procs'.Sublist ((pre ++ [turn]).map fun turn => c.linkCall turn.step) ∧
    ((c.execute plan).runOn env h).2.started = h.started ++ (procs ++ procs')
  compiles : RecordsCompiles env c (c.planCompileTurns plan env h) (c.cacheBefore env h)
    (c.cacheAfter env plan h)
  links : RecordsLinks env pre (c.cacheBefore env h) (c.cacheAfter env plan h)
  /-- In particular the step that failed and those after it have the entries they had. -/
  later : ∀ s ∈ turn.step :: post,
    (c.cacheAfter env plan h).link.get? s.target = (c.cacheBefore env h).link.get? s.target

/-- The next build of a plan, in which the files are as the last one left them. -/
structure BuiltNext (env' : Environment) (h' : Host) : Prop where
  cwd : env'.cwd = env.cwd
  files : h'.files = ((c.execute plan).runOn env h).2.files
  /-- All processes of the first build and all compilers of the second did what they
      have to do: write their output if they succeed, and nothing if they fail. -/
  ordered : InOrder env.cwd (c.planCompileTurns plan env h) (c.planLinkTurns plan env h)
  ordered' : InOrder env'.cwd (c.planCompileTurns plan env' h') []

/-- The compile steps of a build that did not come out well. -/
def BuildContext.unfinished : List CompileStep :=
  ((c.planCompileTurns plan env h).filter fun turn => !turn.result.isOk).map Turn.step

/-- The next build compiles only what was not compiled. -/
structure CompilesRest (env' : Environment) (h' : Host) : Prop where
  fresh : ∀ turn ∈ c.planCompileTurns plan env h, turn.result.isOk = true →
    ∀ turn' ∈ c.planCompileTurns plan env' h', turn'.step = turn.step →
      ∃ f, turn'.result = .ok ⟨f, true⟩
  started : ∃ procs procs', procs.Sublist ((c.unfinished env plan h).map c.compileCall) ∧
    procs'.Sublist (plan.linkSteps.map c.linkCall) ∧
    ((c.execute plan).runOn env' h').2.started = h'.started ++ (procs ++ procs')

variable {env c plan h}

/-- What a build saves has the entries of its turns. -/
theorem recordsCompiles_of_saved
    (objects : (plan.compileSteps.map fun s => s.output.components).Nodup)
    (saved : CacheSaved ((c.execute plan).runOn env h).1) :
    RecordsCompiles env c (c.planCompileTurns plan env h) (c.cacheBefore env h)
      (c.cacheAfter env plan h) := by
  obtain ⟨procs, ex, -⟩ := c.executes_runOn plan env h
  rw [BuildContext.cacheAfter, c.keptAt_of_saved plan env h saved]
  refine ex.recordsCompiles rfl fun turn ht turn' ht' d d' hd hd' heq => ?_
  rw [← ex.compileSteps, List.map_map] at objects
  obtain rfl := List.inj_on_of_nodup_map objects ht ht' heq
  rw [Except.ok.inj (hd.symm.trans hd')]

theorem recordsLinks_of_saved (targets : (plan.linkSteps.map LinkStep.target).Nodup)
    (saved : CacheSaved ((c.execute plan).runOn env h).1) :
    RecordsLinks env (c.planLinkTurns plan env h) (c.cacheBefore env h)
      (c.cacheAfter env plan h) := by
  obtain ⟨procs, ex, -⟩ := c.executes_runOn plan env h
  rw [BuildContext.cacheAfter, c.keptAt_of_saved plan env h saved]
  apply ex.recordsLinks rfl
  have hsub := ex.linkSteps.sublist.map LinkStep.target
  rw [List.map_map] at hsub
  exact targets.sublist hsub

theorem stopsBeforeLinks (objects : (plan.compileSteps.map fun s => s.output.components).Nodup)
    (saved : CacheSaved ((c.execute plan).runOn env h).1)
    (failed : ∃ turn ∈ c.planCompileTurns plan env h, ∃ e, turn.result = .error e) :
    StopsBeforeLinks env c plan h := by
  obtain ⟨procs, ex, hstarted⟩ := c.executes_runOn plan env h
  obtain ⟨hlinks, hprocs, hfiles⟩ := ex.stopped failed
  have hsaved : (c.cacheAfter env plan h).link = (c.cacheBefore env h).link := by
    rw [BuildContext.cacheAfter, c.keptAt_of_saved plan env h saved, c.cacheRecorded_eq, hlinks]
    rfl
  exact ⟨⟨procs, hprocs, hstarted⟩, hfiles, recordsCompiles_of_saved objects saved, hsaved⟩

theorem stopsAtLink (objects : (plan.compileSteps.map fun s => s.output.components).Nodup)
    (targets : (plan.linkSteps.map LinkStep.target).Nodup)
    (saved : CacheSaved ((c.execute plan).runOn env h).1) {turn : LinkTurn}
    (ht : turn ∈ c.planLinkTurns plan env h) {e : Failure} (failed : turn.result = .error e) :
    ∃ pre post, StopsAtLink env c plan h pre turn post := by
  have hlinks := recordsLinks_of_saved targets saved
  obtain ⟨procs, ex, hstarted⟩ := c.executes_runOn plan env h
  obtain ⟨pre, post, hturns, hsteps, hcompiled, hlinked, q, q', rfl, hq, hq'⟩ :=
    ex.failed_link ht failed
  have hpre : RecordsLinks env pre (c.cacheBefore env h) (c.cacheAfter env plan h) := by
    rw [hturns] at hlinks
    constructor
    · exact fun turn' ht' => hlinks.done turn' (List.mem_append_left _ ht')
    · intro n hn
      apply hlinks.others
      intro turn' ht' a ha
      rcases List.mem_append.1 ht' with ht' | ht'
      · exact hn turn' ht' a ha
      · rw [List.mem_singleton.1 ht', failed] at ha
        cases ha
  refine ⟨pre, post, hturns, hsteps, hcompiled, hlinked, ⟨q, q', hq, hq', hstarted⟩,
    recordsCompiles_of_saved objects saved, hpre, fun s hs => ?_⟩
  -- the targets of the steps before the one that failed are other ones
  rw [hsteps, List.map_append] at targets
  obtain ⟨-, -, hdisjoint⟩ := List.nodup_append.1 targets
  refine hpre.others _ fun turn' ht' a ha heq => ?_
  exact hdisjoint _ (List.mem_map.2 ⟨_, List.mem_map.2 ⟨turn', ht', rfl⟩, rfl⟩) _
    (List.mem_map.2 ⟨s, hs, rfl⟩) heq.symm

theorem compilesRest (objects : (plan.compileSteps.map fun s => s.output.components).Nodup)
    (saved : CacheSaved ((c.execute plan).runOn env h).1)
    (apart : c.ReadsApart plan env.cwd h.files) {env' : Environment} {h' : Host}
    (next : BuiltNext env c plan h env' h') : CompilesRest env c plan h env' h' := by
  have records := recordsCompiles_of_saved objects saved
  obtain ⟨procs, ex, -⟩ := c.executes_runOn plan env h
  obtain ⟨procs', ex', hstarted⟩ := c.executes_runOn plan env' h'
  have hloaded : FingerprintCache.ofFile h'.files env.cwd c.fingerprintPath =
      c.cacheAfter env plan h := by
    rw [BuildContext.cacheAfter, c.keptAt_of_saved plan env h saved]
    exact c.cacheBefore_of_load (c.runOn_load_of_saved plan env h saved next.files)
  have hfresh (turn : CompileTurn) (ht : turn ∈ c.planCompileTurns plan env h)
      (hok : turn.result.isOk = true) (turn' : CompileTurn)
      (ht' : turn' ∈ c.planCompileTurns plan env' h') (hstep : turn'.step = turn.step) :
      ∃ f, turn'.result = .ok ⟨f, true⟩ := by
    obtain ⟨d, hd⟩ := isOk_iff.1 hok
    have hlater := ex'.before_compile next.ordered' ht'
    rw [next.cwd, next.files] at hlater
    obtain ⟨i, hi, hnow⟩ := ex.objectFresh_later next.ordered apart records ht hd hlater
    rw [← hstep] at hi hnow
    refine ⟨_, ex'.compile_of_fresh ht' (i := i) ?_ ?_⟩
    · rw [next.cwd]
      exact hi
    · rw [next.cwd, hloaded]
      exact hnow
  refine ⟨hfresh, ?_⟩
  have hsteps := ex.compileSteps
  have hunique : ((c.planCompileTurns plan env h).map Turn.step).Nodup := by
    rw [hsteps]
    exact List.Nodup.of_map _ objects
  have hmem (turn : CompileTurn) (ht : turn ∈ c.planCompileTurns plan env h) :
      turn.step ∈ c.unfinished env plan h ↔ turn.result.isOk = false := by
    simp only [BuildContext.unfinished, List.mem_map, List.mem_filter, Bool.not_eq_true']
    constructor
    · rintro ⟨turn', ⟨ht', hfail⟩, heq⟩
      rwa [List.inj_on_of_nodup_map hunique ht' ht heq] at hfail
    · exact fun hfail => ⟨turn, ⟨ht, hfail⟩, rfl⟩
  have hdue : plan.compileSteps.filter (fun s => decide (s ∈ c.unfinished env plan h)) =
      c.unfinished env plan h := by
    conv_rhs => rw [BuildContext.unfinished]
    rw [← hsteps, List.filter_map]
    congr 1
    refine List.filter_congr fun turn ht => ?_
    have hiff := hmem turn ht
    cases hr : turn.result.isOk with
    | true => simpa [hr] using hiff
    | false => simpa [hr] using hiff
  obtain ⟨q, q', rfl, hq, hq'⟩ := ex'.procs_sublist_due
    (fun s => decide (s ∈ c.unfinished env plan h)) (fun turn' ht' hnot => by
      have hin : turn'.step ∈ (c.planCompileTurns plan env h).map Turn.step := by
        rw [hsteps, ← ex'.compileSteps]
        exact List.mem_map.2 ⟨turn', ht', rfl⟩
      obtain ⟨turn, ht, hstep⟩ := List.mem_map.1 hin
      rw [← hstep, decide_eq_false_iff_not, hmem turn ht, Bool.not_eq_false] at hnot
      exact hfresh turn ht hnot turn' ht' hstep.symm)
  rw [hdue] at hq
  exact ⟨q, q', hq, hq', hstarted⟩

/-- A build of which some step fails keeps exactly the progress that it made.  If a compile
    step fails, no link process is started and no module is changed, and the saved cache is
    the loaded one with the fingerprints of the other compile steps; if a link step fails,
    those before it are recorded, too, and none after it is started.  In both cases the
    next build starts no compiler for a step that succeeded, if no step reads what the
    build writes. -/
theorem failed_build_keeps_progress (env : Environment) (c : BuildContext) (plan : BuildPlan)
    (h : Host) (objects : (plan.compileSteps.map fun s => s.output.components).Nodup)
    (targets : (plan.linkSteps.map LinkStep.target).Nodup)
    (saved : CacheSaved ((c.execute plan).runOn env h).1) :
    ((∃ turn ∈ c.planCompileTurns plan env h, ∃ e, turn.result = .error e) →
      StopsBeforeLinks env c plan h) ∧
    (∀ turn ∈ c.planLinkTurns plan env h, ∀ e, turn.result = .error e →
      ∃ pre post, StopsAtLink env c plan h pre turn post) ∧
    (c.ReadsApart plan env.cwd h.files → ∀ env' h', BuiltNext env c plan h env' h' →
      CompilesRest env c plan h env' h') :=
  ⟨stopsBeforeLinks objects saved, fun _ ht _ failed => stopsAtLink objects targets saved ht failed,
    fun apart _ _ next => compilesRest objects saved apart next⟩

end

/-! ### A source that does not compile -/

/-- What was not compiled is told by what works. -/
theorem BuildContext.unfinished_eq (c : BuildContext) {plan : BuildPlan} {env : Environment} {h : Host}
    (works : CompileStep → Bool)
    (results : ∀ turn ∈ c.planCompileTurns plan env h, turn.result.isOk = works turn.step) :
    c.unfinished env plan h = plan.compileSteps.filter fun s => !works s := by
  obtain ⟨procs, ex, -⟩ := c.executes_runOn plan env h
  rw [unfinished, ← ex.compileSteps, List.filter_map]
  exact congrArg (List.map Turn.step) (List.filter_congr fun turn ht => by
    rw [results turn ht]
    rfl)

theorem error_of_isOk {ε α : Type} {r : Except ε α} (h : r.isOk = false) : ∃ e, r = .error e := by
  cases r with
  | error e => exact ⟨e, rfl⟩
  | ok a => cases h

theorem exists_error_of_unfinished {c : BuildContext} {plan : BuildPlan} {env : Environment} {h : Host}
    (some : c.unfinished env plan h ≠ []) :
    ∃ turn ∈ c.planCompileTurns plan env h, ∃ e, turn.result = .error e := by
  obtain ⟨s, hs⟩ := List.exists_mem_of_ne_nil _ some
  obtain ⟨turn, hturn, -⟩ := List.mem_map.1 hs
  obtain ⟨ht, hfail⟩ := List.mem_filter.1 hturn
  exact ⟨turn, ht, error_of_isOk (by simpa using hfail)⟩

/-- Two builds in a row of tools in order. -/
theorem BuiltNext.of_tidy {env : Environment} {c : BuildContext} {plan : BuildPlan} {h h' : Host}
    (tidy : TidyTools env c plan) (files : h'.files = ((c.execute plan).runOn env h).2.files) :
    BuiltNext env c plan h env h' := by
  obtain ⟨procs, ex, -⟩ := c.executes_runOn plan env h
  obtain ⟨procs', ex', -⟩ := c.executes_runOn plan env h'
  exact ⟨rfl, files, ex.inOrder tidy, (ex'.inOrder tidy).compiles⟩

namespace Sample

/-- The project of the manifest before its first build. -/
def unbuilt : Host where files := sources

/-- After a build of the manifest in which `b.c` does not compile. -/
@[irreducible] def halfBuilt : Host where
  files := ((manifestContext.execute manifestPlan).runOn (writingEnvironment "b.c") unbuilt).2.files

theorem files_halfBuilt : halfBuilt.files =
    ((manifestContext.execute manifestPlan).runOn (writingEnvironment "b.c") unbuilt).2.files :=
  Host.files_of_eq <| by
    unfold halfBuilt
    rfl

theorem objects_manifestPlan : (manifestPlan.compileSteps.map fun s => s.output.components).Nodup := by
  decide

theorem compileResults_manifestPlan :
    ∀ s ∈ manifestPlan.compileSteps, resultOf s.command.args = some s.output := by
  decide

theorem linkResults_manifestPlan :
    ∀ s ∈ manifestPlan.linkSteps, resultOf s.command.args = some s.output := by
  decide

theorem tidy_manifestPlan (bad : String) :
    TidyTools (writingEnvironment bad) manifestContext manifestPlan :=
  tidy_writing bad compileResults_manifestPlan linkResults_manifestPlan

theorem readsApart_manifestPlan : manifestContext.ReadsApart manifestPlan [] sources :=
  BuildContext.readsApart_of_there readsThere_manifestPlan

theorem unhindered_manifestPlan (bad : String) : Unhindered (writingEnvironment bad) manifestContext
    (manifestContext.writes manifestPlan) manifestPlan sources := by
  have hdirs : ∀ s ∈ manifestPlan.compileSteps, ∀ d ∈ s.includeDirs,
      (⟨"/p"⟩ : Path).join d = ⟨"/p/inc"⟩ := by decide
  exact unhindered_of_fits (by decide +kernel) (by decide +kernel) (by decide +kernel)
    (fun s hs d hd => hdirs s hs d hd ▸ literal_inc) (by decide) (by decide) (fun _ ho => ho)
    (by decide)

theorem cacheBefore_unbuilt (env : Environment) (h : env.cwd = []) :
    manifestContext.cacheBefore env unbuilt = {} := by
  unfold BuildContext.cacheBefore
  rw [h]
  decide

end Sample

/-- One of three sources does not compile; the next build compiles this one only. -/
theorem failed_build_keeps_progress_halfBuilt :
    (Sample.manifestPlan.compileSteps.map fun s => s.output.components).Nodup ∧
    (Sample.manifestPlan.linkSteps.map LinkStep.target).Nodup ∧
    CacheSaved ((Sample.manifestContext.execute Sample.manifestPlan).runOn
      (Sample.writingEnvironment "b.c") Sample.unbuilt).1 ∧
    StopsBeforeLinks (Sample.writingEnvironment "b.c") Sample.manifestContext Sample.manifestPlan
      Sample.unbuilt ∧
    CompilesRest (Sample.writingEnvironment "b.c") Sample.manifestContext Sample.manifestPlan
      Sample.unbuilt (Sample.writingEnvironment "b.c") Sample.halfBuilt ∧
    (Sample.manifestContext.unfinished (Sample.writingEnvironment "b.c") Sample.manifestPlan
      Sample.unbuilt).map CompileStep.source = [⟨"b.c"⟩] := by
  have ready := Sample.unhindered_manifestPlan "b.c"
  have tidy := Sample.tidy_manifestPlan "b.c"
  have hlinkers : ∀ s ∈ Sample.manifestPlan.linkSteps, "b.c" ∉ s.command.args := by decide
  have targets : (Sample.manifestPlan.linkSteps.map LinkStep.target).Nodup := by decide
  have saved : CacheSaved ((Sample.manifestContext.execute Sample.manifestPlan).runOn
      (Sample.writingEnvironment "b.c") Sample.unbuilt).1 :=
    ready.cacheSaved tidy fun s hs =>
      Sample.works_writing (hlinkers s hs) (Sample.linkResults_manifestPlan s hs)
  have hcompiled (turn : CompileTurn) (ht : turn ∈ Sample.manifestContext.planCompileTurns
      Sample.manifestPlan (Sample.writingEnvironment "b.c") Sample.unbuilt) :
      turn.result.isOk = decide ("b.c" ∉ turn.step.command.args) :=
    Sample.isOk_writing ready tidy Sample.compileResults_manifestPlan
      (Sample.cacheBefore_unbuilt _ rfl) ht
  have hunfinished := Sample.manifestContext.unfinished_eq (fun s => decide ("b.c" ∉ s.command.args)) hcompiled
  obtain ⟨hstops, -, hnext⟩ := failed_build_keeps_progress (Sample.writingEnvironment "b.c")
    Sample.manifestContext Sample.manifestPlan Sample.unbuilt Sample.objects_manifestPlan targets saved
  refine ⟨Sample.objects_manifestPlan, targets, saved, hstops ?_, ?_, ?_⟩
  · exact exists_error_of_unfinished (by rw [hunfinished]; decide)
  · exact hnext Sample.readsApart_manifestPlan _ _ (.of_tidy tidy Sample.files_halfBuilt)
  · rw [hunfinished]
    decide

/-! ### Inputs that the build itself makes -/

/-- A compile step of which a process was run is among those that were started. -/
theorem CompilesAll.call_mem {env : Environment} {c : BuildContext} {cache : FingerprintCache}
    {t u : FileTree} {ss : List CompileStep} {turns : List CompileTurn} {procs : List Invocation}
    (all : CompilesAll env c cache t ss turns u procs) {turn : CompileTurn} (ht : turn ∈ turns)
    {f : CompileFingerprint} (ran : turn.result = .ok ⟨f, false⟩) :
    c.compileCall turn.step ∈ procs := by
  induction all with
  | nil t => cases ht
  | cons first later ih =>
    rcases List.mem_cons.1 ht with rfl | ht
    · obtain rfl := ran
      cases first with
      | succeeded => exact List.mem_append_left _ (List.mem_singleton.2 rfl)
    · exact List.mem_append_right _ (ih ht)

theorem Executes.call_mem {env : Environment} {c : BuildContext} {plan : BuildPlan} {t u : FileTree}
    {turns : List CompileTurn} {links : List LinkTurn} {r : Except Failure (List Artifact)}
    {procs : List Invocation} (ex : Executes env c plan t turns links r u procs) {turn : CompileTurn}
    (ht : turn ∈ turns) {f : CompileFingerprint} (ran : turn.result = .ok ⟨f, false⟩) :
    c.compileCall turn.step ∈ procs := by
  obtain ⟨compiles, -, -⟩ := ex
  exact List.mem_append_left _ (compiles.call_mem ht ran)

/-- Of two builds in a row the first fails, and the second compiles a source again that the
    first has compiled. -/
structure CompilesAgain (env : Environment) (c : BuildContext) (plan : BuildPlan) (h h' : Host) :
    Prop where
  objects : (plan.compileSteps.map fun s => s.output.components).Nodup
  targets : (plan.linkSteps.map LinkStep.target).Nodup
  saved : CacheSaved ((c.execute plan).runOn env h).1
  failed : (∃ turn ∈ c.planCompileTurns plan env h, ∃ e, turn.result = .error e) ∨
    ∃ turn ∈ c.planLinkTurns plan env h, ∃ e, turn.result = .error e
  next : BuiltNext env c plan h env h'
  idle : h'.started = []
  again : ∃ turn ∈ c.planCompileTurns plan env h, turn.result.isOk = true ∧
    ∃ turn' ∈ c.planCompileTurns plan env h', turn'.step = turn.step ∧
      (∃ f, turn'.result = .ok ⟨f, false⟩) ∧
      c.compileCall turn.step ∈ ((c.execute plan).runOn env h').2.started

/-- The steps of two builds of a plan are told by their number. -/
theorem compiled_again_at {env : Environment} {c : BuildContext} {plan : BuildPlan} {h h' : Host} (n : ℕ)
    (first : ((c.planCompileTurns plan env h).map fun turn => turn.result.isOk)[n]? = some true)
    (second : ((c.planCompileTurns plan env h').map fun turn =>
      turn.result.toOption.map Compiled.fresh)[n]? = some (some false)) :
    ∃ turn ∈ c.planCompileTurns plan env h, turn.result.isOk = true ∧
      ∃ turn' ∈ c.planCompileTurns plan env h', turn'.step = turn.step ∧
        (∃ f, turn'.result = .ok ⟨f, false⟩) ∧
        c.compileCall turn.step ∈ ((c.execute plan).runOn env h').2.started := by
  obtain ⟨procs, ex, -⟩ := c.executes_runOn plan env h
  obtain ⟨procs', ex', hstarted⟩ := c.executes_runOn plan env h'
  rw [List.getElem?_map, Option.map_eq_some_iff] at first second
  obtain ⟨turn, hturn, hok⟩ := first
  obtain ⟨turn', hturn', hfresh⟩ := second
  have hstep : turn'.step = turn.step := by
    have hsteps := congrArg (·[n]?) (ex'.compileSteps.trans ex.compileSteps.symm)
    simp only [List.getElem?_map, hturn, hturn', Option.map_some] at hsteps
    exact Option.some.inj hsteps
  have hran : ∃ f, turn'.result = .ok ⟨f, false⟩ := by
    cases hr : turn'.result with
    | error e =>
      rw [hr] at hfresh
      cases hfresh
    | ok d =>
      rw [hr] at hfresh
      exact ⟨d.fingerprint, by rw [← Option.some.inj hfresh]⟩
  have hmem' := List.mem_of_getElem? hturn'
  refine ⟨turn, List.mem_of_getElem? hturn, hok, turn', hmem', hstep, hran, ?_⟩
  obtain ⟨f, hf⟩ := hran
  rw [hstarted, ← hstep]
  exact List.mem_append_right _ (ex'.call_mem hmem' hf)

/-- A step whose inputs have changed since it was compiled is compiled again. -/
theorem compiled_again {env : Environment} {c : BuildContext} {plan : BuildPlan} {h h' : Host}
    {turn turn' : CompileTurn} (ht : turn ∈ c.planCompileTurns plan env h)
    (ht' : turn' ∈ c.planCompileTurns plan env h') (same : turn'.step = turn.step)
    (objects : (plan.compileSteps.map fun s => s.output.components).Nodup)
    (saved : CacheSaved ((c.execute plan).runOn env h).1)
    (files : h'.files = ((c.execute plan).runOn env h).2.files)
    (done : ∃ d, turn.result = .ok d) (done' : ∃ d, turn'.result = .ok d)
    (changed : ∀ i i', CompileReads env c turn i → CompileReads env c turn' i' →
      (c.compileNow turn.step i).agrees (c.compileNow turn.step i') = false) :
    (∃ f, turn'.result = .ok ⟨f, false⟩) ∧
      c.compileCall turn.step ∈ ((c.execute plan).runOn env h').2.started := by
  obtain ⟨procs', ex', hstarted⟩ := c.executes_runOn plan env h'
  obtain ⟨d, hd⟩ := done
  obtain ⟨d', hd'⟩ := done'
  obtain ⟨i, hi, hrecorded⟩ := (recordsCompiles_of_saved objects saved).done turn ht d hd
  have hloaded : c.cacheBefore env h' = c.cacheAfter env plan h := by
    rw [c.cacheBefore_of_load (c.runOn_load_of_saved plan env h saved files), BuildContext.cacheAfter,
      c.keptAt_of_saved plan env h saved]
  have hcache : FingerprintCache.ofFile h'.files env.cwd c.fingerprintPath = c.cacheAfter env plan h :=
    hloaded
  have hran : ∃ f, turn'.result = .ok ⟨f, false⟩ := by
    obtain ⟨-, procs₁, hturn⟩ := ex'.compileTurn ht'
    rw [hd', hcache, same] at hturn
    have hstale := hturn.compiled_of_stale fun i' hi' => by
      rw [FingerprintCache.objectFresh, hrecorded, Option.any_some,
        changed i i' hi (by rw [CompileReads, same]; exact hi'), Bool.and_false]
    exact ⟨d'.fingerprint, by rw [hd', ← hstale]⟩
  refine ⟨hran, ?_⟩
  obtain ⟨f, hf⟩ := hran
  rw [hstarted, ← same]
  exact List.mem_append_right _ (ex'.call_mem ht' hf)

/-- The first compile step finds the files as they are. -/
theorem BuildContext.head_planCompileTurns (c : BuildContext) (plan : BuildPlan) (env : Environment)
    (h : Host) {s : CompileStep} {ss : List CompileStep} (steps : plan.compileSteps = s :: ss) :
    ∃ turn ∈ c.planCompileTurns plan env h, turn.step = s ∧ turn.files = h.files := by
  obtain ⟨h₀, hload, hfiles, -⟩ := FingerprintCache.runOn_load c.fingerprintPath env h
  have hloaded : c.loaded env h = h₀ := by rw [loaded, hload]
  rw [planCompileTurns, steps, hloaded]
  exact ⟨_, List.mem_cons_self, rfl, hfiles⟩

namespace Sample

/-- The source of the second target is the module of the first, and its own module cannot be
    linked. -/
def readerPlan : BuildPlan where
  profile := "debug"
  root := ⟨"/p"⟩
  compileSteps := [{ compileStep "b.c" "/p/out/b.o" with target := "b" },
    compileStep "out/b.so" "/p/out/a.o"]
  linkSteps := [
    { target := "b", objects := [⟨"/p/out/b.o"⟩], output := ⟨"/p/out/b.so"⟩
      command := ⟨⟨"/bin/cc"⟩, ["-shared", "-o", "/p/out/b.so", "/p/out/b.o"]⟩ },
    { target := "a", objects := [⟨"/p/out/a.o"⟩], output := ⟨"/p/out/a.so"⟩
      command := ⟨⟨"/bin/cc"⟩, ["-shared", "-o", "/p/out/a.so", "/p/out/a.o", "-bad"]⟩ }]

def readerFirst : Host where
  files := (directories.set ["p", "out", "b.so"] (.file "old".toUTF8 false)).set
    ["p", "b.c"] (.file "int b".toUTF8 false)

@[irreducible] def readerNext : Host where
  files := ((context.execute readerPlan).runOn (writingEnvironment "-bad") readerFirst).2.files

theorem files_readerNext : readerNext.files =
    ((context.execute readerPlan).runOn (writingEnvironment "-bad") readerFirst).2.files :=
  Host.files_of_eq <| by
    unfold readerNext
    rfl

theorem started_readerNext : readerNext.started = [] := by
  unfold readerNext
  rfl

@[irreducible] def readerCache : FingerprintCache :=
  context.cacheRecorded readerPlan (writingEnvironment "-bad") readerFirst

theorem course_of_readerPlan :
    failedToSave ((context.execute readerPlan).runOn (writingEnvironment "-bad") readerFirst).1
      = false ∧
    ((context.planCompileTurns readerPlan (writingEnvironment "-bad") readerFirst).map
      fun turn => turn.result.isOk) = [true, true] ∧
    ((context.planLinkTurns readerPlan (writingEnvironment "-bad") readerFirst).map
      fun turn => turn.result.isOk) = [true, false] ∧
    ((context.compileTurns readerCache (writingEnvironment "-bad") readerNext
      readerPlan.compileSteps).map fun turn => turn.result.toOption.map Compiled.fresh) =
      [some true, some false] := by
  decide +kernel

theorem load_readerNext :
    (FingerprintCache.load context.fingerprintPath).runOn (writingEnvironment "-bad") readerNext =
      (.ok readerCache, readerNext) := by
  rw [readerCache]
  exact context.runOn_load_of_saved readerPlan _ readerFirst
    ((cacheSaved_iff _).2 course_of_readerPlan.1) files_readerNext

theorem compilesAgain_reader :
    CompilesAgain (writingEnvironment "-bad") context readerPlan readerFirst readerNext := by
  obtain ⟨hsaved, hturns, hlinks, hnext⟩ := course_of_readerPlan
  rw [← context.planCompileTurns_of_load _ load_readerNext] at hnext
  refine ⟨by decide, by decide, (cacheSaved_iff _).2 hsaved, .inr ?_,
    .of_tidy (tidy_writing "-bad" (by decide) (by decide)) files_readerNext,
    started_readerNext, compiled_again_at 1 ?_ ?_⟩
  · have hfails : false ∈ (context.planLinkTurns readerPlan (writingEnvironment "-bad") readerFirst).map
        fun turn => turn.result.isOk := by
      rw [hlinks]
      decide
    obtain ⟨turn, ht, hfail⟩ := List.mem_map.1 hfails
    exact ⟨turn, ht, error_of_isOk hfail⟩
  · rw [hturns]
    rfl
  · rw [hnext]
    rfl

/-- Its headers are found by way of the directory that builds make. -/
def detourA : Target := { name := "a", sources := [⟨"a.c"⟩], includeDirs := [⟨".october/../inc"⟩] }

def plainB : Target := { name := "b", sources := [⟨"b.c"⟩] }

def detourManifest : Manifest := { manifest with targets := [detourA, plainB] }

def detourText : String :=
  Toml.PlainLine.text (detourManifest.package.lines ++ detourManifest.targets.flatMap Target.lines)

theorem parse_detourText : Manifest.parse detourText ⟨"/p"⟩ = .ok detourManifest := by
  have hread : Declaration.read detourText = .ok ⟨detourManifest.package, detourManifest.targets, []⟩ :=
    Declaration.read_text (by decide) rfl rfl
  rw [Manifest.parse_of_read hread]
  rfl

theorem contextOf_detour :
    BuildContext.of { manifest := detourManifest } (.gnu ⟨"/bin/gcc"⟩ .gcc) {} = .ok manifestContext := by
  apply BuildContext.of_eq
  rw [detourManifest, manifest, Manifest.get?_profilesOf]
  rfl

def detourPlan : BuildPlan where
  profile := "debug"
  root := ⟨"/p"⟩
  compileSteps :=
    [compileTo "a" "a.c" "a/a-4d1e93e6.o" [".october/../inc"] ["-I.october/../inc"],
      compileTo "b" "b.c" "b/b-4c6b271f.o" [] []]
  linkSteps :=
    [linkTo "a" "/p/.october/target/debug/a.so" ["/p/.october/target/debug/obj/a/a-4d1e93e6.o"],
      linkTo "b" "/p/.october/target/debug/b.so" ["/p/.october/target/debug/obj/b/b-4c6b271f.o"]]

theorem planned_detour :
    BuildPlan.ofTargets manifestContext detourManifest.targets = .ok detourPlan := by
  rw [BuildPlan.ofTargets_eq manifestContext (Manifest.checked_of_parse parse_detourText).valid]
  decide +kernel

/-- The step that finds headers by way of the directory. -/
def detourStep : CompileStep :=
  compileTo "a" "a.c" "a/a-4d1e93e6.o" [".october/../inc"] ["-I.october/../inc"]

/-- What builds of the plan write. -/
def detourOuts : List Path := manifestContext.writes detourPlan

theorem objects_detourPlan : (detourPlan.compileSteps.map fun s => s.output.components).Nodup := by
  decide

theorem results_detourPlan : (∀ s ∈ detourPlan.compileSteps, resultOf s.command.args = some s.output) ∧
    ∀ s ∈ detourPlan.linkSteps, resultOf s.command.args = some s.output := by
  decide

theorem tidy_detourPlan (bad : String) :
    TidyTools (writingEnvironment bad) manifestContext detourPlan :=
  tidy_writing bad results_detourPlan.1 results_detourPlan.2

theorem unread_detourPlan : ∀ s ∈ detourPlan.compileSteps,
    s.Unread [] manifestContext.root (manifestContext.writes detourPlan) := by
  decide

theorem literal_detour : (⟨"/p/.october/../inc"⟩ : Path).Literal where
  chars c hc := by
    have hchars : ("/p/.october/../inc".toList.all fun c => decide (Pattern.StandsForItself c)) = true := rfl
    exact of_decide_eq_true (List.all_eq_true.1 hchars c hc)
  noGap k part parts h := by
    have hsplit : (List.splitOn '/' (⟨"/p/.october/../inc"⟩ : Path).text.toList).head? = some [] := by decide
    rw [h, List.replicate_succ] at hsplit
    cases hsplit

theorem plain_detourOuts :
    ∀ o ∈ detourOuts, ∀ l ∈ o.locate [] :: o.dirWay [], ∀ name ∈ l, PlainName name := by
  decide

theorem unhindered_detourPlan (bad : String) :
    Unhindered (writingEnvironment bad) manifestContext detourOuts detourPlan sources := by
  have hdirs : ∀ s ∈ detourPlan.compileSteps, ∀ d ∈ s.includeDirs,
      (⟨"/p"⟩ : Path).join d = ⟨"/p/.october/../inc"⟩ := by decide
  exact unhindered_of_fits (by decide +kernel) (by decide +kernel) plain_detourOuts
    (fun s hs d hd => hdirs s hs d hd ▸ literal_detour) (by decide) (by decide)
    (fun _ ho => ho) (by decide)

/-! ### Headers that are found later -/

theorem join_detour : (⟨"/p"⟩ : Path).join ⟨".october/../inc"⟩ = ⟨"/p/.october/../inc"⟩ := by
  decide

/-- Before the first build no header is found. -/
theorem headers_before {i : CompileInputs}
    (reads : CompileInputs.ofStep sources [] ⟨"/p"⟩ detourStep = .ok i) : i.headers = Table.empty := by
  have hdir : sources.isDir [] ⟨"/p/.october/../inc"⟩ = false := by decide
  have hadd : CompileInputs.addHeaders sources [] Table.empty ((⟨"/p"⟩ : Path).join ⟨".october/../inc"⟩) =
      .ok Table.empty := by
    rw [join_detour, CompileInputs.addHeaders, hdir]
    rfl
  have hstep : detourStep.includeDirs = [⟨".october/../inc"⟩] := rfl
  rw [CompileInputs.ofStep, hstep, List.foldlM_cons, hadd] at reads
  cases hsource : sources.readToDigest [] ((⟨"/p"⟩ : Path).join detourStep.source) with
  | error e =>
    rw [hsource] at reads
    cases reads
  | ok bytes =>
    rw [hsource] at reads
    cases reads
    rfl

/-- When the directory has been made, one is. -/
theorem headers_after {u : FileTree} (a : Extends detourOuts [] sources u)
    (opened : u.isDirAt ["p", ".october"] = true) {i : CompileInputs}
    (reads : CompileInputs.ofStep u [] ⟨"/p"⟩ detourStep = .ok i) : i.headers.entries ≠ [] := by
  have hkeeps : Keeps (sources.set ["p", ".october"] .dir) u := by
    have hset (l : Location) (hl : l ≠ ["p", ".october"]) :
        (sources.set ["p", ".october"] .dir).node? l = sources.node? l := by
      rw [node?_set, if_neg fun h => hl h.2]
    refine ⟨fun l hd => ?_, fun l hs => ?_⟩
    · by_cases hl : l = ["p", ".october"]
      · exact hl ▸ opened
      · rw [isDirAt, hset l hl] at hd
        exact a.keeps.dirs l hd
    · by_cases hl : l = ["p", ".october"]
      · rw [hl, (isDirAt_node? u _).1 opened]
        rfl
      · rw [hset l hl] at hs
        exact a.keeps.nodes l hs
  have hdir : u.isDir [] ⟨"/p/.october/../inc"⟩ = true := hkeeps.isDir (by decide)
  have hread : u.readFile [] ((⟨"/p/.october/../inc"⟩ : Path).children ["x.h"]) = .ok "int x;".toUTF8 := by
    rw [readFile_iff]
    refine ⟨hkeeps.pathExists (by decide), false, ?_⟩
    have hoff : ∀ o ∈ detourOuts, (["p", "inc", "x.h"] : Location) ≠ o.locate [] := by decide
    exact a.node?_eq (l := ["p", "inc", "x.h"]) rfl hoff
  have hliteral : LiteralDirs u [] (detourStep.includeDirs.map (⟨"/p"⟩ : Path).join) := fun dir hmem _ => by
    obtain rfl : dir = _ := List.mem_singleton.1 hmem
    exact join_detour ▸ literal_detour
  obtain ⟨headers, heq, hrecords⟩ :=
    CompileInputs.ofStep_eq (a.plainNames (.of_toList (by decide)) plain_detourOuts) hliteral
  rw [reads] at heq
  have hheaders : i.headers = headers := by
    cases hsource : u.readToDigest [] ((⟨"/p"⟩ : Path).join detourStep.source) with
    | error e =>
      rw [hsource] at heq
      cases heq
    | ok bytes =>
      rw [hsource] at heq
      cases heq
      rfl
  obtain ⟨e, he, -⟩ := hrecords.all _ (List.mem_singleton.2 rfl) ["x.h"] _
    (join_detour ▸ headerBelow hdir (by decide) (by decide) hread)
  rw [hheaders]
  exact List.ne_nil_of_mem he

theorem agrees_detour {i i' : CompileInputs} (before : i.headers = Table.empty)
    (after : i'.headers.entries ≠ []) :
    (manifestContext.compileNow detourStep i).agrees (manifestContext.compileNow detourStep i') = false := by
  rw [Bool.eq_false_iff]
  intro hagrees
  have hcontent := (Table.agrees_iff_content _ _).1 (Bool.and_eq_true_iff.1 hagrees).2
  have hlength := congrArg List.length hcontent
  simp only [BuildContext.compileNow, CompileInputs.fingerprint, Table.content, Table.mapValues,
    List.length_map, before] at hlength
  exact after (List.length_eq_zero_iff.1 hlength.symm)

/-- A build of the plan leaves the directory. -/
theorem opened_after {env : Environment} {plan : BuildPlan} {h : Host} (cwd : env.cwd = [])
    (saved : CacheSaved ((manifestContext.execute plan).runOn env h).1) :
    ((manifestContext.execute plan).runOn env h).2.files.isDirAt ["p", ".october"] = true := by
  obtain ⟨procs, ex, -⟩ := manifestContext.executes_runOn plan env h
  obtain ⟨t, saves⟩ := ex.saves saved
  have hway : (["p", ".october"] : Location) ∈ manifestContext.fingerprintPath.dirWay [] := by decide
  refine isDirAt_of_found (pathExists_of_readFile saves.readFile_eq) ?_ (cwd ▸ hway)
  rw [cwd]
  rfl

/-- The source is compiled in a first build, and again in the next. -/
theorem detour_compiled_again (bad : String) (good : bad ∉ detourStep.command.args)
    (linkers : ∀ s ∈ detourPlan.linkSteps, bad ∉ s.command.args) {h h' : Host}
    (first : h.files = sources)
    (files : h'.files = ((manifestContext.execute detourPlan).runOn (writingEnvironment bad) h).2.files) :
    ∃ turn ∈ manifestContext.planCompileTurns detourPlan (writingEnvironment bad) h,
      turn.result.isOk = true ∧
      ∃ turn' ∈ manifestContext.planCompileTurns detourPlan (writingEnvironment bad) h',
        turn'.step = turn.step ∧ (∃ f, turn'.result = .ok ⟨f, false⟩) ∧
        manifestContext.compileCall turn.step ∈
          ((manifestContext.execute detourPlan).runOn (writingEnvironment bad) h').2.started := by
  have tidy := tidy_detourPlan bad
  have ready : Unhindered (writingEnvironment bad) manifestContext detourOuts detourPlan h.files :=
    first ▸ unhindered_detourPlan bad
  have saved := ready.cacheSaved tidy fun s hs =>
    works_writing (linkers s hs) (results_detourPlan.2 s hs)
  have hext : Extends detourOuts [] h.files h'.files := by
    rw [files]
    exact tidy.extends ready.outputs
  have works {s : CompileStep} (hs : s = detourStep) :
      Works (writingEnvironment bad) (manifestContext.compileCall s) s.output := by
    subst hs
    exact works_writing good (results_detourPlan.1 _ List.mem_cons_self)
  obtain ⟨procs, ex, -⟩ := manifestContext.executes_runOn detourPlan (writingEnvironment bad) h
  obtain ⟨procs', ex', -⟩ := manifestContext.executes_runOn detourPlan (writingEnvironment bad) h'
  obtain ⟨turn, ht, hstep, hfiles⟩ := manifestContext.head_planCompileTurns detourPlan
    (writingEnvironment bad) h rfl
  obtain ⟨turn', ht', hstep', hfiles'⟩ := manifestContext.head_planCompileTurns detourPlan
    (writingEnvironment bad) h' rfl
  have hdone := ready.compiled ex (ex.inOrder tidy) ht (works hstep)
  have hdone' := (ready.mono hext).compiled ex' (ex'.inOrder tidy) ht' (works hstep')
  have hopened : h'.files.isDirAt ["p", ".october"] = true := by
    rw [files]
    exact opened_after rfl saved
  refine ⟨turn, ht, isOk_iff.2 hdone, turn', ht', hstep'.trans hstep.symm, ?_⟩
  refine compiled_again ht ht' (hstep'.trans hstep.symm) objects_detourPlan saved files hdone hdone'
    fun i i' hi hi' => ?_
  rw [CompileReads, hfiles, hstep, first] at hi
  rw [CompileReads, hfiles', hstep'] at hi'
  rw [hstep]
  exact agrees_detour (headers_before hi) (headers_after (first ▸ hext) hopened hi')

/-- After a build in which what is called `bad` does not compile. -/
@[irreducible] def detourNext (bad : String) : Host where
  files := ((manifestContext.execute detourPlan).runOn (writingEnvironment bad) unbuilt).2.files

theorem files_detourNext (bad : String) : (detourNext bad).files =
    ((manifestContext.execute detourPlan).runOn (writingEnvironment bad) unbuilt).2.files :=
  Host.files_of_eq <| by
    unfold detourNext
    rfl

theorem started_detourNext (bad : String) : (detourNext bad).started = [] := by
  unfold detourNext
  rfl

theorem compilesAgain_detour :
    CompilesAgain (writingEnvironment "b.c") manifestContext detourPlan unbuilt (detourNext "b.c") := by
  have hfiles := files_detourNext "b.c"
  have tidy := tidy_detourPlan "b.c"
  have ready := unhindered_detourPlan "b.c"
  have hlinkers : ∀ s ∈ detourPlan.linkSteps, "b.c" ∉ s.command.args := by decide
  have hunfinished := manifestContext.unfinished_eq (fun s => decide ("b.c" ∉ s.command.args))
    fun turn ht => isOk_writing (h := unbuilt) ready tidy results_detourPlan.1 (cacheBefore_unbuilt _ rfl) ht
  refine ⟨objects_detourPlan, by decide, ?_, .inl (exists_error_of_unfinished ?_), .of_tidy tidy hfiles,
    started_detourNext "b.c", detour_compiled_again "b.c" (by decide) hlinkers rfl hfiles⟩
  · exact ready.cacheSaved (h := unbuilt) tidy fun s hs =>
      works_writing (hlinkers s hs) (results_detourPlan.2 s hs)
  · rw [hunfinished]
    decide

end Sample

/-- What a step reads has to stay as it is.  A step that reads a module of the same plan
    succeeds in a build that fails later, nothing is changed between this build and the
    next, and its compiler is started again; so is that of a step that reads no output, but
    finds headers by way of a directory that the first build has made. -/
theorem made_inputs_run_again :
    CompilesAgain (Sample.writingEnvironment "-bad") Sample.context Sample.readerPlan
        Sample.readerFirst Sample.readerNext ∧
      (∀ s ∈ Sample.detourPlan.compileSteps, s.Unread [] Sample.manifestContext.root
        (Sample.manifestContext.writes Sample.detourPlan)) ∧
      CompilesAgain (Sample.writingEnvironment "b.c") Sample.manifestContext Sample.detourPlan
        Sample.unbuilt (Sample.detourNext "b.c") :=
  ⟨Sample.compilesAgain_reader, Sample.unread_detourPlan, Sample.compilesAgain_detour⟩

end GrammarBuild
