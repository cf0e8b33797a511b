import GrammarBuild.Proofs.Directories

/-
  GrammarBuild/Proofs/Phases.lean
  ===============================
  **The course of a build** — the compile steps one after the other (`CompilesAll`), the
  link steps up to the first that fails (`LinksAll`), and the saving of what was recorded
  (`Executes`).  A course is told by its turns: for each step that is carried out, the
  files as they are when its turn comes and how it comes out.

  `executes_runOn` says that carrying out a plan takes such a course, with the turns that
  `planCompileTurns` and `planLinkTurns` compute.
-/

namespace GrammarBuild

/-- A step whose turn has come: the files as they are then, how the step comes out, and
    the files that it leaves. -/
structure Turn (σ ρ : Type) where
  step : σ
  files : FileTree
  result : Except Failure ρ
  after : FileTree

abbrev CompileTurn := Turn CompileStep Compiled

/-- A link step comes out with an artifact and the cache in which it is recorded. -/
abbrev LinkTurn := Turn LinkStep (Artifact × FingerprintCache)

/-! ### The compile steps -/

/-- Compile steps that are carried out one after the other, whatever they come to. -/
inductive CompilesAll (env : Environment) (c : BuildContext) (cache : FingerprintCache) :
    FileTree → List CompileStep → List CompileTurn → FileTree → List Invocation → Prop where
  | nil (t : FileTree) : CompilesAll env c cache t [] [] t []
  | cons {s : CompileStep} {ss : List CompileStep} {t t₁ t₂ : FileTree}
    {r : Except Failure Compiled} {turns : List CompileTurn} {procs procs' : List Invocation}
    (first : Compiles env c cache s t r t₁ procs)
    (rest : CompilesAll env c cache t₁ ss turns t₂ procs') :
    CompilesAll env c cache t (s :: ss) (⟨s, t, r, t₁⟩ :: turns) t₂ (procs ++ procs')

/-- Every turn is the turn of a step that is carried out. -/
theorem CompilesAll.turn {env : Environment} {c : BuildContext} {cache : FingerprintCache}
    {t t₁ : FileTree} {ss : List CompileStep} {turns : List CompileTurn} {procs : List Invocation}
    (h : CompilesAll env c cache t ss turns t₁ procs) {turn : CompileTurn} (ht : turn ∈ turns) :
    ∃ procs₁, Compiles env c cache turn.step turn.files turn.result turn.after procs₁ := by
  induction h with
  | nil t => cases ht
  | cons first rest ih =>
    rcases List.mem_cons.1 ht with rfl | ht
    · exact ⟨_, first⟩
    · exact ih ht

theorem CompilesAll.steps {env : Environment} {c : BuildContext} {cache : FingerprintCache}
    {t t₁ : FileTree} {ss : List CompileStep} {turns : List CompileTurn} {procs : List Invocation}
    (h : CompilesAll env c cache t ss turns t₁ procs) : turns.map Turn.step = ss := by
  induction h with
  | nil t => rfl
  | cons first rest ih => rw [List.map_cons, ih]

/-- The outcomes of turns. -/
def outcomesOf (turns : List CompileTurn) : List BuildContext.CompileOutcome :=
  turns.map fun turn => (turn.step, turn.result)

namespace BuildContext

/-- The turns of compile steps that are carried out one after the other. -/
def compileTurns (c : BuildContext) (cache : FingerprintCache) (env : Environment) :
    Host → List CompileStep → List CompileTurn
  | _, [] => []
  | h, s :: ss =>
    let done := (c.compile cache s).runOn env h
    ⟨s, h.files, done.1, done.2.files⟩ :: c.compileTurns cache env done.2 ss

theorem compileTurns_singleton (c : BuildContext) (cache : FingerprintCache) (env : Environment)
    (h : Host) (s : CompileStep) :
    ∃ turn, c.compileTurns cache env h [s] = [turn] ∧ turn.step = s :=
  ⟨_, rfl, rfl⟩

/-- The host after some compile steps. -/
def afterCompiles (c : BuildContext) (cache : FingerprintCache) (env : Environment) (h : Host)
    (ss : List CompileStep) : Host :=
  ss.foldl (fun h s => ((c.compile cache s).runOn env h).2) h

variable {env : Environment} {h : Host}

/-- All compile steps are attempted, and none of them makes the phase fail. -/
theorem runOn_compileAll (c : BuildContext) (cache : FingerprintCache) (ss : List CompileStep) :
    (c.compileAll cache ss).runOn env h =
      (.ok (outcomesOf (c.compileTurns cache env h ss)), c.afterCompiles cache env h ss) := by
  unfold compileAll
  induction ss generalizing h with
  | nil => rfl
  | cons s ss ih =>
    rw [List.mapM_cons, Action.runOn_bind, Action.runOn_bind, Action.runOn_attempt]
    simp only [Action.runOn_pure, Action.runOn_bind]
    rw [ih]
    rfl

theorem compilesAll_turns (c : BuildContext) (env : Environment) (h : Host)
    (cache : FingerprintCache) (ss : List CompileStep) :
    ∃ procs, CompilesAll env c cache h.files ss (c.compileTurns cache env h ss)
        (c.afterCompiles cache env h ss).files procs ∧
      (c.afterCompiles cache env h ss).started = h.started ++ procs := by
  induction ss generalizing h with
  | nil => exact ⟨[], .nil _, by simp [afterCompiles]⟩
  | cons s ss ih =>
    obtain ⟨procs, hfirst, hs⟩ := c.compiles_runOn env h cache s
    obtain ⟨procs', hrest, hs'⟩ := ih ((c.compile cache s).runOn env h).2
    refine ⟨procs ++ procs', .cons hfirst hrest, ?_⟩
    rw [← List.append_assoc, ← hs]
    exact hs'

end BuildContext

/-! ### The link steps -/

/-- Link steps that are carried out one after the other up to the first that fails. -/
inductive LinksAll (env : Environment) (c : BuildContext) (rebuilt : List String) :
    FingerprintCache → FileTree → List LinkStep → List LinkTurn → FileTree → List Invocation →
      Prop where
  | nil (cache : FingerprintCache) (t : FileTree) : LinksAll env c rebuilt cache t [] [] t []
  | failed {cache : FingerprintCache} {s : LinkStep} {ss : List LinkStep} {t t₁ : FileTree}
    {e : Failure} {procs : List Invocation}
    (first : Links env c cache (rebuilt.contains s.target) s t (.error e) t₁ procs) :
    LinksAll env c rebuilt cache t (s :: ss) [⟨s, t, .error e, t₁⟩] t₁ procs
  | cons {cache cache₁ : FingerprintCache} {s : LinkStep} {ss : List LinkStep}
    {t t₁ t₂ : FileTree} {a : Artifact} {turns : List LinkTurn} {procs procs' : List Invocation}
    (first : Links env c cache (rebuilt.contains s.target) s t (.ok (a, cache₁)) t₁ procs)
    (rest : LinksAll env c rebuilt cache₁ t₁ ss turns t₂ procs') :
    LinksAll env c rebuilt cache t (s :: ss) (⟨s, t, .ok (a, cache₁), t₁⟩ :: turns) t₂
      (procs ++ procs')

theorem LinksAll.step_mem {env : Environment} {c : BuildContext} {rebuilt : List String}
    {cache : FingerprintCache} {t u : FileTree} {ss : List LinkStep} {links : List LinkTurn}
    {procs : List Invocation} (all : LinksAll env c rebuilt cache t ss links u procs)
    {turn : LinkTurn} (ht : turn ∈ links) : turn.step ∈ ss := by
  induction all with
  | nil cache t => cases ht
  | failed first =>
    obtain rfl := List.mem_singleton.1 ht
    exact List.mem_cons_self
  | cons first later ih =>
    rcases List.mem_cons.1 ht with rfl | ht
    · exact List.mem_cons_self
    · exact List.mem_cons_of_mem _ (ih ht)

/-- The cache after the turns of link steps: each that came out well leaves its own. -/
def cacheAfterLinks (cache : FingerprintCache) : List LinkTurn → FingerprintCache
  | [] => cache
  | turn :: turns =>
    match turn.result with
    | .ok (_, cache) => cacheAfterLinks cache turns
    | .error _ => cache

/-- The artifacts of the turns of link steps, or the failure of the first that failed. -/
def artifactsOf : List LinkTurn → Except Failure (List Artifact)
  | [] => .ok []
  | turn :: turns =>
    match turn.result with
    | .ok (a, _) => (artifactsOf turns).map (a :: ·)
    | .error e => .error e

/-- The result of a build whose cache was saved with the outcome `saved`. -/
def afterSaving {α : Type} (saved : Except Failure Unit) (r : Except Failure α) :
    Except Failure α :=
  match saved with
  | .ok _ => r
  | .error e => .error e

namespace BuildContext

/-- The turns of link steps, up to the first that fails. -/
def linkTurns (c : BuildContext) (rebuilt : List String) (env : Environment) :
    FingerprintCache → Host → List LinkStep → List LinkTurn
  | _, _, [] => []
  | cache, h, s :: ss =>
    let done := (c.link cache (rebuilt.contains s.target) s).runOn env h
    ⟨s, h.files, done.1, done.2.files⟩ ::
      match done.1 with
      | .ok (_, cache) => c.linkTurns rebuilt env cache done.2 ss
      | .error _ => []

/-- The link steps take a course of `LinksAll`.  If one of them fails, what was recorded
    until then has been saved. -/
theorem linksAll_runOn (c : BuildContext) (rebuilt : List String) (env : Environment) (h : Host)
    (cache : FingerprintCache) (ss : List LinkStep) :
    ∃ t₁ procs, LinksAll env c rebuilt cache h.files ss (c.linkTurns rebuilt env cache h ss) t₁ procs ∧
      ((c.linkAll rebuilt cache ss).runOn env h).2.started = h.started ++ procs ∧
      match artifactsOf (c.linkTurns rebuilt env cache h ss) with
      | .ok artifacts =>
        ((c.linkAll rebuilt cache ss).runOn env h).2.files = t₁ ∧
        ((c.linkAll rebuilt cache ss).runOn env h).1 =
          .ok (artifacts, cacheAfterLinks cache (c.linkTurns rebuilt env cache h ss))
      | .error e =>
        ∃ saved, FingerprintCache.Saves env.cwd c.fingerprintPath
            (cacheAfterLinks cache (c.linkTurns rebuilt env cache h ss)) t₁ saved
            ((c.linkAll rebuilt cache ss).runOn env h).2.files ∧
          (∃ h₁ : Host, h₁.files = t₁ ∧ (((cacheAfterLinks cache
            (c.linkTurns rebuilt env cache h ss)).save c.fingerprintPath).runOn env h₁).1 = saved) ∧
          ((c.linkAll rebuilt cache ss).runOn env h).1 = afterSaving saved (.error e) := by
  induction ss generalizing h cache with
  | nil => exact ⟨h.files, [], .nil cache h.files, by simp [linkAll], rfl, rfl⟩
  | cons s ss ih =>
    obtain ⟨procs, hfirst, hs⟩ := c.links_runOn env h cache (rebuilt.contains s.target) s
    simp only [linkAll, linkTurns, Action.runOn_bind, Action.runOn_attempt]
    rcases hl : (c.link cache (rebuilt.contains s.target) s).runOn env h with ⟨r, h₁⟩
    rw [hl] at hfirst hs
    cases r with
    | error e =>
      have hsave := FingerprintCache.saves_of_runOn cache c.fingerprintPath env h₁
      simp only [Action.runOn_bind, artifactsOf, cacheAfterLinks]
      rcases hw : (cache.save c.fingerprintPath).runOn env h₁ with ⟨saved, h₂⟩
      rw [hw] at hsave
      refine ⟨h₁.files, procs, .failed hfirst, ?_⟩
      cases saved with
      | error f => exact ⟨hsave.2.trans hs, .error f, hsave.1, ⟨h₁, rfl, congrArg Prod.fst hw⟩, rfl⟩
      | ok _ => exact ⟨hsave.2.trans hs, .ok (), hsave.1, ⟨h₁, rfl, congrArg Prod.fst hw⟩, rfl⟩
    | ok p =>
      obtain ⟨a, cache₁⟩ := p
      obtain ⟨t₁, procs', hall, hs', hrest⟩ := ih h₁ cache₁
      have hstart : h₁.started ++ procs' = h.started ++ (procs ++ procs') := by
        rw [hs, List.append_assoc]
      refine ⟨t₁, procs ++ procs', .cons hfirst hall, ?_⟩
      rw [← hstart, ← hs']
      simp only [Action.runOn_bind, artifactsOf, cacheAfterLinks]
      rcases hw : (c.linkAll rebuilt cache₁ ss).runOn env h₁ with ⟨r', h₂⟩
      rw [hw] at hrest
      cases ha : artifactsOf (c.linkTurns rebuilt env cache₁ h₁ ss) with
      | ok artifacts =>
        simp only [ha] at hrest
        obtain ⟨hfiles, rfl⟩ := hrest
        exact ⟨rfl, hfiles, rfl⟩
      | error e =>
        simp only [ha] at hrest
        obtain ⟨saved, hsave, hran, rfl⟩ := hrest
        cases saved with
        | error f => exact ⟨rfl, .error f, hsave, hran, rfl⟩
        | ok _ => exact ⟨rfl, .ok (), hsave, hran, rfl⟩

end BuildContext

/-! ### The whole build -/

/-- What follows the compile steps: nothing if one of them failed, else the link steps. -/
inductive Finishes (env : Environment) (c : BuildContext) (cache : FingerprintCache)
    (turns : List CompileTurn) (t : FileTree) (ss : List LinkStep) :
    List LinkTurn → Except Failure (List Artifact) → FileTree → List Invocation → Prop where
  | stopped {e : Failure} (first : BuildContext.firstFailure? (outcomesOf turns) = some e) :
    Finishes env c cache turns t ss [] (.error e) t []
  | linked {links : List LinkTurn} {t₁ : FileTree} {procs : List Invocation}
    (first : BuildContext.firstFailure? (outcomesOf turns) = none)
    (links_all : LinksAll env c (BuildContext.rebuiltTargets (outcomesOf turns))
      (BuildContext.recordOutcomes cache (outcomesOf turns)) t ss links t₁ procs) :
    Finishes env c cache turns t ss links (artifactsOf links) t₁ procs

/-- The cache that a build saves. -/
def cacheAfterTurns (cache : FingerprintCache) (turns : List CompileTurn) (links : List LinkTurn) :
    FingerprintCache :=
  cacheAfterLinks (BuildContext.recordOutcomes cache (outcomesOf turns)) links

/-- The course of a build: the compile steps, the link steps if none of them failed, and
    the saving of what was recorded. -/
inductive Executes (env : Environment) (c : BuildContext) (plan : BuildPlan) (t : FileTree)
    (turns : List CompileTurn) (links : List LinkTurn) :
    Except Failure (List Artifact) → FileTree → List Invocation → Prop where
  | mk {t₁ t₂ t₃ : FileTree} {r : Except Failure (List Artifact)} {saved : Except Failure Unit}
    {procs procs' : List Invocation}
    (compiles : CompilesAll env c (.ofFile t env.cwd c.fingerprintPath) t plan.compileSteps turns
      t₁ procs)
    (finishes : Finishes env c (.ofFile t env.cwd c.fingerprintPath) turns t₁ plan.linkSteps links r
      t₂ procs')
    (saves : FingerprintCache.Saves env.cwd c.fingerprintPath
      (cacheAfterTurns (.ofFile t env.cwd c.fingerprintPath) turns links) t₂ saved t₃)
    (ran : ∃ h₁ : Host, h₁.files = t₂ ∧ (((cacheAfterTurns (.ofFile t env.cwd c.fingerprintPath)
      turns links).save c.fingerprintPath).runOn env h₁).1 = saved) :
    Executes env c plan t turns links (afterSaving saved r) t₃ (procs ++ procs')

namespace BuildContext

/-- The cache that a build starts from. -/
def cacheBefore (c : BuildContext) (env : Environment) (h : Host) : FingerprintCache :=
  .ofFile h.files env.cwd c.fingerprintPath

/-- The host when a build has loaded its cache. -/
def loaded (c : BuildContext) (env : Environment) (h : Host) : Host :=
  ((FingerprintCache.load c.fingerprintPath).runOn env h).2

/-- The turns of a build's compile steps. -/
def planCompileTurns (c : BuildContext) (plan : BuildPlan) (env : Environment) (h : Host) :
    List CompileTurn :=
  c.compileTurns (c.cacheBefore env h) env (c.loaded env h) plan.compileSteps

/-- The turns of a build's link steps: none if a compile step failed. -/
def planLinkTurns (c : BuildContext) (plan : BuildPlan) (env : Environment) (h : Host) :
    List LinkTurn :=
  let outcomes := outcomesOf (c.planCompileTurns plan env h)
  match firstFailure? outcomes with
  | some _ => []
  | none =>
    c.linkTurns (rebuiltTargets outcomes) env (recordOutcomes (c.cacheBefore env h) outcomes)
      (c.afterCompiles (c.cacheBefore env h) env (c.loaded env h) plan.compileSteps) plan.linkSteps

/-- Carrying out a plan takes the course of a build. -/
theorem executes_runOn (c : BuildContext) (plan : BuildPlan) (env : Environment) (h : Host) :
    ∃ procs, Executes env c plan h.files (c.planCompileTurns plan env h) (c.planLinkTurns plan env h)
        ((c.execute plan).runOn env h).1 ((c.execute plan).runOn env h).2.files procs ∧
      ((c.execute plan).runOn env h).2.started = h.started ++ procs := by
  obtain ⟨h₀, hload, hfiles, hstarted⟩ := FingerprintCache.runOn_load c.fingerprintPath env h
  have hloaded : c.loaded env h = h₀ := by rw [loaded, hload]
  obtain ⟨procs, hcomp, hs⟩ := c.compilesAll_turns env h₀ (c.cacheBefore env h)
    plan.compileSteps
  rw [hfiles] at hcomp
  rw [hstarted] at hs
  simp only [execute, planLinkTurns, planCompileTurns, Action.runOn_bind, hload, hloaded]
  rw [← cacheBefore, runOn_compileAll]
  simp only []
  generalize c.compileTurns (c.cacheBefore env h) env h₀ plan.compileSteps = turns at hcomp ⊢
  generalize c.afterCompiles (c.cacheBefore env h) env h₀ plan.compileSteps = h₁ at hcomp hs ⊢
  cases hfirst : firstFailure? (outcomesOf turns) with
  | some e =>
    obtain ⟨hsave, hstart⟩ := FingerprintCache.saves_of_runOn
      (recordOutcomes (c.cacheBefore env h) (outcomesOf turns)) c.fingerprintPath env h₁
    simp only [Action.runOn_bind]
    rcases hw : (FingerprintCache.save _ c.fingerprintPath).runOn env h₁ with ⟨saved, h₂⟩
    rw [hw] at hsave hstart
    have hs₂ : h₂.started = h.started ++ (procs ++ []) := by rw [hstart, hs, List.append_nil]
    have hran : ∃ h' : Host, h'.files = h₁.files ∧ (((recordOutcomes (c.cacheBefore env h)
        (outcomesOf turns)).save c.fingerprintPath).runOn env h').1 = saved := ⟨h₁, rfl, congrArg Prod.fst hw⟩
    refine ⟨procs ++ [], ?_⟩
    cases saved with
    | error f => exact ⟨.mk hcomp (.stopped hfirst) hsave hran, hs₂⟩
    | ok _ => exact ⟨.mk hcomp (.stopped hfirst) hsave hran, hs₂⟩
  | none =>
    obtain ⟨t₁, procs', hall, hs', hend⟩ := c.linksAll_runOn (rebuiltTargets (outcomesOf turns)) env h₁
      (recordOutcomes (c.cacheBefore env h) (outcomesOf turns)) plan.linkSteps
    simp only [Action.runOn_bind]
    generalize hlt : c.linkTurns (rebuiltTargets (outcomesOf turns)) env
      (recordOutcomes (c.cacheBefore env h) (outcomesOf turns)) h₁ plan.linkSteps = links at hall hend ⊢
    rcases hl : (c.linkAll _ _ plan.linkSteps).runOn env h₁ with ⟨r, h₂⟩
    rw [hl] at hs' hend
    have hs₂ : h₂.started = h.started ++ (procs ++ procs') := by rw [hs', hs, List.append_assoc]
    refine ⟨procs ++ procs', ?_⟩
    have hfin := Finishes.linked hfirst hall
    cases ha : artifactsOf links with
    | error e =>
      simp only [ha] at hend hfin
      obtain ⟨saved, hsave, hran, rfl⟩ := hend
      cases saved with
      | error f => exact ⟨.mk hcomp hfin hsave hran, hs₂⟩
      | ok _ => exact ⟨.mk hcomp hfin hsave hran, hs₂⟩
    | ok artifacts =>
      simp only [ha] at hend hfin
      obtain ⟨hf, rfl⟩ := hend
      obtain ⟨hsave, hstart⟩ := FingerprintCache.saves_of_runOn
        (cacheAfterLinks (recordOutcomes (c.cacheBefore env h) (outcomesOf turns)) links)
        c.fingerprintPath env h₂
      simp only []
      rcases hw : (FingerprintCache.save _ c.fingerprintPath).runOn env h₂ with ⟨saved, h₃⟩
      rw [hw, hf] at hsave
      rw [hw, hs₂] at hstart
      cases saved with
      | error f => exact ⟨.mk hcomp hfin hsave ⟨h₂, hf, congrArg Prod.fst hw⟩, hstart⟩
      | ok _ => exact ⟨.mk hcomp hfin hsave ⟨h₂, hf, congrArg Prod.fst hw⟩, hstart⟩

end BuildContext

/-! ### The next build -/

/-- A result that is not the failure to save the cache. -/
def CacheSaved {α : Type} (r : Except Failure α) : Prop :=
  ∀ e, r = .error e → ∀ p, e.during.head? ≠ some (.savingFingerprints p)

/-- Whether a result is the failure to save the cache. -/
def failedToSave {α : Type} : Except Failure α → Bool
  | .ok _ => false
  | .error e =>
    match e.during.head? with
    | some (.savingFingerprints _) => true
    | _ => false

theorem cacheSaved_iff {α : Type} (r : Except Failure α) :
    CacheSaved r ↔ failedToSave r = false := by
  cases r with
  | ok a => exact ⟨fun _ => rfl, fun _ e h => by cases h⟩
  | error e =>
    simp only [failedToSave]
    constructor
    · intro saved
      split
      · rename_i p hp
        exact absurd hp (saved e rfl p)
      · rfl
    · intro h e' he p hp
      injection he with he
      subst he
      rw [hp] at h
      cases h

/-- If the result is not the failure to save the cache, the cache was saved. -/
theorem Executes.saves {env : Environment} {c : BuildContext} {plan : BuildPlan} {t u : FileTree}
    {turns : List CompileTurn} {links : List LinkTurn} {r : Except Failure (List Artifact)}
    {procs : List Invocation} (ex : Executes env c plan t turns links r u procs)
    (saved : CacheSaved r) :
    ∃ t₁, FingerprintCache.Saves env.cwd c.fingerprintPath
      (cacheAfterTurns (.ofFile t env.cwd c.fingerprintPath) turns links) t₁ (.ok ()) u := by
  cases ex with
  | @mk t₁ t₂ t₃ r q procs procs' compiles finishes saves ran =>
    cases q with
    | ok _ => exact ⟨t₂, saves⟩
    | error e =>
      cases saves with
      | refused dirs e => exact absurd rfl (saved _ rfl c.fingerprintPath)
      | part dirs n file e => exact absurd rfl (saved _ rfl c.fingerprintPath)

namespace BuildContext

/-- What a build saves. -/
def cacheRecorded (c : BuildContext) (plan : BuildPlan) (env : Environment) (h : Host) :
    FingerprintCache :=
  cacheAfterTurns (c.cacheBefore env h) (c.planCompileTurns plan env h) (c.planLinkTurns plan env h)

/-- A build finds what the one before saved if nothing was changed since on the way there. -/
theorem runOn_load_of_kept (c : BuildContext) (plan : BuildPlan) (env : Environment) (h : Host)
    (saved : CacheSaved ((c.execute plan).runOn env h).1) {h' : Host}
    (kept : ∀ l ∈ c.fingerprintPath.way env.cwd,
      h'.files.node? l = ((c.execute plan).runOn env h).2.files.node? l) :
    (FingerprintCache.load c.fingerprintPath).runOn env h' = (.ok (c.cacheRecorded plan env h), h') := by
  obtain ⟨procs, ex, -⟩ := c.executes_runOn plan env h
  obtain ⟨t, saves⟩ := ex.saves saved
  have hread := saves.readFile_eq
  apply FingerprintCache.runOn_load_of_readFile
  rw [FileTree.readFile,
    FileTree.openRead_of_same (FileTree.pathExists_of_readFile hread) fun l hl _ => kept l hl]
  exact hread

theorem runOn_load_of_saved (c : BuildContext) (plan : BuildPlan) (env : Environment) (h : Host)
    (saved : CacheSaved ((c.execute plan).runOn env h).1) {h' : Host}
    (files : h'.files = ((c.execute plan).runOn env h).2.files) :
    (FingerprintCache.load c.fingerprintPath).runOn env h' = (.ok (c.cacheRecorded plan env h), h') :=
  c.runOn_load_of_kept plan env h saved fun l _ => by rw [files]

theorem keptAt_of_saved (c : BuildContext) (plan : BuildPlan) (env : Environment) (h : Host)
    (saved : CacheSaved ((c.execute plan).runOn env h).1) :
    FingerprintCache.keptAt ((c.execute plan).runOn env h).2.files (c.fingerprintPath.locate env.cwd) =
      c.cacheRecorded plan env h := by
  obtain ⟨procs, ex, -⟩ := c.executes_runOn plan env h
  obtain ⟨t₁, saves⟩ := ex.saves saved
  exact saves.keptAt_eq

/-- What a build does with the cache that it has loaded. -/
def proceed (c : BuildContext) (cache : FingerprintCache) (plan : BuildPlan) :
    Action (List Artifact) := do
  let outcomes ← c.compileAll cache plan.compileSteps
  let cache := recordOutcomes cache outcomes
  match firstFailure? outcomes with
  | some e =>
    cache.save c.fingerprintPath
    throw e
  | none =>
    let (artifacts, cache) ← c.linkAll (rebuiltTargets outcomes) cache plan.linkSteps
    cache.save c.fingerprintPath
    return artifacts

variable {env : Environment} {h : Host} {cache : FingerprintCache}

/-- A build whose cache is known. -/
theorem runOn_execute_of_load (c : BuildContext) (plan : BuildPlan)
    (load : (FingerprintCache.load c.fingerprintPath).runOn env h = (.ok cache, h)) :
    (c.execute plan).runOn env h = (c.proceed cache plan).runOn env h := by
  have heq : c.execute plan = FingerprintCache.load c.fingerprintPath >>= fun cache =>
    c.proceed cache plan := rfl
  rw [heq, Action.runOn_bind, load]

theorem cacheBefore_of_load (c : BuildContext)
    (load : (FingerprintCache.load c.fingerprintPath).runOn env h = (.ok cache, h)) :
    c.cacheBefore env h = cache := by
  obtain ⟨h', hload, -⟩ := FingerprintCache.runOn_load c.fingerprintPath env h
  rw [hload] at load
  injection load with hr
  injection hr

theorem planCompileTurns_of_load (c : BuildContext) (plan : BuildPlan)
    (load : (FingerprintCache.load c.fingerprintPath).runOn env h = (.ok cache, h)) :
    c.planCompileTurns plan env h = c.compileTurns cache env h plan.compileSteps := by
  rw [planCompileTurns, c.cacheBefore_of_load load, loaded, load]

/-- The turns of a build's link steps if its cache is known. -/
def linkTurnsWith (c : BuildContext) (cache : FingerprintCache) (plan : BuildPlan)
    (env : Environment) (h : Host) : List LinkTurn :=
  let outcomes := outcomesOf (c.compileTurns cache env h plan.compileSteps)
  match firstFailure? outcomes with
  | some _ => []
  | none =>
    c.linkTurns (rebuiltTargets outcomes) env (recordOutcomes cache outcomes)
      (c.afterCompiles cache env h plan.compileSteps) plan.linkSteps

theorem planLinkTurns_of_load (c : BuildContext) (plan : BuildPlan)
    (load : (FingerprintCache.load c.fingerprintPath).runOn env h = (.ok cache, h)) :
    c.planLinkTurns plan env h = c.linkTurnsWith cache plan env h := by
  simp only [planLinkTurns, linkTurnsWith, c.planCompileTurns_of_load plan load,
    c.cacheBefore_of_load load, loaded, load]

theorem cacheRecorded_of_load (c : BuildContext) (plan : BuildPlan)
    (load : (FingerprintCache.load c.fingerprintPath).runOn env h = (.ok cache, h)) :
    c.cacheRecorded plan env h = cacheAfterTurns cache (c.compileTurns cache env h plan.compileSteps)
      (c.linkTurnsWith cache plan env h) := by
  rw [cacheRecorded, c.planCompileTurns_of_load plan load, c.planLinkTurns_of_load plan load,
    c.cacheBefore_of_load load]

end BuildContext

/-! ### Tools that write where they are told to -/

namespace Sample

/-- Where a command writes its result. -/
def resultOf (args : List String) : Option Path :=
  match args.dropWhile (· ≠ "-o") with
  | _ :: output :: _ => some ⟨output⟩
  | _ => none

/-- A compiler and linker that write where they are told to; what is called `bad` does not
    compile. -/
def tellingRun (bad : String) : Runner := fun t i =>
  let exit := if bad ∈ i.command.args then 1 else 0
  match resultOf i.command.args with
  | some p => (.ok ⟨some exit, "", ""⟩, t.set (p.locate []) (.file "made".toUTF8 false))
  | none => (.ok ⟨some exit, "", ""⟩, t)

def tellingEnvironment (bad : String) : Environment :=
  { (default : Environment) with run := tellingRun bad }

/-- A compiler and linker that write where they are told to, if they can, and leave
    everything else alone; what is called `bad` does not compile. -/
def writingRun (bad : String) : Runner := fun t i =>
  if bad ∈ i.command.args then (.ok ⟨some 1, "", ""⟩, t)
  else
    match resultOf i.command.args with
    | some p =>
      match t.writeFile [] p "made".toUTF8 with
      | .ok u => (.ok ⟨some 0, "", ""⟩, u)
      | .error _ => (.ok ⟨some 1, "", ""⟩, t)
    | none => (.ok ⟨some 1, "", ""⟩, t)

def writingEnvironment (bad : String) : Environment :=
  { (default : Environment) with run := writingRun bad }

end Sample

end GrammarBuild
