import GrammarBuild.Proofs.Phases

/-
  GrammarBuild/Proofs/Schedules.lean
  ==================================
  **Compile steps at the same time** — a compile step is cut into what it does without
  interruption: it looks at what it depends on, makes the directory for its object, and
  runs the compiler (`Stage`, `advance`).  A schedule says in which order the steps of a
  plan get their turns (`executeBy`).

  A step that was taken further comes to what it would have come to (`finish_advance`),
  and `execute` is the schedule in which each step is carried out at once
  (`execute_eq_executeBy`).
-/

namespace GrammarBuild

/-- How far a compile step is. -/
inductive Stage where
  | waiting
  /-- The object has to be compiled. -/
  | stale (d : Compiled)
  /-- The directory for the object is there. -/
  | ready (d : Compiled)
  | done (r : Except Failure Compiled)

namespace BuildContext

/-! ### Stages -/

/-- The compiler is started. -/
def startCompiler (c : BuildContext) (s : CompileStep) : Action Unit := do
  Action.log .debug ("compiling " ++ s.source.text ++ " -> " ++ s.output.text)
  let _ ← Action.within (.compiling s.target s.source)
    (Action.execAndCheck s.command (some c.root))

/-- One more compile step is done. -/
def countCompiled : Action Unit := modify fun h => { h with progress := h.progress.addCompiled }

/-- A compile step goes from one stage to the next. -/
def advance (c : BuildContext) (cache : FingerprintCache) (s : CompileStep) :
    Stage → Action Stage
  | .waiting => do
    match ← Action.attempt (c.inspect cache s) with
    | .error e => return .done (.error e)
    | .ok d =>
      if d.fresh then
        Action.log .debug ("fresh: " ++ s.source.text)
        countCompiled
        return .done (.ok d)
      else return .stale d
  | .stale d => do
    match ← Action.attempt (prepareOutput s.output) with
    | .error e => return .done (.error e)
    | .ok _ => return .ready d
  | .ready d => do
    match ← Action.attempt (c.startCompiler s) with
    | .error e => return .done (.error e)
    | .ok _ =>
      countCompiled
      return .done (.ok d)
  | .done r => return .done r

/-- What is left of a compile step is carried out. -/
def finish (c : BuildContext) (cache : FingerprintCache) (s : CompileStep) :
    Stage → Action (Except Failure Compiled)
  | .waiting => Action.attempt (c.compile cache s)
  | .stale d => Action.attempt do
    c.runCompile s
    countCompiled
    return d
  | .ready d => Action.attempt do
    c.startCompiler s
    countCompiled
    return d
  | .done r => return r

/-! ### Schedules -/

/-- A compile step under way. -/
abbrev Thread := CompileStep × Stage

/-- It is the turn of the step at a place of the plan. -/
def advanceAt (c : BuildContext) (cache : FingerprintCache) (threads : List Thread) (i : Nat) :
    Action (List Thread) :=
  match threads[i]? with
  | none => return threads
  | some (s, g) => do return threads.set i (s, ← c.advance cache s g)

/-- A step under way is carried out to its end. -/
def finishThread (c : BuildContext) (cache : FingerprintCache) (thread : Thread) :
    Action CompileOutcome := do
  return (thread.1, ← c.finish cache thread.1 thread.2)

/-- The steps get their turns as the schedule says; what is left then is carried out in
    the order of the plan. -/
def compileBy (c : BuildContext) (cache : FingerprintCache) (steps : List CompileStep)
    (schedule : List Nat) : Action (List CompileOutcome) := do
  let threads ← schedule.foldlM (c.advanceAt cache) (steps.map fun s => (s, .waiting))
  threads.mapM (c.finishThread cache)

/-- What a build does when its compile steps are done. -/
def conclude (c : BuildContext) (plan : BuildPlan) (cache : FingerprintCache)
    (outcomes : List CompileOutcome) : Action (List Artifact) := do
  let cache := recordOutcomes cache outcomes
  match firstFailure? outcomes with
  | some e =>
    cache.save c.fingerprintPath
    throw e
  | none =>
    let (artifacts, cache) ← c.linkAll (rebuiltTargets outcomes) cache plan.linkSteps
    cache.save c.fingerprintPath
    return artifacts

/-- A plan is carried out, its compile steps by a schedule. -/
def executeBy (c : BuildContext) (plan : BuildPlan) (schedule : List Nat) :
    Action (List Artifact) := do
  let cache ← FingerprintCache.load c.fingerprintPath
  c.conclude plan cache (← c.compileBy cache plan.compileSteps schedule)

variable {env : Environment} {h : Host}

theorem runOn_startCompiler (c : BuildContext) (s : CompileStep) :
    (c.startCompiler s).runOn env h =
      ((Failure.within (.compiling s.target s.source)
          (checked s.command (env.run h.files (c.compileCall s)).1)).map fun _ => (),
        { h with
          events := h.events ++
            [.log .debug ("compiling " ++ s.source.text ++ " -> " ++ s.output.text)] ++
            [.started (c.compileCall s)]
          files := (env.run h.files (c.compileCall s)).2 }) := by
  simp only [startCompiler, Action.runOn_bind, Action.runOn_log, Action.runOn_within,
    runOn_execAndCheck, compileCall]
  cases checked s.command (env.run h.files ⟨s.command, some c.root⟩).1 with
  | error e => rfl
  | ok done => rfl

/-- The compiler is run when the directory is there. -/
theorem runCompile_eq (c : BuildContext) (s : CompileStep) :
    c.runCompile s = prepareOutput s.output >>= fun _ => c.startCompiler s := rfl

/-- A step that is taken further first is finished as it would have been. -/
theorem finish_advance (c : BuildContext) (cache : FingerprintCache) (s : CompileStep) (g : Stage) :
    (c.advance cache s g >>= c.finish cache s).runOn env h = (c.finish cache s g).runOn env h := by
  cases g with
  | done r => rfl
  | ready d =>
    simp only [advance, finish, Action.runOn_bind, Action.runOn_attempt]
    rcases (c.startCompiler s).runOn env h with ⟨r, h'⟩
    cases r with
    | error e => rfl
    | ok _ => rfl
  | stale d =>
    simp only [advance, finish, runCompile_eq, Action.runOn_bind, Action.runOn_attempt]
    rcases (prepareOutput s.output).runOn env h with ⟨r, h'⟩
    cases r with
    | error e => rfl
    | ok _ =>
      simp only [Action.runOn_pure, Action.runOn_attempt, Action.runOn_bind]
  | waiting =>
    simp only [advance, finish, compile, Action.runOn_bind, Action.runOn_attempt]
    rcases (c.inspect cache s).runOn env h with ⟨r, h'⟩
    cases r with
    | error e => rfl
    | ok d =>
      cases hd : d.fresh with
      | true =>
        simp only [hd, if_true]
        rfl
      | false =>
        simp only [hd, Bool.false_eq_true, if_false, Action.runOn_pure, Action.runOn_attempt,
          Action.runOn_bind]
        rfl

theorem runOn_finishThread (c : BuildContext) (cache : FingerprintCache) (s : CompileStep)
    (g : Stage) :
    (c.finishThread cache (s, g)).runOn env h =
      match (c.finish cache s g).runOn env h with
      | (.ok r, h') => (.ok (s, r), h')
      | (.error e, h') => (.error e, h') := by
  rw [finishThread, Action.runOn_bind]
  rcases (c.finish cache s g).runOn env h with ⟨r, h'⟩
  cases r with
  | error e => rfl
  | ok _ => rfl

/-- Without a schedule the steps are carried out one after the other. -/
theorem compileBy_nil (c : BuildContext) (cache : FingerprintCache) (steps : List CompileStep) :
    (c.compileBy cache steps []).runOn env h = (c.compileAll cache steps).runOn env h := by
  have heq : (c.compileBy cache steps []).runOn env h =
      ((steps.map fun s => (s, Stage.waiting)).mapM (c.finishThread cache)).runOn env h := rfl
  rw [heq, compileAll]
  clear heq
  induction steps generalizing h with
  | nil => rfl
  | cons s ss ih =>
    rw [List.map_cons, List.mapM_cons, List.mapM_cons]
    simp only [Action.runOn_bind, Action.runOn_pure, runOn_finishThread, finish,
      Action.runOn_attempt, ih]

theorem execute_eq_executeBy (c : BuildContext) (plan : BuildPlan) :
    (c.execute plan).runOn env h = (c.executeBy plan []).runOn env h := by
  have heq : c.execute plan = FingerprintCache.load c.fingerprintPath >>= fun cache =>
    c.compileAll cache plan.compileSteps >>= c.conclude plan cache := rfl
  have heq' : c.executeBy plan [] = FingerprintCache.load c.fingerprintPath >>= fun cache =>
    c.compileBy cache plan.compileSteps [] >>= c.conclude plan cache := rfl
  rw [heq, heq', Action.runOn_bind, Action.runOn_bind]
  rcases (FingerprintCache.load c.fingerprintPath).runOn env h with ⟨r, h'⟩
  cases r with
  | error e => rfl
  | ok cache => simp only [Action.runOn_bind, compileBy_nil]

end BuildContext

end GrammarBuild
