import GrammarBuild.Build.Cache

/-
  GrammarBuild/Build/Execute.lean
  ===============================
  **Carrying out a plan** — every compile step is attempted, then, if none failed,
  the targets are linked in the plan's order up to the first that fails.  A step whose
  result is there and was made under the same fingerprint is fresh and runs nothing.

  The fingerprints of the steps that succeeded are recorded in any case, those of the
  others keep what was recorded before.  Of several compile steps that fail, the first
  in the plan gives the error.
-/

namespace GrammarBuild

/-- A built module. -/
structure Artifact where
  target : String
  path : Path
  /-- Nothing had to be run for it. -/
  fresh : Bool
deriving DecidableEq, Repr

/-- What is known of a compile step that is done. -/
structure Compiled where
  fingerprint : CompileFingerprint
  fresh : Bool
deriving DecidableEq, Repr

namespace BuildContext

/-- The directory around a step's result is made if it is missing. -/
def prepareOutput (output : Path) : Action Unit := do
  match output.parent? with
  | some dir => Action.ensureDir dir
  | none => return ()

/-! ### Compiling -/

/-- What a compile step depends on now, and whether its object is up to date. -/
def inspect (c : BuildContext) (cache : FingerprintCache) (s : CompileStep) :
    Action Compiled := do
  let fingerprint ← Action.within (.readingSource s.source)
    (CompileFingerprint.ofStep c.root s c.toolchain.identity)
  return { fingerprint, fresh := !(← cache.needsCompile s.output fingerprint) }

/-- The compiler is run. -/
def runCompile (c : BuildContext) (s : CompileStep) : Action Unit := do
  prepareOutput s.output
  Action.log .debug ("compiling " ++ s.source.text ++ " -> " ++ s.output.text)
  let _ ← Action.within (.compiling s.target s.source)
    (Action.execAndCheck s.command (some c.root))

/-- A compile step is carried out unless its object is fresh. -/
def compile (c : BuildContext) (cache : FingerprintCache) (s : CompileStep) :
    Action Compiled := do
  let compiled ← c.inspect cache s
  if compiled.fresh then Action.log .debug ("fresh: " ++ s.source.text) else c.runCompile s
  modify fun h => { h with progress := h.progress.addCompiled }
  return compiled

/-- A compile step and how it came out. -/
abbrev CompileOutcome := CompileStep × Except Failure Compiled

/-- Every compile step is attempted, also after one has failed. -/
def compileAll (c : BuildContext) (cache : FingerprintCache) (steps : List CompileStep) :
    Action (List CompileOutcome) :=
  steps.mapM fun s => return (s, ← Action.attempt (c.compile cache s))

/-- The cache with the fingerprints of the steps that succeeded. -/
def recordOutcomes (cache : FingerprintCache) (outcomes : List CompileOutcome) :
    FingerprintCache :=
  outcomes.foldl (fun cache (s, r) =>
    match r with
    | .ok compiled => cache.recordCompile s.output compiled.fingerprint
    | .error _ => cache) cache

/-- The failure of the first step that failed. -/
def firstFailure? (outcomes : List CompileOutcome) : Option Failure :=
  outcomes.findSome? fun (_, r) =>
    match r with
    | .ok _ => none
    | .error e => some e

/-- The targets for which a compiler was run. -/
def rebuiltTargets (outcomes : List CompileOutcome) : List String :=
  outcomes.filterMap fun (s, r) =>
    match r with
    | .ok compiled => if compiled.fresh then none else some s.target
    | .error _ => none

/-! ### Linking -/

/-- A target is linked unless its module is fresh; `rebuilt` holds if one of its
    objects was compiled in this build. -/
def link (c : BuildContext) (cache : FingerprintCache) (rebuilt : Bool) (s : LinkStep) :
    Action (Artifact × FingerprintCache) := do
  let fingerprint ← LinkFingerprint.ofStep s
  let stale ← if rebuilt then pure true else cache.needsLink s.target s.output fingerprint
  if stale then do
    prepareOutput s.output
    Action.log .debug ("linking " ++ s.output.text)
    let _ ← Action.within (.linking s.target) (Action.execAndCheck s.command (some c.root))
  else Action.log .debug ("fresh: " ++ s.output.text)
  modify fun h => { h with progress := h.progress.addLinked }
  return ({ target := s.target, path := s.output, fresh := !stale },
    cache.recordLink s.target fingerprint)

/-- The targets are linked one after the other.  The first failure ends it, and what
    was recorded until then is saved. -/
def linkAll (c : BuildContext) (rebuilt : List String) :
    FingerprintCache → List LinkStep → Action (List Artifact × FingerprintCache)
  | cache, [] => return ([], cache)
  | cache, s :: ss => do
    match ← Action.attempt (c.link cache (rebuilt.contains s.target) s) with
    | .error e =>
      cache.save c.fingerprintPath
      throw e
    | .ok (artifact, cache) =>
      let (artifacts, cache) ← c.linkAll rebuilt cache ss
      return (artifact :: artifacts, cache)

/-! ### The whole plan -/

/-- A plan is carried out. -/
def execute (c : BuildContext) (plan : BuildPlan) : Action (List Artifact) := do
  let cache ← FingerprintCache.load c.fingerprintPath
  let outcomes ← c.compileAll cache plan.compileSteps
  let cache := recordOutcomes cache outcomes
  match firstFailure? outcomes with
  | some e =>
    cache.save c.fingerprintPath
    throw e
  | none =>
    let (artifacts, cache) ← c.linkAll (rebuiltTargets outcomes) cache plan.linkSteps
    cache.save c.fingerprintPath
    return artifacts

end BuildContext

end GrammarBuild
