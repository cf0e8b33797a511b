import GrammarBuild.Build.Execute
import GrammarBuild.Build.Options
import GrammarBuild.Settings.Load
import GrammarBuild.Toolchain.Detect

/-
  GrammarBuild/Build/Run.lean
  ===========================
  **Building a project** — from a manifest's path and the options of a build to its
  modules, or to the plan alone.

  Everything that can be checked without a compiler is checked before one is looked
  for: the manifest, the profile, the targets' names, and then whether all sources are
  there.
-/

namespace GrammarBuild

/-- The workspace and the settings of a build.  Its profile must exist. -/
def loadWorkspace (manifestPath : Path) (o : BuildOptions) :
    Action (Workspace × BuildSettings) := do
  let w ← Workspace.load manifestPath
  let s ← BuildSettings.loadBoth (Caller.configPath (← read)) w.configPath
  let w := w.withProfile (o.profileName s)
  let _ ← Action.ofExcept w.profile
  return (w, s)

/-- The context of a workspace with the toolchain that its settings lead to. -/
def BuildContext.detect (w : Workspace) (s : ToolchainSettings) : Action BuildContext := do
  let toolchain ← Toolchain.detect s
  Action.ofExcept (BuildContext.of w toolchain s)

/-- The commands of a plan, written down for editors. -/
def BuildPlan.emitCompileCommands (plan : BuildPlan) (p : Path) : Action Unit := do
  Action.within (.writing p) (Action.writeString p plan.compileCommands)
  Action.log .info ("wrote " ++ p.text)

/-- A plan is carried out, and the person at the terminal told of it. -/
def BuildContext.executeAndReport (c : BuildContext) (verbose : Bool) (plan : BuildPlan) :
    Action (List Artifact) := do
  let compiles := toString plan.compileSteps.length
  let links := toString plan.linkSteps.length
  if verbose then
    Action.tell (.status ("   Compiling " ++ compiles ++ " file(s)"))
    Action.tell (.status ("     Linking " ++ links ++ " module(s)"))
  modify fun h => { h with progress := {} }
  let result ← Action.attempt (c.execute plan)
  let done := (← get).progress
  Action.log .debug
    (toString done.compiled ++ "/" ++ compiles ++ " compile and " ++ toString done.linked ++ "/"
      ++ links ++ " link step(s) done")
  let artifacts ← Action.ofExcept result
  let fresh := (artifacts.filter Artifact.fresh).length
  Action.tell (.status
    ("    Finished `" ++ c.profileName ++ "` profile: " ++ toString artifacts.length
      ++ " module(s) (" ++ toString fresh ++ " fresh) in 0.00s"))
  return artifacts

/-- What a build gives: its modules, or the plan if only that was wanted. -/
structure BuildResult where
  artifacts : List Artifact
  plan : Option BuildPlan
deriving DecidableEq, Repr

/-- The project of a manifest is built. -/
def build (manifestPath : Path) (o : BuildOptions) : Action BuildResult := do
  let (w, settings) ← loadWorkspace manifestPath o
  let targets ← Action.ofExcept (w.manifest.select o.targets)
  targets.forM fun t => do
    let _ ← t.resolveSources w.root
  let c ← BuildContext.detect w (← ToolchainSettings.forWorkspace w)
  Action.log .debug
    ("using " ++ c.toolchain.platform ++ " (" ++ c.toolchain.compiler.text ++ ") for `"
      ++ c.profileName ++ "` profile")
  let plan ← Action.ofExcept (BuildPlan.ofTargets c targets)
  if o.emitCompileCommands || settings.emitCompileCommands then
    plan.emitCompileCommands w.compileCommandsPath
  if o.planOnly then return { artifacts := [], plan := some plan }
  return { artifacts := ← c.executeAndReport o.verbose plan, plan := none }

end GrammarBuild
