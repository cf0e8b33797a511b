import GrammarBuild.Build.Run

/-
  GrammarBuild/Build/Flags.lean
  =============================
  **The commands for one target** — those that a build of any selection with this
  target would run for it, whether or not its sources are there.
-/

namespace GrammarBuild

structure TargetCommands where
  target : String
  compile : List CompileStep
  link : LinkStep
deriving DecidableEq, Repr

namespace TargetCommands

/-- The commands of a declared target. -/
def of (c : BuildContext) (m : Manifest) (name : String) : Except Failure TargetCommands := do
  let t ← m.findTarget name
  let plan ← BuildPlan.ofTargets c [t]
  match plan.linkStepFor? name with
  | some link => pure { target := name, compile := plan.compileStepsFor name, link }
  | none => throw (.of (.unknownTarget name m.targetNames))

end TargetCommands

/-- The commands of a project's target.  Its name is looked up before a compiler is. -/
def flags (manifestPath : Path) (target : String) (o : BuildOptions) :
    Action TargetCommands := do
  let (w, _) ← loadWorkspace manifestPath o
  let _ ← Action.ofExcept (w.manifest.findTarget target)
  let c ← BuildContext.detect w (← ToolchainSettings.forWorkspace w)
  Action.ofExcept (TargetCommands.of c w.manifest target)

end GrammarBuild
