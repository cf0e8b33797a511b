import GrammarBuild.Project.Load

/-
  GrammarBuild/Project/Clean.lean
  ===============================
  **Removing what builds made** — the output of all profiles, or everything that the
  tool keeps for the project, its settings included.
-/

namespace GrammarBuild

/-- The directory that was removed, if it was there. -/
def clean (manifestPath : Path) (all : Bool) : Action (Option Path) := do
  let w ← Workspace.load manifestPath
  let dir := if all then w.projectDir else w.targetDir
  if !(← Action.pathExists dir) then return none
  Action.removeDirIfExists dir
  Action.log .debug ("removed " ++ dir.text)
  return some dir

end GrammarBuild
