import GrammarBuild.Project.Load
import GrammarBuild.Settings.Writer

/-
  GrammarBuild/Settings/Load.lean
  ===============================
  **Settings on disk** — the user's file is read first, then the project's, which
  wins.  A file that is missing sets nothing, and a file that cannot be read is passed
  over with a warning.
-/

namespace GrammarBuild

/-- The result of an action on a settings file, or `default` and a warning. -/
def orWarn {α : Type} (p : Path) (default : α) (x : Action α) : Action α := do
  if !(← Action.pathExists p) then return default
  match ← Action.attempt x with
  | .ok s => return s
  | .error e =>
    Action.log .warn ("ignoring " ++ p.text ++ ": " ++ e.message)
    return default

namespace BuildSettings

def load (p : Path) : Action BuildSettings := do
  let text ← Action.within (.readingConfig p) (Action.readText p)
  Action.within (.parsingConfig p) (Action.ofExcept (Failure.lift .document (read text)))

/-- The settings of both files. -/
def loadBoth (user project : Path) : Action BuildSettings := do
  let s ← orWarn user {} (load user)
  let t ← orWarn project {} (load project)
  return (({} : BuildSettings).merge s).merge t

end BuildSettings

namespace ToolchainSettings

def load (p : Path) : Action ToolchainSettings := do
  let text ← Action.within (.readingToolchainConfig p) (Action.readText p)
  Action.within (.parsingToolchainConfig p)
    (Action.ofExcept (Failure.lift .document (read text)))

/-- The settings of both files. -/
def loadBoth (user project : Path) : Action ToolchainSettings := do
  let s ← orWarn user {} (load user)
  let t ← orWarn project {} (load project)
  return (({} : ToolchainSettings).merge s).merge t

def save (s : ToolchainSettings) (p : Path) : Action Unit := Action.writeString p s.write

/-- The settings for a workspace, its compiler taken from the project's root. -/
def forWorkspace (w : Workspace) : Action ToolchainSettings := do
  let s ← loadBoth (Caller.toolchainConfigPath (← readThe Environment)) w.toolchainConfigPath
  return s.anchoredAt w.root

end ToolchainSettings

end GrammarBuild
