import GrammarBuild.Host.Action
import GrammarBuild.Manifest.Basic

/-
  GrammarBuild/Project/Discovery.lean
  ===================================
  **Finding the project** — the tool can be called anywhere in a project: the manifest
  is looked for in the caller's directory, then in the directory around it, and so on.
-/

namespace GrammarBuild

/-- Who called the tool: from where, and how the answer is to be shown. -/
structure Caller where
  cwd : Path
  verbose : Bool := false
  color : Bool := true
deriving DecidableEq, Repr

namespace Caller

/-- The user's `config.toml`. -/
def configPath (env : Environment) : Path := env.configHome.child "config.toml"

/-- The user's `toolchain.toml`. -/
def toolchainConfigPath (env : Environment) : Path := env.configHome.child "toolchain.toml"

end Caller

/-- The manifest in a directory, if there is one. -/
def manifestIn? (dir : Path) : Action (Option Path) := do
  let p := dir.child Manifest.fileName
  return if ← Action.isFile p then some p else none

/-- The manifest in a directory or the nearest one around it. -/
def nearestManifest? (dir : Path) : Action (Option Path) := do
  match ← manifestIn? dir with
  | some p => return some p
  | none =>
    match _h : dir.parent? with
    | some parent => nearestManifest? parent
    | none => return none
termination_by dir.components.length
decreasing_by
  rw [Path.components_parent? _h, List.length_dropLast]
  have := List.length_pos_iff.2 (Path.components_ne_nil_of_parent? _h)
  omega

/-- The manifest of the project in which the tool is called. -/
def Caller.findManifest (c : Caller) : Action Path := do
  match ← nearestManifest? c.cwd with
  | some p => return p
  | none => Action.fail (.noManifest c.cwd)

end GrammarBuild
