import GrammarBuild.Project.Discovery
import GrammarBuild.Workspace

/-
  GrammarBuild/Project/Load.lean
  ==============================
  **Loading a project** — the manifest is read from its file, and the directory that
  holds the file, made absolute, is the root of everything that is relative in it.
-/

namespace GrammarBuild

/-- The directory that holds a manifest, as an absolute path. -/
def Manifest.dirOf (p : Path) : Action Path := do
  let absolute := p.absoluteFrom ⟨(← read).cwd.text⟩
  return absolute.parent?.getD absolute

/-- The manifest in a file. -/
def Manifest.load (p : Path) : Action Manifest := do
  let text ← Action.within (.readingManifest p) (Action.readText p)
  let dir ← Manifest.dirOf p
  Action.within (.parsingManifest p) (Action.ofExcept (Manifest.parse text dir))

/-- The workspace of a manifest, for the debug profile. -/
def Workspace.load (p : Path) : Action Workspace := do
  return { manifest := ← Manifest.load p }

/-- The sources must be there, and must be regular files; those that are wrong in the
    first place are reported in declared order. -/
def Target.checkSources (t : Target) (root : Path) : List Path → Action Unit
  | [] => return ()
  | s :: ss => do
    let full := root.join s
    if !(← Action.pathExists full) then Action.fail (.target (.sourceNotFound t.name s))
    if !(← Action.isFile full) then Action.fail (.target (.sourceNotFile t.name s))
    checkSources t root ss

/-- The sources of a target, as they are declared, once all of them are found. -/
def Target.resolveSources (t : Target) (root : Path) : Action (List Path) := do
  Action.ofExcept (Failure.lift .target t.validate)
  t.checkSources root t.sources
  return t.sources

end GrammarBuild
