import GrammarBuild.Host.Action
import GrammarBuild.Manifest.Basic

/-
  GrammarBuild/Project/Init.lean
  ==============================
  **Starting a project** — a first manifest for a grammar package, and an entry in
  `.gitignore` for what builds make.  A manifest that is there is never overwritten.
-/

namespace GrammarBuild

/-! ### The entry in `.gitignore` -/

namespace Gitignore

/-- Whether a line is the entry. -/
def isEntry (line : String) : Bool :=
  Text.trim line == ".october/" || Text.trim line == ".october"

/-- What is added to a text without the entry. -/
def addition : String := "# october-build output\n.october/\n"

/-- A text with its last line ended. -/
def complete (text : String) : String :=
  if text.isEmpty || text.toList.getLast? == some '\n' then text else text ++ "\n"

/-- A text with the entry, which is added at its end if no line is the entry yet. -/
def withEntry (text : String) : String :=
  if (Text.lines text).any isEntry then text else complete text ++ addition

end Gitignore

/-- The project's `.gitignore` gets the entry. -/
def ensureGitignore (dir : Path) : Action Unit := do
  let p := dir.child ".gitignore"
  let existing ←
    if ← Action.pathExists p then Action.within (.reading p) (Action.readText p) else pure ""
  if (Text.lines existing).any Gitignore.isEntry then return ()
  Action.within (.writing p) (Action.writeText p (Gitignore.withEntry existing))

/-! ### The manifest -/

/-- What was written. -/
structure InitResult where
  manifest : Path
  package : String
  moduleName : String
  /-- A scanner was found and listed as a source. -/
  withScanner : Bool
deriving DecidableEq, Repr

/-- The name of a directory, wherever it is. -/
def directoryName (dir : Path) : Action String := do
  let canonical ← Action.within (.resolving dir) (Action.canonical dir)
  match canonical.fileName? with
  | some name => return name
  | none => Action.fail (.noPackageName dir)

/-- A project is started in a directory, which is made if it is missing.  Without a
    name the package is called after the directory. -/
def initProject (dir : Path) (name : Option String) : Action InitResult := do
  Action.ensureDir dir
  let manifest := dir.child Manifest.fileName
  if ← Action.pathExists manifest then Action.fail (.manifestExists dir)
  let package ← match name with
    | some n => pure n
    | none => directoryName dir
  let moduleName := Manifest.moduleNameFor package
  let target : Target := { name := moduleName, sources := [⟨"src/parser.c"⟩] }
  Action.ofExcept (Failure.lift .target target.validateName)
  let withScanner ← Action.isFile ((dir.child "src").child "scanner.c")
  Action.within (.writing manifest)
    (Action.writeText manifest (Manifest.generate package moduleName withScanner))
  ensureGitignore dir
  Action.log .debug ("wrote " ++ manifest.text)
  return { manifest, package, moduleName, withScanner }

end GrammarBuild
