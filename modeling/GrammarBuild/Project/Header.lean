import GrammarBuild.Project.Load

/-
  GrammarBuild/Project/Header.lean
  ================================
  **C headers of a project** — one for each selected target, declaring its entry point.
-/

namespace GrammarBuild

/-- Where headers go if no directory is given, relative to the root. -/
def headerDir : String := "bindings/c"

/-- The header of one target is written to a directory. -/
def writeHeader (dir : Path) (t : Target) : Action Path := do
  let p := dir.child t.grammar.headerFileName
  Action.within (.writingHeader t.name) (Action.writeString p t.grammar.header)
  Action.log .debug ("wrote " ++ p.text)
  return p

/-- The headers of the targets that a filter selects; their paths in that order. -/
def writeHeaders (manifestPath : Path) (filter : List String) (output : Option Path) :
    Action (List Path) := do
  let w ← Workspace.load manifestPath
  let targets ← Action.ofExcept (w.manifest.select filter)
  targets.mapM (writeHeader (output.getD (w.root.child headerDir)))

end GrammarBuild
