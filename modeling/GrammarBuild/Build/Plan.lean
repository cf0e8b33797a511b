import GrammarBuild.Build.Context
import GrammarBuild.Digest.Components

/-
  GrammarBuild/Build/Plan.lean
  ============================
  **Build plans** — for every target one compile step per source, in declared order,
  and one link step.  A step carries its whole command, so that a plan can be
  printed, handed to an editor, or carried out, and all three show the same commands.
-/

namespace GrammarBuild

/-- One source to be compiled. -/
structure CompileStep where
  target : String
  /-- As declared. -/
  source : Path
  output : Path
  /-- As declared. -/
  includeDirs : List Path
  command : Command
deriving DecidableEq, Repr

/-- One module to be linked. -/
structure LinkStep where
  target : String
  objects : List Path
  output : Path
  command : Command
deriving DecidableEq, Repr

/-- Everything that a build of some targets does. -/
structure BuildPlan where
  profile : String
  /-- Where every command runs. -/
  root : Path
  compileSteps : List CompileStep
  linkSteps : List LinkStep
deriving DecidableEq, Repr

namespace BuildContext

/-- An object's name: the source's stem, a digest of its path, the ending. -/
def objectName (source : Path) (ending : String) : String :=
  source.fileStem?.getD "source" ++ "-" ++ Digest.ofPath source ++ "." ++ ending

/-- Where the object of one of a target's sources is written. -/
def objectPath (c : BuildContext) (t : Target) (source : Path) : Path :=
  (c.objectDir t).child (objectName source c.toolchain.objectEnding)

/-- The step that compiles one of a target's sources. -/
def compileStep (c : BuildContext) (t : Target) (source : Path) : CompileStep :=
  let output := c.objectPath t source
  { target := t.name, source, output, includeDirs := t.includeDirs
    command := c.toolchain.compileCommand
      { source, output, includeDirs := t.includeDirs, definitions := t.definitions,
        flags := c.compileFlags t } }

def compileSteps (c : BuildContext) (t : Target) : List CompileStep :=
  t.sources.map (c.compileStep t)

/-- The step that links a target's objects. -/
def linkStep (c : BuildContext) (t : Target) : LinkStep :=
  let objects := t.sources.map (c.objectPath t)
  let output := c.modulePath t
  { target := t.name, objects, output
    command := c.toolchain.linkCommand { objects, output, flags := c.linkFlags t } }

end BuildContext

namespace BuildPlan

/-- The plan for some targets, all of which must be valid. -/
def ofTargets (c : BuildContext) (ts : List Target) : Except Failure BuildPlan := do
  Failure.lift .target (ts.forM Target.validate)
  pure { profile := c.profileName, root := c.root
         compileSteps := ts.flatMap c.compileSteps
         linkSteps := ts.map c.linkStep }

/-- The compile steps of one target. -/
def compileStepsFor (p : BuildPlan) (target : String) : List CompileStep :=
  p.compileSteps.filter fun s => s.target == target

/-- The link step of one target. -/
def linkStepFor? (p : BuildPlan) (target : String) : Option LinkStep :=
  p.linkSteps.find? fun s => s.target == target

end BuildPlan

/-! ### Written form -/

def CompileStep.toJson (s : CompileStep) : Json :=
  .ofMembers
    [("target", .string s.target), ("source", .string s.source.text),
     ("output", .string s.output.text),
     ("include_dirs", .ofStrings (s.includeDirs.map Path.text)),
     ("command", s.command.toJson)]

def LinkStep.toJson (s : LinkStep) : Json :=
  .ofMembers
    [("target", .string s.target), ("objects", .ofStrings (s.objects.map Path.text)),
     ("output", .string s.output.text), ("command", s.command.toJson)]

namespace BuildPlan

def toJson (p : BuildPlan) : Json :=
  .ofMembers
    [("profile", .string p.profile), ("root", .string p.root.text),
     ("compile_steps", .array (p.compileSteps.map CompileStep.toJson)),
     ("link_steps", .array (p.linkSteps.map LinkStep.toJson))]

/-- What an editor is told about one compile step. -/
def editorEntry (p : BuildPlan) (s : CompileStep) : Json :=
  .ofMembers
    [("directory", .string p.root.text), ("file", .string s.source.text),
     ("arguments", .ofStrings s.command.argv), ("output", .string s.output.text)]

/-- The text of `compile_commands.json`. -/
def compileCommands (p : BuildPlan) : String :=
  (Json.array (p.compileSteps.map p.editorEntry)).pretty

end BuildPlan

end GrammarBuild
