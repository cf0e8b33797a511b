import GrammarBuild.Json.Writer
import GrammarBuild.Path.Basic

/-
  GrammarBuild/Toolchain/Command.lean
  ===================================
  **Commands** — a program and its arguments, in the order in which it gets them.
-/

namespace GrammarBuild

structure Command where
  program : Path
  args : List String
deriving DecidableEq, Repr

namespace Command

/-- The program followed by its arguments. -/
def argv (c : Command) : List String := c.program.text :: c.args

/-- The command as one line. -/
def text (c : Command) : String := String.intercalate " " c.argv

def toJson (c : Command) : Json :=
  .ofMembers [("program", .string c.program.text), ("args", .ofStrings c.args)]

end Command

end GrammarBuild
