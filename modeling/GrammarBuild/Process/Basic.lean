import GrammarBuild.Host.Fault
import GrammarBuild.Host.FileTree
import GrammarBuild.Toolchain.Command

/-
  GrammarBuild/Process/Basic.lean
  ===============================
  **Processes** — a command that runs to its end, what it leaves, and how it came
  out.

  What running a command does is not for this library to say: it is a `Runner`, any
  function from the files before to the outcome and the files after.
-/

namespace GrammarBuild

/-- A command and the directory it runs in, if not the tool's own. -/
structure Invocation where
  command : Command
  dir : Option Path
deriving DecidableEq, Repr

/-- How a process came out; one that was killed has no exit code. -/
structure Completed where
  code : Option Nat
  stdout : String
  stderr : String
deriving DecidableEq, Repr

def Completed.succeeded (c : Completed) : Bool := c.code == some 0

/-- What running commands does.  A process that cannot be started is a fault. -/
abbrev Runner := FileTree → Invocation → Except HostFault Completed × FileTree

end GrammarBuild
