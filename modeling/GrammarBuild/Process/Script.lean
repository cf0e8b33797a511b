import GrammarBuild.Host.Files
import GrammarBuild.Json.Reader
import GrammarBuild.Process.Basic
import GrammarBuild.Process.Interpreter
import GrammarBuild.Process.Search

/-
  GrammarBuild/Process/Script.lean
  ================================
  **Scripted tools** — executable files that stand in for a compiler or linker and
  say themselves what they do: what they call their version, on which argument or
  how they fail, what they print, and what they write to their output.

  `Script.runner` runs them, and nothing else: a file that neither is a script nor names
  an interpreter that leads to one is not in a format that can be executed.
-/

namespace GrammarBuild

structure Script where
  version : String := ""
  versionExit : Nat := 0
  /-- The one argument on which the tool fails; without it the exit code decides. -/
  failArg : Option String := none
  exit : Nat := 0
  /-- Whether a failing tool is killed instead of exiting. -/
  killed : Bool := false
  stderr : String := ""
  stdout : String := ""
  /-- What the tool writes to its output; none if it writes nothing. -/
  content : Option String := some "built"
deriving DecidableEq, Repr

namespace Script

/-! ### Scripts as files -/

def toJson (s : Script) : Json :=
  .ofMembers
    [("version", .string s.version), ("version_exit", .ofNat s.versionExit),
     ("fail_arg", (s.failArg.map Json.string).getD .null), ("exit", .ofNat s.exit),
     ("killed", .bool s.killed), ("stderr", .string s.stderr), ("stdout", .string s.stdout),
     ("content", (s.content.map Json.string).getD .null)]

def textOf : Option Json → Option String
  | some (.string s) => some s
  | _ => none

def numberOf : Option Json → Option Nat
  | some (.number s) => s.toNat?
  | _ => none

/-- The script that a JSON object spells. -/
def ofJson? (j : Json) : Option Script := do
  let version ← textOf (j.member? "version")
  let versionExit ← numberOf (j.member? "version_exit")
  let exit ← numberOf (j.member? "exit")
  let stderr ← textOf (j.member? "stderr")
  let stdout ← textOf (j.member? "stdout")
  let killed := match j.member? "killed" with
    | some (.bool b) => b
    | _ => false
  pure { version, versionExit, failArg := textOf (j.member? "fail_arg"), exit, killed,
         stderr, stdout, content := textOf (j.member? "content") }

/-- The first line of every script. -/
def firstLine : String := "#!scripted-tool\n"

def bytes (s : Script) : ByteArray := (firstLine ++ s.toJson.compact).toUTF8

/-- The script of a file, if it is one. -/
def ofBytes? (b : ByteArray) : Option Script := do
  let text := (← String.fromUTF8? b).toList
  let start := firstLine.toList
  if start.isPrefixOf text then ofJson? (← Json.readChars? (text.drop start.length)) else none

/-! ### Running scripts -/

/-- What follows `start` in an argument. -/
def rest? (start arg : String) : Option String :=
  if start.toList.isPrefixOf arg.toList then some (String.ofList (arg.toList.drop start.length))
  else none

/-- The file that the arguments name as output; the last one that does decides. -/
def outputOf : (found : Option String) → List String → Option String
  | found, [] => found
  | found, a :: as =>
    let here := if a = "-o" then as.head? else (rest? "/Fo" a).or (rest? "/OUT:" a)
    outputOf (here.or found) as

/-- Whether the tool fails on these arguments. -/
def fails (s : Script) (args : List String) : Bool :=
  match s.failArg with
  | some a => args.contains a
  | none => s.exit != 0 || s.killed

/-- What a script does in a directory. -/
def run (s : Script) (t : FileTree) (dir : Location) (args : List String) : Completed × FileTree :=
  if args.head? = some "--version" then (⟨some (s.versionExit % 256), s.version, ""⟩, t)
  else if s.fails args then
    (⟨if s.killed then none else some (s.exit % 256), "", s.stderr⟩, t)
  else
    let written := match s.content, outputOf none args with
      | some text, some output => (t.writeFile dir ⟨output⟩ text.toUTF8).toOption.getD t
      | _, _ => t
    (⟨some 0, s.stdout, ""⟩, written)

/-- A text added at the end of a file. -/
def append (t : FileTree) (l : Location) (text : String) : FileTree :=
  match t.node? l with
  | some (.file bytes x) => t.set l (.file (bytes ++ text.toUTF8) x)
  | some .dir => t
  | none => t.set l (.file text.toUTF8 false)

/-- The line that tells of a tool that was run. -/
def logLine (program : Location) (args : List String) : String :=
  program.getLast?.getD "" ++ " " ++ String.intercalate " " args ++ "\n"

/-- A script that is about to run. -/
structure Launch where
  script : Script
  program : Location
  dir : Location
  args : List String

/-- Whether a command can be handed to the host at all. -/
def hasZero (i : Invocation) : Bool :=
  (i.command.argv ++ (i.dir.map Path.text).toList).any fun s => s.toList.contains '\x00'

/-- The longest argument that the host takes, in bytes. -/
def argumentLimit : Nat := 131071

/-- How many files may stand in a chain in which each is run by the next. -/
def chainLimit : Nat := 6

/-- The script at the end of such a chain.  A file that another program runs is handed to
    it by its path, before its own arguments. -/
def follow (t : FileTree) (dir : Location) : (left : Nat) → (program : Location) → Path →
    (args : List String) → Except HostFault Launch
  | 0, _, _, _ => .error .tooManyLinks
  | left + 1, l, path, args =>
    match t.node? l with
    | some (.file b _) =>
      match ofBytes? b, Interpreter.ofBytes? b with
      | some script, _ => .ok { script, program := l, dir, args }
      | none, some i => do
        let l ← if i.program.isEmpty then throw .accessDenied else t.openProgram dir i.program
        follow t dir left l i.program (i.argument.toList ++ path.text :: args)
      | none, none => .error .notExecutableFormat
    | _ => .error .accessDenied

/-- The script that an invocation runs, and how. -/
def prepare (cwd : Location) (searchPath : Option String) (t : FileTree) (i : Invocation) :
    Except HostFault Launch := do
  if hasZero i then throw .zeroInCommand
  let dir ← match i.dir with
    | some p => t.resolve cwd p
    | none => pure cwd
  if !t.isDirAt dir then throw .notDirectory
  let start (p : Path) : Except HostFault Launch := do
    let l ← t.openProgram dir p
    if i.command.argv.any fun a => argumentLimit < a.utf8ByteSize then throw .argumentTooLong
    follow t dir chainLimit l p i.command.args
  startNamed start searchPath i.command.program

/-- Running scripted tools, each of which leaves a line in the log, if there is one. -/
def runner (cwd : Location) (searchPath : Option String) (log : Option Location) : Runner :=
  fun t i =>
    match prepare cwd searchPath t i with
    | .error f => (.error f, t)
    | .ok launch =>
      let t := match log with
        | some l => append t l (logLine launch.program launch.args)
        | none => t
      let (c, t) := launch.script.run t launch.dir launch.args
      (.ok c, t)

end Script

end GrammarBuild
