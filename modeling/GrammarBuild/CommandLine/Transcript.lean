import GrammarBuild.CommandLine.Run

/-
  GrammarBuild/CommandLine/Transcript.lean
  ========================================
  **What the terminal shows** — the exit code of the tool and the texts of its two
  output streams, for any arguments and any host.
-/

namespace GrammarBuild.CommandLine

/-- The outcome of one call of the tool. -/
structure Transcript where
  code : Nat
  stdout : String := ""
  stderr : String := ""
deriving DecidableEq, Repr

/-- How a line of the log begins. -/
def levelTag : Level → String
  | .debug => "DEBUG "
  | .info => " INFO "
  | .warn => " WARN "

/-- One character of the log.  Those that steer a terminal are written by their codes. -/
def logChar (c : Char) : List Char :=
  if c = '\x07' then "\\x07".toList
  else if c = '\x08' then "\\x08".toList
  else if c = '\x0c' then "\\x0c".toList
  else if c = '\x1b' then "\\x1b".toList
  else if c = '\x7f' then "\\x7f".toList
  else if 0x80 ≤ c.toNat ∧ c.toNat ≤ 0x9f then
    ['\\', 'u', '\x7b'] ++ Text.hexDigits c.toNat ++ ['\x7d']
  else [c]

/-- A line of the log. -/
def logLine (level : Level) (text : String) : String :=
  levelTag level ++ String.ofList (text.toList.flatMap logChar) ++ "\n"

/-- The text of an event on the error stream.  Details are shown on demand only. -/
def errorText (verbose color : Bool) : Event → String
  | .log level text => if level = .debug ∧ ¬ verbose then "" else logLine level text
  | .started i => if verbose then logLine .debug ("running `" ++ i.command.text ++ "`") else ""
  | .status text => text ++ "\n"
  | .diagnostic d => d.render color
  | .output _ => ""

/-- The text of an event on the output stream. -/
def outputText : Event → String
  | .output text => text ++ "\n"
  | _ => ""

def usageText : String := "Usage: october-build [OPTIONS] <COMMAND>\n"

def versionText : String := "october-build 0.1.0\n"

/-- One call of the tool. -/
def call (env : Environment) (files : FileTree) (args : List String) : Transcript × FileTree :=
  match Order.ofArguments args with
  | .error .help => ({ code := 0, stdout := usageText }, files)
  | .error .version => ({ code := 0, stdout := versionText }, files)
  | .error .usage => ({ code := 2, stderr := usageText }, files)
  | .ok order =>
    let caller : Caller :=
      { cwd := ⟨env.cwd.text⟩, verbose := order.verbose, color := order.color }
    let (result, host) := (runTask caller order.task).runOn env { files }
    let (code, events) := match result with
      | .ok () => (0, host.events)
      | .error e => (1, host.events ++ [report e])
    ({ code
       stdout := String.join (events.map outputText)
       stderr := String.join (events.map (errorText order.verbose order.color)) }, host.files)

end GrammarBuild.CommandLine
