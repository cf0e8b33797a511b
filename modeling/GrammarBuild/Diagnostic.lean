import GrammarBuild.Path.Basic

/-
  GrammarBuild/Diagnostic.lean
  ============================
  **Messages for the person at the terminal** — a message with the place it is
  about, lines of context and numbered suggestions.  `render` is the text of it,
  with or without the terminal's colours.
-/

namespace GrammarBuild

inductive Severity where
  | error
  | warning
deriving DecidableEq, Repr

namespace Severity

def name : Severity → String
  | error => "error"
  | warning => "warning"

/-- The word in bold red or yellow. -/
def colored : Severity → String
  | error => "\x1b[1;31merror\x1b[0m"
  | warning => "\x1b[1;33mwarning\x1b[0m"

end Severity

/-- A message, what it is about, and what can be done. -/
structure Diagnostic where
  severity : Severity
  message : String
  location : Option Path := none
  context : List String := []
  suggestions : List String := []
deriving DecidableEq, Repr

namespace Diagnostic

def error (message : String) : Diagnostic := { severity := .error, message := message }

def warning (message : String) : Diagnostic := { severity := .warning, message := message }

/-- One more line of context. -/
def withContext (d : Diagnostic) (line : String) : Diagnostic :=
  { d with context := d.context ++ [line] }

/-- One more suggestion. -/
def withSuggestion (d : Diagnostic) (text : String) : Diagnostic :=
  { d with suggestions := d.suggestions ++ [text] }

/-- The place the message is about; a later one takes the earlier one's place. -/
def withLocation (d : Diagnostic) (p : Path) : Diagnostic := { d with location := some p }

/-- The suggestions, numbered from `n`. -/
def numbered : Nat → List String → String
  | _, [] => ""
  | n, s :: rest => "  " ++ toString n ++ ". " ++ s ++ "\n" ++ numbered (n + 1) rest

/-- The text of a diagnostic. -/
def render (d : Diagnostic) (color : Bool) : String :=
  let word := if color then d.severity.colored else d.severity.name
  let place := match d.location with
    | some p => "  --> " ++ p.text ++ "\n"
    | none => ""
  let context := String.join (d.context.map fun line => "  = " ++ line ++ "\n")
  let help :=
    if d.suggestions.isEmpty then ""
    else "\n" ++ (if color then "\x1b[1;32mhelp\x1b[0m" else "help") ++ ": consider:\n"
      ++ numbered 1 d.suggestions
  word ++ ": " ++ d.message ++ "\n" ++ place ++ context ++ help

end Diagnostic

/-! ### Suggestions -/

namespace Suggestion

def noManifest : String := "Run `october-build init` to create one"

def generateParser : String := "Generate the parser with `tree-sitter generate` before building"

def fixSources : String := "Fix the `sources` list in October.toml"

def unknownTarget : String := "Targets are the `[[extension]]` entries in October.toml"

def buildFailed : String := "Run `october-build build --verbose` for more details"

def dottedName : String := "use dot-separated identifiers such as `tree_sitter_october`"

end Suggestion

end GrammarBuild
