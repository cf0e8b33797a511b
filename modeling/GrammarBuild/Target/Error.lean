import GrammarBuild.Diagnostic
import GrammarBuild.Text.Quoted

/-
  GrammarBuild/Target/Error.lean
  ==============================
  **What can be wrong with a target** — the causes, their wording, and the
  diagnostic each is shown as.  All of them are found before any compiler runs.
-/

namespace GrammarBuild

/-- What makes a module name unloadable. -/
inductive NameFault where
  | empty
  | emptyComponent
  | leadingDigit
  | badStart
  | badCharacter
deriving DecidableEq, Repr

def NameFault.reason : NameFault → String
  | .empty => "name cannot be empty"
  | .emptyComponent => "empty component between dots"
  | .leadingDigit => "components cannot start with a digit"
  | .badStart => "components must start with a letter or underscore"
  | .badCharacter => "only ASCII letters, digits and underscores are allowed"

/-- What can be wrong with a target. -/
inductive TargetError where
  | invalidName (name : String) (fault : NameFault)
  | noSources (target : String)
  | sourceNotFound (target : String) (source : Path)
  | sourceNotFile (target : String) (source : Path)
  | duplicate (name : String)
  | invalidDefinition (entry : List String)
deriving DecidableEq, Repr

namespace TargetError

def message : TargetError → String
  | invalidName name fault => "invalid extension name `" ++ name ++ "`: " ++ fault.reason
  | noSources target => "extension `" ++ target ++ "` lists no sources"
  | sourceNotFound target source =>
    "source file not found: " ++ source.text ++ " (required by extension `" ++ target ++ "`)"
  | sourceNotFile target source =>
    "source is not a regular file: " ++ source.text ++ " (required by extension `" ++ target ++ "`)"
  | duplicate name => "extension `" ++ name ++ "` is declared more than once"
  | invalidDefinition entry =>
    "invalid macro definition " ++ Text.quoteList entry
      ++ ": expected [\"NAME\"] or [\"NAME\", \"VALUE\"]"

/-- The code a diagnostic names the kind of error by. -/
def code : TargetError → String
  | invalidName .. => "october::target::invalid_name"
  | noSources .. => "october::target::no_sources"
  | sourceNotFound .. => "october::target::source_not_found"
  | sourceNotFile .. => "october::target::source_not_file"
  | duplicate .. => "october::target::duplicate"
  | invalidDefinition .. => "october::target::invalid_macro"

/-- Whether a file is missing. -/
def isNotFound : TargetError → Bool
  | sourceNotFound .. => true
  | _ => false

/-- The diagnostic of an error.  A missing `parser.c` is best generated; any other
    missing source calls for a change of the manifest. -/
def diagnostic (e : TargetError) : Diagnostic :=
  let d := (Diagnostic.error e.message).withContext ("code: " ++ e.code)
  match e with
  | invalidName .. => d.withSuggestion Suggestion.dottedName
  | sourceNotFound _ source =>
    let d := d.withLocation source
    if source.fileName? = some "parser.c" then d.withSuggestion Suggestion.generateParser
    else d.withSuggestion Suggestion.fixSources
  | _ => d

end TargetError

end GrammarBuild
