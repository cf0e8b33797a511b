import GrammarBuild.Text.Quoted

/-
  GrammarBuild/Target/Definition.lean
  ===================================
  **Preprocessor definitions** — a target defines names for the preprocessor,
  written as a list of one or two texts: the name, and its value if it has one.
-/

namespace GrammarBuild

/-- A name for the preprocessor and its value, if any. -/
structure Definition where
  name : String
  value : Option String := none
deriving DecidableEq, Repr

namespace Definition

/-- One text or two, the first of them not empty, are a definition. -/
def ofEntry? : List String → Option Definition
  | [name] => if name.isEmpty then none else some ⟨name, none⟩
  | [name, value] => if name.isEmpty then none else some ⟨name, some value⟩
  | _ => none

/-- The list of texts that a definition is written as. -/
def entry (d : Definition) : List String := d.name :: d.value.toList

/-- `NAME` or `NAME=VALUE`, as the compiler wants it. -/
def argument (d : Definition) : String :=
  match d.value with
  | some v => d.name ++ "=" ++ v
  | none => d.name

end Definition

end GrammarBuild
