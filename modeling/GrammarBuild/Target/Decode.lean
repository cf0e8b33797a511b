import GrammarBuild.Target.Basic
import GrammarBuild.Toml.Schema

/-
  GrammarBuild/Target/Decode.lean
  ===============================
  **Targets as a manifest declares them** — the fields of an `[[extension]]` entry.
  Nothing is checked here but their shape and that of the definitions; whether the
  name is loadable and whether there are sources is seen to by `Target.validate`.
-/

namespace GrammarBuild

open Toml Decoder

/-- A list of one or two texts is a definition. -/
def Definition.decode : Decoder Definition := fun v => do
  let entry ← texts v
  match Definition.ofEntry? entry with
  | some d => pure d
  | none => throw (.refused (TargetError.invalidDefinition entry).message)

namespace Target

/-- A target of which some fields are read. -/
structure Draft where
  name : Option String := none
  sources : Option (List Path) := none
  compileArgs : List String := []
  includeDirs : List Path := []
  definitions : List Definition := []
  linkArgs : List String := []

def path : Decoder Path := fun v => (text "path string" v).map Path.mk

def fields : List (RecordField Draft) :=
  [field "name" text (fun x d => { d with name := some x }) false,
   field "sources" (list path) (fun x d => { d with sources := some x }) false,
   field "extra_compile_args" texts fun x d => { d with compileArgs := x },
   field "include_dirs" (list path) fun x d => { d with includeDirs := x },
   field "define_macros" (list Definition.decode) fun x d => { d with definitions := x },
   field "extra_link_args" texts fun x d => { d with linkArgs := x }]

/-- The target of a draft in which nothing necessary is missing. -/
def ofDraft (d : Draft) : Except SchemaFault Target := do
  let name ← require "name" d.name
  let sources ← require "sources" d.sources
  pure { name, sources, compileArgs := d.compileArgs, includeDirs := d.includeDirs,
         definitions := d.definitions, linkArgs := d.linkArgs }

def decode : Decoder Target := fun v => do ofDraft (← record "ExtensionTarget" fields {} v)

end Target

end GrammarBuild
