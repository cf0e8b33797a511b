import GrammarBuild.Failure

/-
  GrammarBuild/Package.lean
  =========================
  **What a manifest says about its package** — a name, a version, and three texts
  that may be left out.
-/

namespace GrammarBuild

structure Package where
  name : String
  version : String
  description : Option String := none
  license : Option String := none
  repository : Option String := none
deriving DecidableEq, Repr

namespace Package

/-- The version that the package's version text spells. -/
def readVersion (p : Package) : Except Failure Version :=
  Failure.within (.readingVersion p.version) (Failure.lift .version (Version.read p.version))

/-! ### Reading -/

open Toml Decoder

/-- A package of which some fields are read. -/
structure Draft where
  name : Option String := none
  version : Option String := none
  description : Option String := none
  license : Option String := none
  repository : Option String := none

def fields : List (RecordField Draft) :=
  [field "name" text (fun x d => { d with name := some x }) false,
   field "version" text (fun x d => { d with version := some x }) false,
   field "description" text fun x d => { d with description := some x },
   field "license" text fun x d => { d with license := some x },
   field "repository" text fun x d => { d with repository := some x }]

/-- The package of a draft in which nothing necessary is missing. -/
def ofDraft (d : Draft) : Except SchemaFault Package := do
  let name ← require "name" d.name
  let version ← require "version" d.version
  pure { name, version, description := d.description, license := d.license,
         repository := d.repository }

def decode : Decoder Package := fun v => do ofDraft (← record "PackageMetadata" fields {} v)

end Package

end GrammarBuild
