import GrammarBuild.Package
import GrammarBuild.Profile
import GrammarBuild.Target.Decode
import GrammarBuild.Toml.Document

/-
  GrammarBuild/Manifest/Declaration.lean
  ======================================
  **What a manifest's text declares** — the package, the extensions and the profiles
  of a TOML document, read but not yet checked.
-/

namespace GrammarBuild

structure Declaration where
  package : Package
  extensions : List Target
  profiles : List (String × ProfileOverride)
deriving DecidableEq, Repr

namespace Declaration

open Toml Decoder

/-- A declaration of which some sections are read. -/
structure Draft where
  package : Option Package := none
  extensions : List Target := []
  profiles : List (String × ProfileOverride) := []

def fields : List (RecordField Draft) :=
  [field "package" Package.decode (fun x d => { d with package := some x }) false,
   field "extension" (list Target.decode) fun x d => { d with extensions := x },
   field "profile" (entries ProfileOverride.decode) fun x d => { d with profiles := x }]

/-- The declaration that the entries of a document hold. -/
def ofEntries (es : Entries) : Except SchemaFault Declaration := do
  let d ← collect fields {} es
  let package ← require "package" d.package
  pure { package, extensions := d.extensions, profiles := d.profiles }

/-- The declaration of a text. -/
def read (text : String) : Except DocumentFault Declaration :=
  match Toml.read? text with
  | none => .error .malformed
  | some es => (ofEntries es).mapError .schema

end Declaration

end GrammarBuild
