import GrammarBuild.Manifest.Declaration
import GrammarBuild.Table

/-
  GrammarBuild/Manifest/Basic.lean
  ================================
  **Manifests** — a declaration that passed every check: its version is a semantic
  version, it has targets, each of them is valid, and no two have one name.

  The checks are made in that order, those of the targets one target after the
  other, and the first that fails is the error (`Manifest.ofDeclaration`).
-/

namespace GrammarBuild

structure Manifest where
  package : Package
  /-- In declared order. -/
  targets : List Target
  /-- The built-in profiles and the declared ones. -/
  profiles : Table String Profile
  /-- The directory that holds the manifest. -/
  dir : Path
deriving DecidableEq, Repr

namespace Manifest

/-- The file name of every manifest. -/
def fileName : String := "October.toml"

/-- Each target must be valid and its name new; `seen` are the names before. -/
def checkTargets : (seen : List String) → List Target → Except TargetError Unit
  | _, [] => .ok ()
  | seen, t :: ts => do
    t.validate
    if t.name ∈ seen then throw (.duplicate t.name)
    checkTargets (t.name :: seen) ts

/-- The profiles of a manifest that declares `overrides`. -/
def profilesOf (overrides : List (String × ProfileOverride)) : Table String Profile :=
  overrides.foldl (fun t (name, o) => t.insert name (Profile.effective name o))
    (Table.ofList [("debug", .debugDefault), ("release", .releaseDefault)])

/-- The manifest of a declaration that passes every check. -/
def ofDeclaration (d : Declaration) (dir : Path) : Except Failure Manifest := do
  let _ ← d.package.readVersion
  if d.extensions.isEmpty then throw (Failure.of .noTargets)
  Failure.lift .target (checkTargets [] d.extensions)
  pure { package := d.package, targets := d.extensions, profiles := profilesOf d.profiles, dir }

/-- The manifest that a text spells. -/
def parse (text : String) (dir : Path) : Except Failure Manifest := do
  let d ← Failure.lift .document (Declaration.read text)
  ofDeclaration d dir

/-! ### Look-ups -/

/-- The target of a name. -/
def target? (m : Manifest) (name : String) : Option Target :=
  m.targets.find? fun t => t.name == name

def targetNames (m : Manifest) : List String := m.targets.map Target.name

/-- The profile of a name. -/
def profile (m : Manifest) (name : String) : Except Failure Profile :=
  match m.profiles.get? name with
  | some p => .ok p
  | none => .error (.of (.unknownProfile name m.profiles.keys))

/-- The target of a name that must be declared. -/
def findTarget (m : Manifest) (name : String) : Except Failure Target :=
  match m.target? name with
  | some t => .ok t
  | none => .error (.of (.unknownTarget name m.targetNames))

/-! ### Selections -/

/-- The targets of the names, each name once; `seen` are the names before. -/
def selectFrom (m : Manifest) : (seen names : List String) → Except Failure (List Target)
  | _, [] => .ok []
  | seen, name :: names =>
    if name ∈ seen then selectFrom m seen names
    else do
      let t ← m.findTarget name
      let ts ← selectFrom m (name :: seen) names
      pure (t :: ts)

/-- The targets to build: those of the filter in the order in which it first names
    them, and all targets if the filter is empty. -/
def select (m : Manifest) (filter : List String) : Except Failure (List Target) :=
  if filter.isEmpty then .ok m.targets else m.selectFrom [] filter

/-- The names that a filter repeats, in the order of their second occurrence. -/
def repeatedFrom : (seen repeated names : List String) → List String
  | _, repeated, [] => repeated
  | seen, repeated, name :: names =>
    if name ∈ seen then
      repeatedFrom seen (if name ∈ repeated then repeated else repeated ++ [name]) names
    else repeatedFrom (name :: seen) repeated names

/-- The names that a filter gives more than once, each of them once. -/
def repeatedNames (filter : List String) : List String := repeatedFrom [] [] filter

/-! ### The first manifest of a project -/

/-- The module name for a package; the language is what follows `tree-sitter-`. -/
def moduleNameFor (package : String) : String :=
  let start := "tree-sitter-".toList
  let cs := package.toList
  let language := if start.isPrefixOf cs then cs.drop start.length else cs
  "tree_sitter_" ++ String.ofList (language.map fun c => if c = '-' then '_' else c)

/-- The manifest's text for a package whose grammar is compiled from a generated
    parser and, if there is one, a scanner written by hand. -/
def generate (package moduleName : String) (withScanner : Bool) : String :=
  let sources :=
    if withScanner then "[\"src/parser.c\", \"src/scanner.c\"]" else "[\"src/parser.c\"]"
  String.intercalate "\n"
    ["[package]",
     "name = \"" ++ package ++ "\"",
     "version = \"0.1.0\"",
     "",
     "[[extension]]",
     "name = \"" ++ moduleName ++ "\"",
     "sources = " ++ sources,
     "extra_compile_args = [\"-std=c11\"]",
     "include_dirs = [\"src\"]",
     ""]

end Manifest

end GrammarBuild
