import GrammarBuild.Grammar
import GrammarBuild.Json.Writer
import GrammarBuild.Target.Definition
import GrammarBuild.Target.Error

/-
  GrammarBuild/Target/Basic.lean
  ==============================
  **Extension targets** — one loadable module each: the name it is imported by, the
  C sources compiled into it, and the flags and directories handed to the compiler.
  Every list is kept in declared order.

  A name is loadable when it is identifiers joined by dots (`validateName`); the
  last component names the module file, the others the directories around it.
-/

namespace GrammarBuild

/-- One loadable extension module. -/
structure Target where
  name : String
  sources : List Path
  compileArgs : List String := []
  includeDirs : List Path := []
  definitions : List Definition := []
  linkArgs : List String := []
deriving DecidableEq, Repr

namespace Target

/-! ### Names -/

/-- A letter or an underscore. -/
def isNameStart (c : Char) : Bool := c.isAlpha || c == '_'

/-- A letter, a digit or an underscore. -/
def isNameChar (c : Char) : Bool := c.isAlphanum || c == '_'

/-- What is wrong with one component of a name. -/
def componentFault? : List Char → Option NameFault
  | [] => some .emptyComponent
  | c :: rest =>
    if c.isDigit then some .leadingDigit
    else if !isNameStart c then some .badStart
    else if rest.all isNameChar then none
    else some .badCharacter

/-- What is wrong with a name: the fault of its leftmost bad component. -/
def nameFault? (name : List Char) : Option NameFault :=
  if name = [] then some .empty
  else (List.splitOn '.' name).findSome? componentFault?

/-- The name must be identifiers joined by dots. -/
def validateName (t : Target) : Except TargetError Unit :=
  match nameFault? t.name.toList with
  | some fault => .error (.invalidName t.name fault)
  | none => .ok ()

/-- The checks that need no files: a loadable name and at least one source. -/
def validate (t : Target) : Except TargetError Unit := do
  t.validateName
  if t.sources.isEmpty then .error (.noSources t.name) else .ok ()

/-! ### Where the module goes -/

/-- The module's file stem, the last component of the name. -/
def moduleStem (t : Target) : String :=
  String.ofList (Grammar.lastComponent t.name.toList)

/-- The directories around the module, all components but the last. -/
def moduleDir (t : Target) : Path :=
  (⟨""⟩ : Path).children ((List.splitOn '.' t.name.toList).dropLast.map String.ofList)

/-- The module's file name with the host's ending. -/
def moduleFileName (t : Target) (ending : String) : String :=
  if ending.isEmpty then t.moduleStem else t.moduleStem ++ "." ++ ending

/-- The module's path below an output directory. -/
def modulePath (t : Target) (ending : String) : Path :=
  t.moduleDir.child (t.moduleFileName ending)

/-- The grammar the module holds. -/
def grammar (t : Target) : Grammar := Grammar.ofModuleName t.name

/-! ### Written form -/

/-- The fields in declared order; definitions and link flags only if there are any. -/
def toJson (t : Target) : Json :=
  let paths (ps : List Path) := Json.ofStrings (ps.map Path.text)
  .ofMembers <|
    [("name", .string t.name), ("sources", paths t.sources),
     ("extra_compile_args", .ofStrings t.compileArgs), ("include_dirs", paths t.includeDirs)]
    ++ (if t.definitions.isEmpty then []
        else [("define_macros", .array (t.definitions.map fun d => .ofStrings d.entry))])
    ++ (if t.linkArgs.isEmpty then [] else [("extra_link_args", .ofStrings t.linkArgs)])

end Target

end GrammarBuild
