import GrammarBuild.Host.Action
import GrammarBuild.Settings.Basic
import GrammarBuild.Toolchain.Basic

/-
  GrammarBuild/Toolchain/Detect.lean
  ==================================
  **Choosing a toolchain** — the first compiler that is found among the one the
  settings name, the one `CC` names, and `cc`, `gcc`, `clang` and `cl` on the search
  path.  A compiler called `cl` is MSVC's and needs a linker beside it or on the
  search path; any other compiler is asked for its version, unless its name already
  says that it is GCC.

  How a program is looked for on the search path is the last argument of these
  functions.
-/

namespace GrammarBuild.Toolchain

/-! ### Which family -/

/-- The family that the output of `--version`, in lower case, tells of. -/
def familyOfVersion (version : String) : Family :=
  if Text.contains version "apple" && Text.contains version "clang" then .appleClang
  else if Text.contains version "clang" then .clang
  else .gcc

/-- The command that asks a compiler for its version. -/
def versionCommand (cc : Path) : Command := ⟨cc, ["--version"]⟩

/-- The family of a compiler.  One that cannot be started goes by its name. -/
def familyOf (cc : Path) : Action Family := do
  let name := Text.lowerAscii (cc.fileName?.getD "")
  if Text.contains name "gcc" then return .gcc
  match ← Action.attempt (Action.exec (versionCommand cc) none) with
  | .ok done => return familyOfVersion (Text.lowerAscii done.stdout)
  | .error _ => return if Text.contains name "clang" then .clang else .gcc

/-- Whether a compiler is MSVC's. -/
def isMsvc (cc : Path) : Bool := (cc.fileStem?.map Text.lowerAscii) == some "cl"

/-- The linker for MSVC's compiler: the one beside it, else the one on the search path. -/
def linkerFor? (cc : Path) (which? : Path → Action (Option Path) := Action.which?) :
    Action (Option Path) := do
  let beside := cc.parent?.map (·.child "link.exe")
  let isThere ← match beside with
    | some p => Action.pathExists p
    | none => pure false
  if isThere then return beside
  which? ⟨"link"⟩

/-- The toolchain of a compiler. -/
def ofCompiler (cc : Path) (which? : Path → Action (Option Path) := Action.which?) :
    Action Toolchain := do
  if isMsvc cc then
    match ← linkerFor? cc which? with
    | some link => return .msvc cc link
    | none => Action.fail (.noLinker cc)
  else
    let family ← familyOf cc
    let toolchain := Toolchain.gnu cc family
    Action.log .debug ("detected " ++ toolchain.platform ++ " at " ++ cc.text)
    return toolchain

/-! ### Which compiler -/

/-- The first program of a list that can be run. -/
def firstOf (names : List String) (which? : Path → Action (Option Path) := Action.which?) :
    Action (Option Path) :=
  match names with
  | [] => return none
  | name :: names => do
    match ← which? ⟨name⟩ with
    | some p => return some p
    | none => firstOf names which?

/-- The compiler that `CC` names, or one of the usual ones. -/
def findCompiler? (which? : Path → Action (Option Path) := Action.which?) :
    Action (Option Path) := do
  let usual := firstOf ["cc", "gcc", "clang", "cl"] which?
  match (← read).cc with
  | none => usual
  | some cc =>
    match ← which? ⟨cc⟩ with
    | some p => return some p
    | none =>
      Action.log .warn ("CC is set to `" ++ cc ++ "` but it was not found; searching PATH")
      usual

/-- The compiler that the settings name: the file itself, or a program to be found. -/
def configured? (cc : Path) (which? : Path → Action (Option Path) := Action.which?) :
    Action (Option Path) := do
  if ← Action.isFile cc then return some cc
  which? cc

/-- The toolchain to build with. -/
def detect (s : ToolchainSettings) (which? : Path → Action (Option Path) := Action.which?) :
    Action Toolchain := do
  let configured ← match s.cc with
    | none => pure none
    | some cc => do
      match ← configured? cc which? with
      | some p =>
        Action.log .debug ("using C compiler from toolchain config: " ++ p.text)
        pure (some p)
      | none =>
        Action.log .warn ("configured C compiler not found: " ++ cc.text)
        pure none
  match configured with
  | some cc => ofCompiler cc which?
  | none =>
    match ← findCompiler? which? with
    | some cc => ofCompiler cc which?
    | none => Action.fail .noCompiler

end GrammarBuild.Toolchain
