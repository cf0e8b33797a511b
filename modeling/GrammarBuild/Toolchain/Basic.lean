import GrammarBuild.Profile
import GrammarBuild.Target.Definition
import GrammarBuild.Toolchain.Command

/-
  GrammarBuild/Toolchain/Basic.lean
  =================================
  **Toolchains** — how a compiler and a linker are asked for an object and for a
  loadable module.  There are two manners: that of GCC, in which the compiler links
  too, and that of MSVC.

  Every list handed in reaches the command line verbatim and in the order given:
  include directories, then definitions, then flags, then the source; objects, then
  link flags.
-/

namespace GrammarBuild

/-- The compilers that take GCC's options. -/
inductive Family where
  | gcc
  | clang
  | appleClang
deriving DecidableEq, Repr

/-- A compiler and, if it does not link itself, a linker. -/
inductive Toolchain where
  | gnu (cc : Path) (family : Family)
  | msvc (cl link : Path)
deriving DecidableEq, Repr

/-- What is wanted of a compiler. -/
structure Compilation where
  source : Path
  output : Path
  includeDirs : List Path := []
  definitions : List Definition := []
  flags : List String := []
deriving DecidableEq, Repr

/-- What is wanted of a linker. -/
structure Linking where
  objects : List Path
  output : Path
  flags : List String := []
deriving DecidableEq, Repr

namespace Toolchain

/-! ### Names -/

def platform : Toolchain → String
  | gnu _ .gcc => "gcc"
  | gnu _ .clang => "clang"
  | gnu _ .appleClang => "apple-clang"
  | msvc .. => "msvc"

/-- The platform as it is named in descriptions of a build. -/
def platformTitle : Toolchain → String
  | gnu _ .gcc => "Gcc"
  | gnu _ .clang => "Clang"
  | gnu _ .appleClang => "AppleClang"
  | msvc .. => "Msvc"

def compiler : Toolchain → Path
  | gnu cc _ => cc
  | msvc cl _ => cl

/-- What tells one compiler from another in fingerprints. -/
def identity (t : Toolchain) : String := t.platform ++ ":" ++ t.compiler.text

def objectEnding : Toolchain → String
  | gnu .. => "o"
  | msvc .. => "obj"

def moduleEnding : Toolchain → String
  | gnu .. => "so"
  | msvc .. => "dll"

/-! ### Flags -/

/-- Flags that every object of a loadable module needs. -/
def positionIndependent : Toolchain → List String
  | gnu .. => ["-fPIC"]
  | msvc .. => []

/-- MSVC's flag for an optimisation level. -/
def msvcLevel (level : String) : String :=
  if level = "0" then "/Od"
  else if level = "1" ∨ level = "s" ∨ level = "z" then "/O1"
  else "/O2"

/-- The flags of a profile: optimisation, debug information, then its own. -/
def profileFlags (t : Toolchain) (p : Profile) : List String :=
  match t with
  | gnu .. => ("-O" ++ p.optLevel) :: ((if p.debug then ["-g"] else []) ++ p.cflags)
  | msvc .. => msvcLevel p.optLevel :: ((if p.debug then ["/Zi"] else []) ++ p.cflags)

/-! ### Commands -/

/-- The command that compiles a source to an object. -/
def compileCommand (t : Toolchain) (c : Compilation) : Command :=
  match t with
  | gnu cc _ =>
    ⟨cc, ["-c"] ++ t.positionIndependent ++ c.includeDirs.map (fun d => "-I" ++ d.text)
      ++ c.definitions.map (fun d => "-D" ++ d.argument) ++ c.flags
      ++ [c.source.text, "-o", c.output.text]⟩
  | msvc cl _ =>
    ⟨cl, ["/nologo", "/c"] ++ c.includeDirs.map (fun d => "/I" ++ d.text)
      ++ c.definitions.map (fun d => "/D" ++ d.argument) ++ c.flags
      ++ [c.source.text, "/Fo" ++ c.output.text]⟩

/-- The command that links objects into a loadable module. -/
def linkCommand (t : Toolchain) (l : Linking) : Command :=
  match t with
  | gnu cc _ =>
    ⟨cc, ["-shared", "-o", l.output.text] ++ l.objects.map Path.text ++ l.flags⟩
  | msvc _ link =>
    ⟨link, ["/nologo", "/DLL", "/OUT:" ++ l.output.text] ++ l.objects.map Path.text ++ l.flags⟩

end Toolchain

end GrammarBuild
