import GrammarBuild.Host.Fault
import GrammarBuild.Target.Error
import GrammarBuild.Toml.Schema
import GrammarBuild.Version

/-
  GrammarBuild/Failure.lean
  =========================
  **Why a command failed** — a cause, and around it what was being done when it
  arose, outermost first.  `Failure.message` is the one line that tells all of it.
-/

namespace GrammarBuild

/-- Why a text is no document of the program. -/
inductive DocumentFault where
  /-- Not a TOML document at all. -/
  | malformed
  /-- A TOML document that does not hold what it must. -/
  | schema (fault : Toml.SchemaFault)
deriving DecidableEq, Repr

def DocumentFault.message : DocumentFault → String
  | .malformed => "TOML parse error"
  | .schema fault => "TOML parse error: " ++ fault.message

/-- What a wildcard pattern may not contain. -/
inductive PatternFault where
  | stars
  | recursive
  | range
deriving DecidableEq, Repr

def PatternFault.wording : PatternFault → String
  | .stars => "wildcards are either regular `*` or recursive `**`"
  | .recursive => "recursive wildcards must form a single path component"
  | .range => "invalid range pattern"

/-- The cause of a failure. -/
inductive Cause where
  | target (e : TargetError)
  | noManifest (dir : Path)
  | unknownTarget (name : String) (available : List String)
  | document (fault : DocumentFault)
  | version (fault : VersionFault)
  | host (fault : HostFault)
  | pattern (position : Nat) (fault : PatternFault)
  | noTargets
  | unknownProfile (name : String) (available : List String)
  | exitStatus (command : String) (code : Option Nat) (output : String)
  | noCompiler
  | noLinker (compiler : Path)
  | manifestExists (dir : Path)
  | noPackageName (dir : Path)
  | nothingToOverride
deriving DecidableEq, Repr

def Cause.message : Cause → String
  | target e => e.message
  | noManifest dir =>
    "no manifest found: could not find `October.toml` in `" ++ dir.text
      ++ "` or any parent directory"
  | unknownTarget name available =>
    "unknown target `" ++ name ++ "`\navailable targets: " ++ String.intercalate ", " available
  | document fault => fault.message
  | version fault => fault.message
  | host fault => fault.message
  | pattern position fault =>
    "Pattern syntax error near position " ++ toString position ++ ": " ++ fault.wording
  | noTargets => "no `[[extension]]` targets declared"
  | unknownProfile name available =>
    "unknown profile `" ++ name ++ "`\navailable profiles: " ++ String.intercalate ", " available
  | exitStatus command code output =>
    "`" ++ command ++ "` failed with exit code "
      ++ (match code with
          | some n => "Some(" ++ toString n ++ ")"
          | none => "None")
      ++ "\n" ++ output
  | noCompiler =>
    "no C compiler found\n\noctober-build requires a C compiler (cc, gcc, clang, or cl).\n"
      ++ "Set the CC environment variable, set `cc` in .october/toolchain.toml,\n"
      ++ "or install a compiler."
  | noLinker compiler =>
    "MSVC cl.exe found at " ++ compiler.text
      ++ " but link.exe is not available\nRun from a Developer Command Prompt."
  | manifestExists dir => "`October.toml` already exists in `" ++ dir.text ++ "`"
  | noPackageName dir =>
    "cannot infer a package name from `" ++ dir.text ++ "`; pass --name"
  | nothingToOverride => "nothing to override; pass --cc, --cflag or --ldflag"

/-- What was being done when a failure arose. -/
inductive Activity where
  | readingManifest (p : Path)
  | parsingManifest (p : Path)
  | readingVersion (text : String)
  | readingConfig (p : Path)
  | parsingConfig (p : Path)
  | readingToolchainConfig (p : Path)
  | parsingToolchainConfig (p : Path)
  | resolving (p : Path)
  | creatingDirectory (p : Path)
  | removingDirectory (p : Path)
  | writingFile (p : Path)
  | writing (p : Path)
  | reading (p : Path)
  | openingForDigest (p : Path)
  | matching (pattern : String)
  | readingSource (p : Path)
  | savingFingerprints (p : Path)
  | spawning (program : Path)
  | compiling (target : String) (source : Path)
  | linking (target : String)
  | writingHeader (target : String)
deriving DecidableEq, Repr

def Activity.message : Activity → String
  | readingManifest p => "failed to read manifest: " ++ p.text
  | parsingManifest p => "failed to parse manifest: " ++ p.text
  | readingVersion text => "invalid version `" ++ text ++ "` in [package]"
  | readingConfig p => "failed to read config file: " ++ p.text
  | parsingConfig p => "failed to parse config file: " ++ p.text
  | readingToolchainConfig p => "failed to read toolchain config: " ++ p.text
  | parsingToolchainConfig p => "failed to parse toolchain config: " ++ p.text
  | resolving p => "failed to resolve " ++ p.text
  | creatingDirectory p => "failed to create directory: " ++ p.text
  | removingDirectory p => "failed to remove directory: " ++ p.text
  | writingFile p => "failed to write file: " ++ p.text
  | writing p => "failed to write " ++ p.text
  | reading p => "failed to read " ++ p.text
  | openingForDigest p => "failed to open " ++ p.text ++ " for hashing"
  | matching pattern => "invalid glob pattern: " ++ pattern
  | readingSource p => "failed to read source `" ++ p.text ++ "`"
  | savingFingerprints p => "failed to save fingerprints to " ++ p.text
  | spawning program => "failed to spawn `" ++ program.text ++ "`"
  | compiling target source =>
    "failed to compile `" ++ source.text ++ "` for extension `" ++ target ++ "`"
  | linking target => "failed to link extension `" ++ target ++ "`"
  | writingHeader target => "failed to write header for `" ++ target ++ "`"

/-- Whether a step of a build was being carried out. -/
def Activity.isStep : Activity → Bool
  | compiling .. => true
  | linking .. => true
  | _ => false

/-- A cause and the activities around it, outermost first. -/
structure Failure where
  during : List Activity := []
  cause : Cause
deriving DecidableEq, Repr

namespace Failure

/-- A failure with nothing around its cause. -/
def of (cause : Cause) : Failure := { cause }

/-- A failure seen from the activity in which it arose. -/
def inside (f : Failure) (a : Activity) : Failure := { f with during := a :: f.during }

/-- The texts of a failure, outermost first. -/
def messages (f : Failure) : List String :=
  f.during.map Activity.message ++ [f.cause.message]

/-- All texts of a failure in one. -/
def message (f : Failure) : String := String.intercalate ": " f.messages

/-- The outermost text of a failure. -/
def headline (f : Failure) : String := f.messages.headD ""

instance : Coe TargetError Failure := ⟨fun e => of (.target e)⟩

/-- A result whose failure is seen from the activity in which it arose. -/
def within {α : Type} (a : Activity) (r : Except Failure α) : Except Failure α :=
  r.mapError (·.inside a)

/-- A result whose fault becomes the cause of a failure. -/
def lift {ε α : Type} (cause : ε → Cause) (r : Except ε α) : Except Failure α :=
  r.mapError fun e => of (cause e)

end Failure

end GrammarBuild
