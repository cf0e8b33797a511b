import GrammarBuild.Failure
import GrammarBuild.Toml.Document

/-
  GrammarBuild/Settings/Basic.lean
  ================================
  **Settings files** — `config.toml` holds defaults for builds, `toolchain.toml`
  holds compiler overrides.  Each is looked for in the user's directory and in the
  project's, and what the project sets wins, key by key (`merge`).
-/

namespace GrammarBuild

open Toml Decoder

/-! ### Defaults for builds -/

/-- The `[build]` section of `config.toml`. -/
structure BuildSettings where
  /-- How many compilers may run at a time. -/
  jobs : Option Nat := none
  emitCompileCommands : Bool := false
  /-- The profile to build when no option names one. -/
  profile : Option String := none
deriving DecidableEq, Repr

namespace BuildSettings

def fields : List (RecordField BuildSettings) :=
  [field "jobs" count fun x s => { s with jobs := some x },
   field "emit_compile_commands" boolean fun x s => { s with emitCompileCommands := x },
   field "profile" text fun x s => { s with profile := some x }]

def decode : Decoder BuildSettings := record "BuildConfig" fields {}

/-- The settings of a text. -/
def read (text : String) : Except DocumentFault BuildSettings :=
  match Toml.read? text with
  | none => .error .malformed
  | some es => (collect [field "build" decode fun x _ => x] {} es).mapError .schema

/-- What `t` sets replaces what `s` sets. -/
def merge (s t : BuildSettings) : BuildSettings :=
  { jobs := t.jobs.or s.jobs
    emitCompileCommands := s.emitCompileCommands || t.emitCompileCommands
    profile := t.profile.or s.profile }

end BuildSettings

/-! ### Compiler overrides -/

/-- The `[toolchain]` section of `toolchain.toml`. -/
structure ToolchainSettings where
  /-- The C compiler. -/
  cc : Option Path := none
  /-- Flags for every compile command. -/
  cflags : List String := []
  /-- Flags for every link command. -/
  ldflags : List String := []
deriving DecidableEq, Repr

namespace ToolchainSettings

def fields : List (RecordField ToolchainSettings) :=
  [field "cc" (fun v => (text "path string" v).map Path.mk) fun x s => { s with cc := some x },
   field "cflags" texts fun x s => { s with cflags := x },
   field "ldflags" texts fun x s => { s with ldflags := x }]

def decode : Decoder ToolchainSettings := record "ToolchainSettings" fields {}

/-- The settings of a text. -/
def read (text : String) : Except DocumentFault ToolchainSettings :=
  match Toml.read? text with
  | none => .error .malformed
  | some es => (collect [field "toolchain" decode fun x _ => x] {} es).mapError .schema

/-- What `t` sets replaces what `s` sets; a list of flags is replaced as a whole. -/
def merge (s t : ToolchainSettings) : ToolchainSettings :=
  { cc := t.cc.or s.cc
    cflags := if t.cflags.isEmpty then s.cflags else t.cflags
    ldflags := if t.ldflags.isEmpty then s.ldflags else t.ldflags }

/-- Whether anything is set. -/
def hasOverrides (s : ToolchainSettings) : Bool :=
  s.cc.isSome || !s.cflags.isEmpty || !s.ldflags.isEmpty

/-- A compiler given relative to the project is taken from `root`; the bare name of
    a program is left to be searched for. -/
def anchoredAt (s : ToolchainSettings) (root : Path) : ToolchainSettings :=
  { s with cc := s.cc.map (·.anchoredAt root) }

end ToolchainSettings

end GrammarBuild
