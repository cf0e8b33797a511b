import GrammarBuild.Settings.Basic

/-
  GrammarBuild/Build/Options.lean
  ===============================
  **Options of a build** — what the command line asks for.
-/

namespace GrammarBuild

structure BuildOptions where
  release : Bool := false
  profile : Option String := none
  /-- The targets to build; all of them if the list is empty. -/
  targets : List String := []
  emitCompileCommands : Bool := false
  /-- Only the plan is wanted. -/
  planOnly : Bool := false
  jobs : Option Nat := none
  verbose : Bool := false
deriving DecidableEq, Repr

/-- The profile to build: the one that is named, the release profile if that is asked
    for, the one the settings name, and otherwise the debug profile. -/
def BuildOptions.profileName (o : BuildOptions) (s : BuildSettings) : String :=
  match o.profile with
  | some name => name
  | none => if o.release then "release" else s.profile.getD "debug"

end GrammarBuild
