import GrammarBuild.Build.Flags
import GrammarBuild.CommandLine.Arguments
import GrammarBuild.Path.Relative
import GrammarBuild.Project.Clean
import GrammarBuild.Project.Header
import GrammarBuild.Project.Init

/-
  GrammarBuild/CommandLine/Run.lean
  =================================
  **Carrying out a task** — each command is an action that tells the person at the
  terminal what it did; the paths it tells of are relative to the caller's directory.
-/

namespace GrammarBuild.CommandLine

def status (text : String) : Action Unit := Action.tell (.status text)

def output (text : String) : Action Unit := Action.tell (.output text)

/-- A path as the caller sees it. -/
def seenFrom (c : Caller) (p : Path) : String := (Path.relativeTo c.cwd p).text

/-- A path that was given relative to the caller's directory. -/
def givenFrom (c : Caller) (p : Path) : Path := if p.isAbsolute then p else c.cwd.join p

/-! ### Projects -/

def runInit (c : Caller) (name : Option String) (dir : Option Path) : Action Unit := do
  let dir := (dir.map (givenFrom c)).getD c.cwd
  let r ← initProject dir name
  status ("     Created `" ++ r.package ++ "` with extension `" ++ r.moduleName ++ "`")
  if r.withScanner then status "        Note: src/scanner.c listed as a source"

def runClean (c : Caller) (all : Bool) : Action Unit := do
  match ← clean (← c.findManifest) all with
  | some dir => status ("     Removed " ++ dir.text)
  | none => status "     Nothing to clean"

def runHeader (c : Caller) (targets : List String) (dir : Option Path) : Action Unit := do
  let manifest ← c.findManifest
  let written ← writeHeaders manifest targets (dir.map (givenFrom c))
  written.forM fun p => status ("       Wrote " ++ seenFrom c p)

/-! ### Builds -/

/-- The line about one module. -/
def artifactLine (c : Caller) (a : Artifact) : String :=
  (if a.fresh then "       Fresh" else "       Built")
    ++ " `" ++ a.target ++ "` -> " ++ seenFrom c a.path

def runBuild (c : Caller) (o : BuildOptions) : Action Unit := do
  let manifest ← c.findManifest
  (Manifest.repeatedNames o.targets).forM fun name =>
    Action.tell (.diagnostic (Diagnostic.warning ("target `" ++ name ++ "` given more than once")))
  let r ← build manifest { o with verbose := c.verbose }
  match r.plan with
  | some plan => output plan.toJson.pretty
  | none => r.artifacts.forM fun a => status (artifactLine c a)

def runFlags (c : Caller) (target : String) (compileOnly linkOnly : Bool) (o : BuildOptions) :
    Action Unit := do
  let commands ← flags (← c.findManifest) target o
  if !linkOnly then
    output ("# Compile commands for `" ++ commands.target ++ "`:")
    commands.compile.forM fun s => output s.command.text
  if !compileOnly && !linkOnly then output ""
  if !compileOnly then
    output ("# Link command for `" ++ commands.target ++ "`:")
    output commands.link.command.text

/-! ### Toolchains -/

/-- The settings that hold where the tool is called: the project's or, outside of
    projects, the user's. -/
def settingsHere (c : Caller) : Action ToolchainSettings := do
  match ← nearestManifest? c.cwd with
  | some manifest => ToolchainSettings.forWorkspace (← Workspace.load manifest)
  | none =>
    match ← Action.attempt (ToolchainSettings.load (Caller.toolchainConfigPath (← read))) with
    | .ok s => return s
    | .error _ => return {}

/-- What is known of a toolchain. -/
def describeToolchain (t : Toolchain) : Action Unit := do
  output ("  Platform: " ++ t.platform)
  output ("  CC:       " ++ t.compiler.text)
  match ← Action.attempt (Action.exec (Toolchain.versionCommand t.compiler) none) with
  | .ok done =>
    match Text.lines done.stdout with
    | first :: _ => output ("            " ++ Text.trim first)
    | [] => pure ()
  | .error _ => pure ()
  output ("  Objects:  ." ++ t.objectEnding)
  output ("  Modules:  ." ++ t.moduleEnding)

/-- The overrides that are set. -/
def describeOverrides (s : ToolchainSettings) : Action Unit := do
  output ""
  output "Overrides:"
  match s.cc with
  | some cc => output ("  cc      = " ++ cc.text)
  | none => pure ()
  if !s.cflags.isEmpty then output ("  cflags  = " ++ String.intercalate " " s.cflags)
  if !s.ldflags.isEmpty then output ("  ldflags = " ++ String.intercalate " " s.ldflags)

def runShowToolchain (c : Caller) : Action Unit := do
  let s ← settingsHere c
  output "Toolchain:"
  output ""
  match ← Action.attempt (Toolchain.detect s) with
  | .ok t => describeToolchain t
  | .error e => output ("  CC:       not found (" ++ e.headline ++ ")")
  if s.hasOverrides then describeOverrides s
  match (← read).cc with
  | some cc => do
    output ""
    output "Environment:"
    output ("  CC=" ++ cc)
  | none => return ()

/-- A compiler as it is kept in a project's settings: relative to the root, and never
    like the bare name of a program, if it was given with a directory. -/
def storedCompiler (c : Caller) (root cc : Path) : Action Path := do
  if !cc.hasDirectory then return cc
  let absolute := c.cwd.join cc
  let absolute ← match ← Action.attempt (Action.canonical absolute) with
    | .ok p => pure p
    | .error _ => pure absolute
  let relative := Path.relativeTo root absolute
  return if relative.hasDirectory then relative else (⟨"."⟩ : Path).join relative

def runOverrideToolchain (c : Caller) (s : ToolchainSettings) : Action Unit := do
  let w ← Workspace.load (← c.findManifest)
  let p := w.toolchainConfigPath
  let old ← if ← Action.pathExists p then ToolchainSettings.load p else pure {}
  let cc ← s.cc.mapM (storedCompiler c w.root)
  let new := old.merge { s with cc }
  if !new.hasOverrides then Action.fail .nothingToOverride
  new.save p
  status ("       Wrote " ++ p.text)

def runClearToolchain (c : Caller) : Action Unit := do
  let w ← Workspace.load (← c.findManifest)
  let p := w.toolchainConfigPath
  if ← Action.pathExists p then
    Action.change fun t cwd => t.removeFile cwd p
    status ("     Removed " ++ p.text)

/-! ### All commands -/

/-- A task carried out for a caller. -/
def runTask (c : Caller) : Task → Action Unit
  | .init name dir => runInit c name dir
  | .build o => runBuild c o
  | .flags target compileOnly linkOnly o => runFlags c target compileOnly linkOnly o
  | .header targets dir => runHeader c targets dir
  | .clean all => runClean c all
  | .showToolchain => runShowToolchain c
  | .overrideToolchain s => runOverrideToolchain c s
  | .clearToolchain => runClearToolchain c
  | .completions _ => return ()

/-- What a failure is shown as: a diagnostic with a suggestion, where there is one. -/
def report (e : Failure) : Event :=
  let message := e.cause.message
  match e.cause with
  | .noManifest _ => .diagnostic ((Diagnostic.error message).withSuggestion Suggestion.noManifest)
  | .target t => .diagnostic t.diagnostic
  | .unknownTarget .. =>
    .diagnostic ((Diagnostic.error message).withSuggestion Suggestion.unknownTarget)
  | _ =>
    if e.during.any Activity.isStep then
      .diagnostic (((e.messages.drop 1).foldl Diagnostic.withContext
        (Diagnostic.error e.headline)).withSuggestion Suggestion.buildFailed)
    else .status ("error: " ++ e.message)

end GrammarBuild.CommandLine
