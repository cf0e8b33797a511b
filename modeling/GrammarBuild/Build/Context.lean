import GrammarBuild.Settings.Basic
import GrammarBuild.Text.Quoted
import GrammarBuild.Toolchain.Basic
import GrammarBuild.Workspace

/-
  GrammarBuild/Build/Context.lean
  ===============================
  **What turns targets into commands** — the toolchain, the profile, the flags of
  the settings, and where results are written.
-/

namespace GrammarBuild

structure BuildContext where
  toolchain : Toolchain
  profile : Profile
  profileName : String
  /-- Where modules are written. -/
  outputDir : Path
  /-- Where every command runs. -/
  root : Path
  fingerprintPath : Path
  cflags : List String
  ldflags : List String
deriving DecidableEq, Repr

namespace BuildContext

/-- The context of a workspace's profile, which must exist, with a toolchain. -/
def of (w : Workspace) (toolchain : Toolchain) (settings : ToolchainSettings) :
    Except Failure BuildContext := do
  let profile ← w.profile
  pure { toolchain, profile, profileName := w.profileName, outputDir := w.outputDir,
         root := w.root, fingerprintPath := w.fingerprintPath,
         cflags := settings.cflags, ldflags := settings.ldflags }

/-- The flags a target is compiled with: the profile's, the settings', its own. -/
def compileFlags (c : BuildContext) (t : Target) : List String :=
  c.toolchain.profileFlags c.profile ++ c.cflags ++ t.compileArgs

/-- The flags a target is linked with: the settings', then its own. -/
def linkFlags (c : BuildContext) (t : Target) : List String := c.ldflags ++ t.linkArgs

/-- Where a target's module is written. -/
def modulePath (c : BuildContext) (t : Target) : Path :=
  c.outputDir.join (t.modulePath c.toolchain.moduleEnding)

/-- Where a target's objects are written. -/
def objectDir (c : BuildContext) (t : Target) : Path :=
  (c.outputDir.child "obj").child t.name

/-- The context in one line, for people. -/
def describe (c : BuildContext) : String :=
  let p := c.profile
  let profile :=
    "Profile \x7b opt_level: " ++ Text.quote p.optLevel ++ ", debug: " ++ toString p.debug
      ++ ", cflags: " ++ Text.quoteList p.cflags ++ " \x7d"
  "BuildContext \x7b toolchain: " ++ c.toolchain.platformTitle
    ++ ", compiler: " ++ Text.quote c.toolchain.compiler.text
    ++ ", profile: " ++ profile
    ++ ", profile_name: " ++ Text.quote c.profileName
    ++ ", output_dir: " ++ Text.quote c.outputDir.text
    ++ ", workspace_root: " ++ Text.quote c.root.text
    ++ ", cflags: " ++ Text.quoteList c.cflags
    ++ ", ldflags: " ++ Text.quoteList c.ldflags ++ " \x7d"

end BuildContext

end GrammarBuild
