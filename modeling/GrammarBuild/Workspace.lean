import GrammarBuild.Manifest.Basic

/-
  GrammarBuild/Workspace.lean
  ===========================
  **Workspaces** — a manifest with the profile that is built, and where in the
  project everything is kept: settings and the editor's command list in `.october`,
  everything that a build makes in `.october/target/<profile>`.
-/

namespace GrammarBuild

structure Workspace where
  manifest : Manifest
  profileName : String := "debug"
deriving DecidableEq, Repr

namespace Workspace

/-- The directory of the manifest. -/
def root (w : Workspace) : Path := w.manifest.dir

def withProfile (w : Workspace) (name : String) : Workspace := { w with profileName := name }

/-- The settings of the profile that is built. -/
def profile (w : Workspace) : Except Failure Profile := w.manifest.profile w.profileName

/-- What the tool keeps for the project. -/
def projectDir (w : Workspace) : Path := w.root.child ".october"

def configPath (w : Workspace) : Path := w.projectDir.child "config.toml"

def toolchainConfigPath (w : Workspace) : Path := w.projectDir.child "toolchain.toml"

/-- What builds of all profiles make. -/
def targetDir (w : Workspace) : Path := w.projectDir.child "target"

/-- What a build of this profile makes. -/
def outputDir (w : Workspace) : Path := w.targetDir.child w.profileName

/-- The objects of one target. -/
def objectDir (w : Workspace) (target : String) : Path := (w.outputDir.child "obj").child target

def fingerprintPath (w : Workspace) : Path := w.outputDir.child ".fingerprints.json"

def compileCommandsPath (w : Workspace) : Path := w.projectDir.child "compile_commands.json"

end Workspace

end GrammarBuild
