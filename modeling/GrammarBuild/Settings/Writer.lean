import GrammarBuild.Settings.Basic
import GrammarBuild.Toml.Writer

/-
  GrammarBuild/Settings/Writer.lean
  =================================
  **The text of `toolchain.toml`** — the overrides in the form in which they are read
  back by `ToolchainSettings.read`.
-/

namespace GrammarBuild.ToolchainSettings

def write (s : ToolchainSettings) : String :=
  let cc := match s.cc with
    | some p => "cc = " ++ Toml.write p.text ++ "\n"
    | none => ""
  "[toolchain]\n" ++ cc ++ "cflags = " ++ Toml.writeList s.cflags ++ "\n"
    ++ "ldflags = " ++ Toml.writeList s.ldflags ++ "\n"

end GrammarBuild.ToolchainSettings
