import GrammarBuild.Text.Blank

/-
  GrammarBuild/Grammar.lean
  =========================
  **What a host looks up in a grammar module** — a grammar for the language `lang`
  exports the one entry point `tree_sitter_lang()`.  The language is read off the
  module's name: its last dotted component without one leading `tree_sitter_`.

  The C header that declares the entry point is guarded by a name made from the
  language, so that two headers can be included together.
-/

namespace GrammarBuild

/-- The names under which a host finds one grammar. -/
structure Grammar where
  language : String
deriving DecidableEq, Repr

namespace Grammar

/-- What every entry point, and the customary module name, begins with. -/
def entryStart : List Char := "tree_sitter_".toList

/-- The last dotted component of a module name. -/
def lastComponent (name : List Char) : List Char :=
  ((List.splitOn '.' name).getLast?).getD name

/-- One leading `tree_sitter_` is dropped. -/
def dropEntryStart (stem : List Char) : List Char :=
  if entryStart.isPrefixOf stem then stem.drop entryStart.length else stem

/-- The grammar that a module of this name holds. -/
def ofModuleName (name : String) : Grammar :=
  ⟨String.ofList (dropEntryStart (lastComponent name.toList))⟩

/-- The entry point, `tree_sitter_<language>`. -/
def entrySymbol (g : Grammar) : String := "tree_sitter_" ++ g.language

/-- The header's file name, `tree-sitter-<language>.h` with dashes throughout. -/
def headerFileName (g : Grammar) : String :=
  "tree-sitter-"
    ++ String.ofList (g.language.toList.map fun c => if c = '_' then '-' else c) ++ ".h"

/-- The name that guards the header against being read twice. -/
def includeGuard (g : Grammar) : String :=
  "TREE_SITTER_" ++ String.ofList (g.language.toList.map Char.toUpper) ++ "_H_"

/-- The C header that declares the entry point, for C and C++. -/
def header (g : Grammar) : String :=
  let guard := g.includeGuard
  String.intercalate "\n"
    ["#ifndef " ++ guard,
     "#define " ++ guard,
     "",
     "typedef struct TSLanguage TSLanguage;",
     "",
     "#ifdef __cplusplus",
     "extern \"C\" \x7b",
     "#endif",
     "",
     "const TSLanguage *" ++ g.entrySymbol ++ "(void);",
     "",
     "#ifdef __cplusplus",
     "\x7d",
     "#endif",
     "",
     "#endif // " ++ guard,
     ""]

end Grammar

end GrammarBuild
