import GrammarBuild.Proofs.DottedNames
import GrammarBuild.Proofs.WrittenHeaders

/-
  GrammarBuild/Proofs/IncludedHeaders.lean
  ========================================
  **Headers that are included together** — a header is guarded by a name that is made of
  its language in upper case, so a translation unit that has read it once passes over it
  the next time (`including_header_again`).  It passes over the header of another language
  too, if that differs from the first in nothing but the case of letters: then one name
  guards both (`includeGuard_eq_iff`), and the second entry point stays undeclared.

  A translation unit is what the preprocessor knows after some lines: the names that are
  defined, the groups of lines that are open, and what it has left for the compiler.  Of its
  directives there are those that headers are written with; a name is never undefined, so
  a line that no macro changes at the end was not changed when it was read.
-/

namespace GrammarBuild

/-! ### The preprocessor -/

/-- What a line of a header is to the preprocessor; the conditions are those of `#ifndef` and
    `#ifdef`. -/
inductive Directive where
  | ifUndefined (name : String)
  | ifDefined (name : String)
  | define (name : String)
  | endif
  | text (line : String)
deriving DecidableEq, Repr

namespace Directive

def words (line : String) : List String :=
  (List.splitOn ' ' line.toList).map String.ofList

def ofLine (line : String) : Directive :=
  match words line with
  | "#ifndef" :: name :: _ => .ifUndefined name
  | "#ifdef" :: name :: _ => .ifDefined name
  | "#define" :: name :: _ => .define name
  | "#endif" :: _ => .endif
  | _ => .text line

/-- Every line ends in a line feed. -/
def ofText (text : String) : List Directive :=
  (List.splitOn '\n' text.toList).dropLast.map fun line => ofLine (String.ofList line)

theorem words_of_notMem {line : String} (blankless : ' ' ∉ line.toList) : words line = [line] := by
  rw [words, List.splitOn_eq_singleton blankless, List.map_singleton, String.ofList_toList]

/-- A line that begins with a known word. -/
theorem words_append {start word more : String}
    (hstart : start.toList = word.toList ++ ' ' :: more.toList) (blankless : ' ' ∉ word.toList)
    (rest : String) : words (start ++ rest) = word :: words (more ++ rest) := by
  rw [words, words, String.toList_append, String.toList_append, hstart, List.append_assoc,
    List.cons_append, List.splitOn_append_cons_self, List.splitOn_eq_singleton blankless,
    List.singleton_append, List.map_cons, String.ofList_toList]

theorem words_name {start word name : String} (hstart : start.toList = word.toList ++ [' '])
    (blankless : ' ' ∉ word.toList) (blankless' : ' ' ∉ name.toList) :
    words (start ++ name) = [word, name] := by
  have hwords : words (start ++ name) = word :: words ("" ++ name) :=
    words_append hstart blankless name
  rw [hwords, String.empty_append, words_of_notMem blankless']

theorem ofLine_ifndef {name : String} (blankless : ' ' ∉ name.toList) :
    ofLine ("#ifndef " ++ name) = .ifUndefined name := by
  have hstart : "#ifndef ".toList = "#ifndef".toList ++ [' '] := by decide
  rw [ofLine, words_name hstart (by decide) blankless]
  rfl

theorem ofLine_define {name : String} (blankless : ' ' ∉ name.toList) :
    ofLine ("#define " ++ name) = .define name := by
  have hstart : "#define ".toList = "#define".toList ++ [' '] := by decide
  rw [ofLine, words_name hstart (by decide) blankless]
  rfl

theorem ofLine_endif (comment : String) : ofLine ("#endif // " ++ comment) = .endif := by
  have hwords : words ("#endif // " ++ comment) = "#endif" :: words ("// " ++ comment) :=
    words_append (by decide) (by decide) comment
  rw [ofLine, hwords]
  rfl

/-- Lines that close the groups that they open, and no others. -/
inductive Balanced : List Directive → Prop where
  | nil : Balanced []
  | define {name : String} {ds : List Directive} (rest : Balanced ds) :
    Balanced (define name :: ds)
  | text {line : String} {ds : List Directive} (rest : Balanced ds) : Balanced (text line :: ds)
  | ifUndefined {name : String} {group ds : List Directive} (inner : Balanced group)
    (rest : Balanced ds) : Balanced (ifUndefined name :: group ++ endif :: ds)
  | ifDefined {name : String} {group ds : List Directive} (inner : Balanced group)
    (rest : Balanced ds) : Balanced (ifDefined name :: group ++ endif :: ds)

end Directive

/-- A translation unit, as far as it has been read. -/
structure TranslationUnit where
  /-- The names that are defined. -/
  defined : List String := []
  /-- For each open group, the innermost first, if its lines are skipped. -/
  skips : List Bool := []
  /-- What is left for the compiler. -/
  kept : List String := []
deriving DecidableEq, Repr

namespace TranslationUnit

/-- In a group that is skipped, only the ends of groups are looked for. -/
def step (u : TranslationUnit) : Directive → TranslationUnit
  | .ifUndefined name => { u with skips := decide (name ∈ u.defined) :: u.skips }
  | .ifDefined name => { u with skips := decide (name ∉ u.defined) :: u.skips }
  | .endif => { u with skips := u.skips.tail }
  | .define name => if true ∈ u.skips then u else { u with defined := name :: u.defined }
  | .text line => if true ∈ u.skips then u else { u with kept := u.kept ++ [line] }

/-- The unit after an `#include` of a header with this text. -/
def including (u : TranslationUnit) (text : String) : TranslationUnit :=
  (Directive.ofText text).foldl step u

/-- A line that is meant for C++ only. -/
def forCpp (u : TranslationUnit) (line : String) : List String :=
  if "__cplusplus" ∈ u.defined then [line] else []

variable {u : TranslationUnit}

/-- Nothing changes while lines are skipped: a group within is opened and closed again. -/
theorem foldl_skipped {ds : List Directive} (h : Directive.Balanced ds)
    (skipped : true ∈ u.skips) : ds.foldl step u = u := by
  induction h generalizing u with
  | nil => rfl
  | define _ ih => rw [List.foldl_cons, step, if_pos skipped, ih skipped]
  | text _ ih => rw [List.foldl_cons, step, if_pos skipped, ih skipped]
  | ifUndefined _ _ inner rest =>
    rw [List.cons_append, List.foldl_cons, List.foldl_append,
      inner (List.mem_cons_of_mem _ skipped), List.foldl_cons]
    exact rest skipped
  | ifDefined _ _ inner rest =>
    rw [List.cons_append, List.foldl_cons, List.foldl_append,
      inner (List.mem_cons_of_mem _ skipped), List.foldl_cons]
    exact rest skipped

theorem step_define (live : true ∉ u.skips) (name : String) :
    u.step (.define name) = { u with defined := name :: u.defined } :=
  if_neg live

theorem step_text (live : true ∉ u.skips) (line : String) :
    u.step (.text line) = { u with kept := u.kept ++ [line] } :=
  if_neg live

theorem step_forCpp (live : true ∉ u.skips) (line : String) :
    ((u.step (.ifDefined "__cplusplus")).step (.text line)).step .endif =
      { u with kept := u.kept ++ u.forCpp line } := by
  by_cases h : "__cplusplus" ∈ u.defined
  · simp [step, forCpp, h, live]
  · simp [step, forCpp, h]

end TranslationUnit

/-! ### What a header says -/

namespace Grammar

variable {g g' : Grammar} {u : TranslationUnit}

def typeDeclaration : String := "typedef struct TSLanguage TSLanguage;"

/-- What the guard encloses. -/
def guardedLines (g : Grammar) : List Directive :=
  [.define g.includeGuard, .text "", .text typeDeclaration, .text "",
    .ifDefined "__cplusplus", .text "extern \"C\" \x7b", .endif,
    .text "", .text g.declaration, .text "",
    .ifDefined "__cplusplus", .text "\x7d", .endif,
    .text ""]

theorem balanced_guardedLines (g : Grammar) : Directive.Balanced g.guardedLines :=
  .define (.text (.text (.text (.ifDefined (.text .nil)
    (.text (.text (.text (.ifDefined (.text .nil) (.text .nil)))))))))

theorem ofLine_declaration (g : Grammar) : Directive.ofLine g.declaration = .text g.declaration := by
  have hline : g.declaration = "const TSLanguage *" ++ (g.entrySymbol ++ "(void);") :=
    String.append_assoc
  have hstart : "const TSLanguage *".toList = "const".toList ++ ' ' :: "TSLanguage *".toList := by
    decide
  have hwords := Directive.words_append hstart (by decide) (g.entrySymbol ++ "(void);")
  rw [Directive.ofLine, hline, hwords]
  rfl

theorem ofText_header (hg : g.Plain) :
    Directive.ofText g.header = .ifUndefined g.includeGuard :: (g.guardedLines ++ [.endif]) := by
  have hguard : ' ' ∉ g.includeGuard.toList := fun h =>
    absurd (isNameChar_includeGuard hg _ h) (by decide)
  have hlines : Directive.ofText g.header = g.headerLines.dropLast.map Directive.ofLine := by
    simp only [Directive.ofText, splitOn_header hg, ← List.map_dropLast, List.map_map,
      Function.comp_def, String.ofList_toList]
  rw [hlines, headerLines]
  simp only [List.dropLast_cons_cons, List.dropLast_singleton, List.map_cons, List.map_nil,
    Directive.ofLine_ifndef hguard, Directive.ofLine_define hguard, Directive.ofLine_endif,
    ofLine_declaration]
  rfl

/-- What the compiler gets of a header. -/
def textIn (g : Grammar) (u : TranslationUnit) : List String :=
  ["", typeDeclaration, ""] ++ u.forCpp "extern \"C\" \x7b" ++ ["", g.declaration, ""] ++
    u.forCpp "\x7d" ++ [""]

end Grammar

/-- A unit with all that a header adds to it. -/
def TranslationUnit.plus (u : TranslationUnit) (g : Grammar) : TranslationUnit :=
  { u with defined := g.includeGuard :: u.defined, kept := u.kept ++ g.textIn u }

namespace Grammar

variable {g g' : Grammar} {u : TranslationUnit}

/-- What every guard begins with, and no name in a header. -/
theorem take_includeGuard (g : Grammar) : g.includeGuard.toList.take 2 = ['T', 'R'] := by
  rw [includeGuard, String.toList_append, String.toList_append]
  rfl

/-- No guard is the name by which a C++ compiler is told. -/
theorem mem_cons_includeGuard (g : Grammar) (u : TranslationUnit) :
    "__cplusplus" ∈ g.includeGuard :: u.defined ↔ "__cplusplus" ∈ u.defined := by
  have hne : "__cplusplus" ≠ g.includeGuard := by
    intro h
    have hstart := take_includeGuard g
    rw [← h] at hstart
    exact absurd hstart (by decide)
  rw [List.mem_cons, or_iff_right hne]

theorem textIn_plus (g g' : Grammar) (u : TranslationUnit) : g.textIn (u.plus g') = g.textIn u := by
  simp only [textIn, TranslationUnit.plus, TranslationUnit.forCpp, mem_cons_includeGuard]

theorem foldl_guardedLines (g : Grammar) (live : true ∉ u.skips) :
    g.guardedLines.foldl TranslationUnit.step u = u.plus g := by
  rw [guardedLines]
  simp (disch := exact live) only [List.foldl_cons, List.foldl_nil, TranslationUnit.step_define,
    TranslationUnit.step_text, TranslationUnit.step_forCpp]
  simp only [TranslationUnit.plus, textIn, TranslationUnit.forCpp, mem_cons_includeGuard,
    List.append_assoc, List.cons_append, List.nil_append]

/-- A header that is read for the first time. -/
theorem including_header (hg : g.Plain) (live : true ∉ u.skips) (new : g.includeGuard ∉ u.defined) :
    u.including g.header = u.plus g := by
  -- inside the guard nothing is skipped, and the last line takes the guard's group away again
  have hopen : u.step (.ifUndefined g.includeGuard) = { u with skips := false :: u.skips } := by
    rw [TranslationUnit.step, decide_eq_false new]
  have live' : true ∉ false :: u.skips := by
    rw [List.mem_cons, not_or]
    exact ⟨Bool.noConfusion, live⟩
  rw [TranslationUnit.including, ofText_header hg, List.foldl_cons, List.foldl_append, hopen,
    foldl_guardedLines g live']
  rfl

/-- **A header that has been read is passed over.** -/
theorem including_header_again (hg : g.Plain) (old : g.includeGuard ∈ u.defined) :
    u.including g.header = u := by
  have skipped : true ∈ (u.step (.ifUndefined g.includeGuard)).skips := by
    simp only [TranslationUnit.step, old, decide_true, List.mem_cons_self]
  rw [TranslationUnit.including, ofText_header hg, List.foldl_cons, List.foldl_append,
    TranslationUnit.foldl_skipped (balanced_guardedLines g) skipped]
  rfl

/-! ### Guards -/

theorem identifier_includeGuard (hg : g.Plain) : Identifier g.includeGuard.toList := by
  have hchars (c : Char) (hc : c ∈ g.includeGuard.toList) : IdentifierStart c ∨ IdentifierDigit c :=
    (Target.isNameChar_iff c).1 (isNameChar_includeGuard hg c hc)
  have hstart := take_includeGuard g
  revert hstart hchars
  cases g.includeGuard.toList with
  | nil =>
    intro _ hstart
    cases hstart
  | cons c rest =>
    intro hchars hstart
    obtain rfl : c = 'T' := (List.cons.inj hstart).1
    refine .intro (.inl ?_) fun d hd => hchars d (List.mem_cons_of_mem _ hd)
    decide

/-- **One name guards two headers exactly if their languages are the same but for the case
    of letters.** -/
theorem includeGuard_eq_iff (g g' : Grammar) :
    g.includeGuard = g'.includeGuard ↔
      Text.lowerAscii g.language = Text.lowerAscii g'.language := by
  rw [Text.lowerAscii_eq_iff]
  constructor
  · intro h
    have hchars := congrArg String.toList h
    simp only [includeGuard, String.toList_append, String.toList_ofList] at hchars
    exact List.append_cancel_left (List.append_cancel_right hchars)
  · intro h
    rw [includeGuard, includeGuard, h]

theorem entrySymbol_of_declaration (h : g.declaration = g'.declaration) :
    g.entrySymbol = g'.entrySymbol := by
  unfold declaration at h
  exact (String.append_right_inj _).1 ((String.append_left_inj _).1 h)

/-- The names in the lines of a header. -/
def headerNames (g : Grammar) : List String :=
  ["typedef", "struct", "TSLanguage", "extern", "const", g.entrySymbol, "void"]

theorem includeGuard_notMem_headerNames (g g' : Grammar) : g.includeGuard ∉ g'.headerNames := by
  have hsymbol : g'.entrySymbol.toList.take 2 ≠ ['T', 'R'] := by
    intro h
    rw [entrySymbol, String.toList_append] at h
    cases h
  have hnames : ∀ name ∈ g'.headerNames, name.toList.take 2 ≠ ['T', 'R'] := by
    simp only [headerNames, List.forall_mem_cons]
    exact ⟨by decide, by decide, by decide, by decide, by decide, hsymbol, by decide,
      List.forall_mem_nil _⟩
  intro h
  exact hnames _ h (take_includeGuard g)

theorem mem_textIn {line : String} (h : line ∈ g.textIn u) :
    line = g.declaration ∨ line ∈ ["", typeDeclaration, "extern \"C\" \x7b", "\x7d"] := by
  by_cases hcpp : "__cplusplus" ∈ u.defined
  · simp only [textIn, TranslationUnit.forCpp, if_pos hcpp, List.mem_append, List.mem_cons] at h ⊢
    tauto
  · simp only [textIn, TranslationUnit.forCpp, if_neg hcpp, List.mem_append, List.mem_cons] at h ⊢
    tauto

/-- The declaration of another entry point is not in the header. -/
theorem declaration_notMem_textIn (symbols : g.entrySymbol ≠ g'.entrySymbol) :
    g.declaration ∉ g'.textIn u := by
  have hchars : g.declaration.toList.take 1 = ['c'] := by
    unfold declaration
    rw [String.toList_append, String.toList_append]
    rfl
  have hfixed : ∀ line ∈ ["", typeDeclaration, "extern \"C\" \x7b", "\x7d"],
      line.toList.take 1 ≠ ['c'] := by
    decide
  intro h
  rcases mem_textIn h with heq | hmem
  · exact symbols (entrySymbol_of_declaration heq)
  · exact hfixed _ hmem hchars

end Grammar

/-! ### What a unit declares -/

namespace TranslationUnit

variable {u : TranslationUnit} {g g' : Grammar}

/-- The unit after two headers, one after the other. -/
def includingBoth (u : TranslationUnit) (g g' : Grammar) : TranslationUnit :=
  (u.including g.header).including g'.header

/-- The compiler gets what the header says, in one piece, and no macro makes something else
    of it. -/
structure Declares (u : TranslationUnit) (g : Grammar) : Prop where
  kept : g.textIn u <:+: u.kept
  unchanged : ∀ name ∈ g.headerNames, name ∉ u.defined

/-- A unit at a point at which the header can be included, and has not been. -/
structure Awaits (u : TranslationUnit) (g : Grammar) : Prop where
  live : true ∉ u.skips
  new : g.includeGuard ∉ u.defined
  unchanged : ∀ name ∈ g.headerNames, name ∉ u.defined

theorem awaits_empty (g : Grammar) : ({} : TranslationUnit).Awaits g :=
  ⟨List.not_mem_nil, List.not_mem_nil, fun _ _ => List.not_mem_nil⟩

/-- A guard is no name in a header. -/
theorem unchanged_plus (h : ∀ name ∈ g.headerNames, name ∉ u.defined) (g' : Grammar) :
    ∀ name ∈ g.headerNames, name ∉ (u.plus g').defined := by
  intro name hname hmem
  rcases List.mem_cons.1 hmem with rfl | hmem
  · exact Grammar.includeGuard_notMem_headerNames g' g hname
  · exact h name hname hmem

/-- The header of what is awaited declares it. -/
theorem Awaits.declares (h : u.Awaits g) : (u.plus g).Declares g := by
  refine ⟨?_, unchanged_plus h.unchanged g⟩
  rw [Grammar.textIn_plus]
  exact (List.suffix_append u.kept (g.textIn u)).isInfix

/-- What is declared stays so when another header is read. -/
theorem Declares.plus (h : u.Declares g) (g' : Grammar) : (u.plus g').Declares g := by
  refine ⟨?_, unchanged_plus h.unchanged g'⟩
  rw [Grammar.textIn_plus]
  exact h.kept.trans (List.prefix_append u.kept (g'.textIn u)).isInfix

/-- What is not declared is not when the header of another entry point is read. -/
theorem undeclared_plus (undeclared : g.declaration ∉ u.kept)
    (symbols : g.entrySymbol ≠ g'.entrySymbol) : g.declaration ∉ (u.plus g').kept := by
  intro hmem
  rcases List.mem_append.1 hmem with hmem | hmem
  · exact undeclared hmem
  · exact Grammar.declaration_notMem_textIn symbols hmem

/-- What is awaited is so still when another header with another guard is read. -/
theorem Awaits.plus (h : u.Awaits g) (guards : g.includeGuard ≠ g'.includeGuard) :
    (u.plus g').Awaits g where
  live := h.live
  new hmem := by
    rcases List.mem_cons.1 hmem with heq | hmem
    · exact guards heq
    · exact h.new hmem
  unchanged := unchanged_plus h.unchanged g'

/-- Two headers with two guards declare both entry points. -/
theorem declares_both (hg : g.Plain) (hg' : g'.Plain) (guards : g.includeGuard ≠ g'.includeGuard)
    (h : u.Awaits g) (h' : u.Awaits g') :
    (u.includingBoth g g').Declares g ∧ (u.includingBoth g g').Declares g' := by
  have second := h'.plus guards.symm
  rw [includingBoth, Grammar.including_header hg h.live h.new,
    Grammar.including_header hg' second.live second.new]
  exact ⟨h.declares.plus g', second.declares⟩

/-- Of two headers with one guard, only the first is read. -/
theorem includingBoth_eq_plus (hg : g.Plain) (hg' : g'.Plain)
    (guards : g.includeGuard = g'.includeGuard) (h : u.Awaits g) : u.includingBoth g g' = u.plus g := by
  have old : g'.includeGuard ∈ (u.plus g).defined := by
    rw [← guards]
    exact List.mem_cons_self
  rw [includingBoth, Grammar.including_header hg h.live h.new, Grammar.including_header_again hg' old]

end TranslationUnit

theorem Manifest.plain_grammar {text : String} {dir : Path} {m : Manifest}
    (parsed : Manifest.parse text dir = .ok m) {t : Target} (ht : t ∈ m.targets) :
    t.grammar.Plain :=
  (Target.named_of_validate ((checked_of_parse parsed).valid t ht)).plain_grammar

/-- **Two headers that are included together.**  Guards are identifiers, and those of two
    targets are different unless the languages are the same but for the case of letters.  A
    unit that includes both headers declares the entry point of the first.  It declares that
    of the second if the languages differ in more than that; if not, the declaration is no
    line of a unit that did not have it before. -/
theorem headers_included_together {text : String} {dir : Path} {m : Manifest}
    (parsed : Manifest.parse text dir = .ok m) {t t' : Target} (ht : t ∈ m.targets)
    (ht' : t' ∈ m.targets) (symbols : t.grammar.entrySymbol ≠ t'.grammar.entrySymbol) :
    Identifier t.grammar.includeGuard.toList ∧ Identifier t'.grammar.includeGuard.toList ∧
    (t.grammar.includeGuard = t'.grammar.includeGuard ↔
      Text.lowerAscii t.grammar.language = Text.lowerAscii t'.grammar.language) ∧
    ∀ u : TranslationUnit, u.Awaits t.grammar → u.Awaits t'.grammar →
      (u.includingBoth t.grammar t'.grammar).Declares t.grammar ∧
      (Text.lowerAscii t.grammar.language ≠ Text.lowerAscii t'.grammar.language →
        (u.includingBoth t.grammar t'.grammar).Declares t'.grammar) ∧
      (Text.lowerAscii t.grammar.language = Text.lowerAscii t'.grammar.language →
        t'.grammar.declaration ∉ u.kept →
        t'.grammar.declaration ∉ (u.includingBoth t.grammar t'.grammar).kept) := by
  have plain := Manifest.plain_grammar parsed ht
  have plain' := Manifest.plain_grammar parsed ht'
  have hguards := Grammar.includeGuard_eq_iff t.grammar t'.grammar
  refine ⟨Grammar.identifier_includeGuard plain, Grammar.identifier_includeGuard plain', hguards, ?_⟩
  intro u h h'
  rw [Ne, ← hguards]
  by_cases guards : t.grammar.includeGuard = t'.grammar.includeGuard
  · rw [TranslationUnit.includingBoth_eq_plus plain plain' guards h]
    exact ⟨h.declares, fun differ => absurd guards differ,
      fun _ undeclared => TranslationUnit.undeclared_plus undeclared symbols.symm⟩
  · obtain ⟨first, second⟩ := TranslationUnit.declares_both plain plain' guards h h'
    exact ⟨first, fun _ => second, fun same => absurd same guards⟩

/-- The headers of the two targets of a manifest declare both entry points. -/
theorem headers_included_sample :
    (({} : TranslationUnit).includingBoth Sample.targetA.grammar Sample.targetB.grammar).Declares
      Sample.targetB.grammar := by
  have both := headers_included_together Sample.parse_manifestText List.mem_cons_self
    (List.mem_cons_of_mem _ List.mem_cons_self) (by decide)
  exact (both.2.2.2 {} (TranslationUnit.awaits_empty _) (TranslationUnit.awaits_empty _)).2.1
    (by decide)

namespace Sample

/-- Two languages that differ in the case of their letters. -/
def targetLower : Target := { name := "json", sources := [⟨"a.c"⟩] }

def targetUpper : Target := { name := "JSON", sources := [⟨"b.c"⟩] }

def casedManifest : Manifest := { manifest with targets := [targetLower, targetUpper] }

def casedText : String :=
  Toml.PlainLine.text (casedManifest.package.lines ++ casedManifest.targets.flatMap Target.lines)

theorem parse_casedText : Manifest.parse casedText ⟨"/p"⟩ = .ok casedManifest := by
  have hread : Declaration.read casedText =
      .ok ⟨casedManifest.package, casedManifest.targets, []⟩ :=
    Declaration.read_text (by decide) rfl rfl
  rw [Manifest.parse_of_read hread]
  rfl

end Sample

/-- Two targets with different entry points whose guards are one: a unit that includes both
    headers passes over the second. -/
theorem header_passed_over :
    Manifest.parse Sample.casedText ⟨"/p"⟩ = .ok Sample.casedManifest ∧
    Sample.targetLower ∈ Sample.casedManifest.targets ∧
    Sample.targetUpper ∈ Sample.casedManifest.targets ∧
    Sample.targetLower.grammar.entrySymbol ≠ Sample.targetUpper.grammar.entrySymbol ∧
    Sample.targetLower.grammar.includeGuard = Sample.targetUpper.grammar.includeGuard ∧
    Sample.targetUpper.grammar.declaration ∉
      (({} : TranslationUnit).includingBoth Sample.targetLower.grammar
        Sample.targetUpper.grammar).kept := by
  have parsed := Sample.parse_casedText
  have lower : Sample.targetLower ∈ Sample.casedManifest.targets := List.mem_cons_self
  have upper : Sample.targetUpper ∈ Sample.casedManifest.targets :=
    List.mem_cons_of_mem _ List.mem_cons_self
  have symbols : Sample.targetLower.grammar.entrySymbol ≠ Sample.targetUpper.grammar.entrySymbol := by
    decide
  have guards : Sample.targetLower.grammar.includeGuard = Sample.targetUpper.grammar.includeGuard := by
    decide
  refine ⟨parsed, lower, upper, symbols, guards, ?_⟩
  rw [TranslationUnit.includingBoth_eq_plus (Manifest.plain_grammar parsed lower)
    (Manifest.plain_grammar parsed upper) guards (TranslationUnit.awaits_empty _)]
  exact TranslationUnit.undeclared_plus List.not_mem_nil symbols.symm

end GrammarBuild
