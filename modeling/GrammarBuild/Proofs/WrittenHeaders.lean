import GrammarBuild.Project.Header
import GrammarBuild.Proofs.LetterCase
import GrammarBuild.Proofs.Refusals
import GrammarBuild.Proofs.WrittenFiles

/-
  GrammarBuild/Proofs/WrittenHeaders.lean
  =======================================
  **Headers that are written one after the other** — a header's file name keeps less of
  a target's name than the header itself, so two targets may share a file, and the later
  one writes over the earlier.  Nothing is lost by that: names that passed the check have
  no dashes, so equal file names come from equal languages (`eq_of_headerFileName`) and
  the file gets the text that it had.

  Writing one header leaves the others in their places (`HeaderIsIn.stays`), and so does a
  whole run of them (`writeHeaders_run`).
-/

namespace GrammarBuild

/-! ### Languages and file names -/

namespace Grammar

variable {g g' : Grammar}

/-- A language in characters of a checked name. -/
def Plain (g : Grammar) : Prop := ∀ c ∈ g.language.toList, Target.isNameChar c = true

theorem toList_headerFileName (g : Grammar) :
    g.headerFileName.toList =
      "tree-sitter-".toList ++ (g.language.toList.map fun c => if c = '_' then '-' else c) ++
        ".h".toList := by
  simp only [headerFileName, String.toList_append, String.toList_ofList]

/-- Dashes for underscores can be taken back where there was no dash. -/
theorem eq_of_map_dash {s s' : List Char} (hs : '-' ∉ s) (hs' : '-' ∉ s')
    (h : (s.map fun c => if c = '_' then '-' else c) = s'.map fun c => if c = '_' then '-' else c) :
    s = s' := by
  have hback (s : List Char) (hs : '-' ∉ s) :
      (s.map fun c => if c = '_' then '-' else c).map (fun c => if c = '-' then '_' else c) = s := by
    induction s with
    | nil => rfl
    | cons c s ih =>
      rw [List.mem_cons, not_or] at hs
      have hc : (if (if c = '_' then '-' else c) = '-' then '_' else
          if c = '_' then '-' else c) = c := by
        by_cases hunder : c = '_'
        · rw [hunder]
          rfl
        · rw [if_neg hunder, if_neg (Ne.symm hs.1)]
      rw [List.map_cons, List.map_cons, ih hs.2, hc]
  rw [← hback s hs, h, hback s' hs']

/-- **Equal file names come from equal languages.** -/
theorem eq_of_headerFileName (hg : g.Plain) (hg' : g'.Plain)
    (h : g.headerFileName = g'.headerFileName) : g = g' := by
  have hdash {g : Grammar} (hg : g.Plain) : '-' ∉ g.language.toList := by
    intro hmem
    exact absurd (hg _ hmem) (by decide)
  have hchars := congrArg String.toList h
  rw [toList_headerFileName, toList_headerFileName] at hchars
  have hlanguage := eq_of_map_dash (hdash hg) (hdash hg')
    (List.append_cancel_left (List.append_cancel_right hchars))
  obtain ⟨language⟩ := g
  exact congrArg Grammar.mk (String.toList_injective hlanguage)

theorem plainName_headerFileName (hg : g.Plain) : PlainName g.headerFileName := by
  apply plainName_of_dash
  · rw [toList_headerFileName]
    intro h
    rcases List.mem_append.1 h with h | h
    · rcases List.mem_append.1 h with h | h
      · exact absurd h (by decide)
      · obtain ⟨c, hc, heq⟩ := List.mem_map.1 h
        split at heq
        · cases heq
        · exact (Target.isNameChar_ne (hg c hc)).1 heq
    · exact absurd h (by decide)
  · rw [toList_headerFileName, List.append_assoc]
    exact List.mem_append_left _ (by decide)

/-- Upper case takes characters of a checked name to such. -/
theorem isNameChar_toUpper {c : Char} (h : Target.isNameChar c = true) :
    Target.isNameChar c.toUpper = true := by
  rcases Text.toUpper_or_isUpper c with heq | hupper
  · rwa [heq]
  · unfold Target.isNameChar Char.isAlphanum Char.isAlpha
    rw [hupper, Bool.true_or, Bool.true_or, Bool.true_or]

theorem isNameChar_entrySymbol (hg : g.Plain) :
    ∀ c ∈ g.entrySymbol.toList, Target.isNameChar c = true := by
  intro c hc
  rw [entrySymbol, String.toList_append, List.mem_append] at hc
  rcases hc with hc | hc
  · exact List.all_eq_true.1 (by decide : "tree_sitter_".toList.all Target.isNameChar = true) c hc
  · exact hg c hc

theorem isNameChar_includeGuard (hg : g.Plain) :
    ∀ c ∈ g.includeGuard.toList, Target.isNameChar c = true := by
  intro c hc
  rw [includeGuard, String.toList_append, String.toList_append, List.mem_append,
    List.mem_append] at hc
  rcases hc with (hc | hc) | hc
  · exact List.all_eq_true.1 (by decide : "TREE_SITTER_".toList.all Target.isNameChar = true) c hc
  · rw [String.toList_ofList] at hc
    obtain ⟨d, hd, rfl⟩ := List.mem_map.1 hc
    exact isNameChar_toUpper (hg d hd)
  · exact List.all_eq_true.1 (by decide : "_H_".toList.all Target.isNameChar = true) c hc

/-- The line that declares the entry point. -/
def declaration (g : Grammar) : String := "const TSLanguage *" ++ g.entrySymbol ++ "(void);"

/-- The lines of the header, with an empty one for what follows the last line feed. -/
def headerLines (g : Grammar) : List String :=
  ["#ifndef " ++ g.includeGuard, "#define " ++ g.includeGuard, "",
    "typedef struct TSLanguage TSLanguage;", "",
    "#ifdef __cplusplus", "extern \"C\" \x7b", "#endif", "",
    g.declaration, "",
    "#ifdef __cplusplus", "\x7d", "#endif", "",
    "#endif // " ++ g.includeGuard, ""]

theorem newline_notMem_headerLines (hg : g.Plain) :
    ∀ line ∈ g.headerLines, '\n' ∉ line.toList := by
  have hsymbol : '\n' ∉ g.entrySymbol.toList := fun h =>
    absurd (isNameChar_entrySymbol hg _ h) (by decide)
  have hguard : '\n' ∉ g.includeGuard.toList := fun h =>
    absurd (isNameChar_includeGuard hg _ h) (by decide)
  have happend {a b : String} (ha : '\n' ∉ a.toList) (hb : '\n' ∉ b.toList) :
      '\n' ∉ (a ++ b).toList := by
    rw [String.toList_append, List.mem_append, not_or]
    exact ⟨ha, hb⟩
  have hdeclaration : '\n' ∉ g.declaration.toList :=
    happend (happend (by decide) hsymbol) (by decide)
  simp only [headerLines, List.forall_mem_cons]
  exact ⟨happend (by decide) hguard, happend (by decide) hguard, by decide, by decide, by decide,
    by decide, by decide, by decide, by decide, hdeclaration, by decide, by decide, by decide,
    by decide, by decide, happend (by decide) hguard, by decide, List.forall_mem_nil _⟩

/-- The header is these lines. -/
theorem splitOn_header (hg : g.Plain) :
    List.splitOn '\n' g.header.toList = g.headerLines.map String.toList := by
  have hlines : g.header = String.intercalate "\n" g.headerLines := rfl
  have hne : g.headerLines.map String.toList ≠ [] := List.cons_ne_nil _ _
  rw [hlines, String.toList_intercalate]
  exact List.splitOn_intercalate _ (List.forall_mem_map.2 (newline_notMem_headerLines hg)) hne

/-- The declaration is a line of the header. -/
theorem declaration_mem_header (hg : g.Plain) :
    g.declaration.toList ∈ List.splitOn '\n' g.header.toList := by
  rw [splitOn_header hg]
  have hline : g.headerLines[9]? = some g.declaration := rfl
  exact List.mem_map_of_mem (List.mem_of_getElem? hline)

end Grammar

/-- A valid name has a plain language. -/
theorem Target.Named.plain_grammar {t : Target} (h : t.Named) : t.grammar.Plain := by
  have hstem : ∀ c ∈ Grammar.lastComponent t.name.toList, isNameChar c = true := by
    have hchars := (moduleStem_named h).2
    rwa [moduleStem, String.toList_ofList] at hchars
  intro c hc
  apply hstem
  rw [grammar, Grammar.ofModuleName, String.toList_ofList, Grammar.dropEntryStart] at hc
  split at hc
  · exact List.drop_subset _ _ hc
  · exact hc

/-! ### The headers of a project -/

variable {dir : Path} {env : Environment} {h h' : Host} {t : Target} {ts : List Target}

/-- Where the header of a grammar goes. -/
def Grammar.headerPath (dir : Path) (g : Grammar) : Path := dir.child g.headerFileName

/-- The header of a grammar is in its place. -/
def HeaderIsIn (dir : Path) (env : Environment) (h : Host) (g : Grammar) : Prop :=
  h.files.readFile env.cwd (g.headerPath dir) = .ok g.header.toUTF8

/-- Headers that are in their places stay there when one is written, even to the same
    file. -/
theorem HeaderIsIn.stays {g g' : Grammar} (hg : g.Plain) (hg' : g'.Plain)
    (write : (Action.writeString (g.headerPath dir) g.header).runOn env h = (.ok (), h'))
    (there : HeaderIsIn dir env h g') : HeaderIsIn dir env h' g' := by
  by_cases hname : g'.headerFileName = g.headerFileName
  · rw [Grammar.eq_of_headerFileName hg' hg hname]
    obtain ⟨v, -, file⟩ := Action.files_of_writeString write
    exact FileTree.readFile_of_writeFile file
  · refine Action.readFile_of_writeString write ?_ there
    rw [Grammar.headerPath, Grammar.headerPath, locate_child (Grammar.plainName_headerFileName hg'),
      locate_child (Grammar.plainName_headerFileName hg)]
    intro heq
    exact hname (List.singleton_inj.1 (List.append_cancel_left heq))

/-- What is left to say of one header is that it was written. -/
theorem writeHeader_ok {p : Path} (run : (writeHeader dir t).runOn env h = (.ok p, h')) :
    p = t.grammar.headerPath dir ∧ ∃ h₁, h₁.files = h'.files ∧
      (Action.writeString (t.grammar.headerPath dir) t.grammar.header).runOn env h = (.ok (), h₁) := by
  unfold writeHeader at run
  obtain ⟨_, h₁, hwithin, hlast⟩ := Action.runOn_bind_ok run
  rw [Action.runOn_bind, Action.runOn_log] at hlast
  simp only [Action.runOn_pure, Prod.mk.injEq, Except.ok.injEq] at hlast
  obtain ⟨hp, hh⟩ := hlast
  refine ⟨hp.symm, h₁, by rw [← hh], ?_⟩
  exact Action.runOn_within_ok.1 hwithin

/-- After a run of headers each of them is in its place, with those that were before. -/
theorem writeHeaders_run (hts : ∀ t ∈ ts, t.Named) {paths : List Path}
    (run : (ts.mapM (writeHeader dir)).runOn env h = (.ok paths, h')) :
    paths = ts.map (fun t => t.grammar.headerPath dir) ∧
      (∀ g : Grammar, g.Plain → HeaderIsIn dir env h g → HeaderIsIn dir env h' g) ∧
      ∀ t ∈ ts, HeaderIsIn dir env h' t.grammar := by
  induction ts generalizing h paths with
  | nil =>
    rw [List.mapM_nil] at run
    cases run
    exact ⟨rfl, fun _ _ there => there, fun _ ht => nomatch ht⟩
  | cons t ts ih =>
    rw [List.mapM_cons] at run
    obtain ⟨p, h₁, hfirst, hrest⟩ := Action.runOn_bind_ok run
    obtain ⟨ps, h₂, hrun, hlast⟩ := Action.runOn_bind_ok hrest
    simp only [Action.runOn_pure, Prod.mk.injEq, Except.ok.injEq] at hlast
    obtain ⟨hpaths, hh⟩ := hlast
    have ht := (hts t List.mem_cons_self).plain_grammar
    obtain ⟨hp, v, hfiles, hwrite⟩ := writeHeader_ok hfirst
    rw [hh] at hrun
    obtain ⟨hps, stays, there⟩ := ih (fun u hu => hts u (List.mem_cons_of_mem t hu)) hrun
    have now (g : Grammar) (hg : g.Plain) (before : HeaderIsIn dir env v g) :
        HeaderIsIn dir env h' g := by
      apply stays g hg
      rwa [HeaderIsIn, ← hfiles]
    refine ⟨by rw [← hpaths, hp, hps, List.map_cons], ?_, ?_⟩
    · intro g hg before
      exact now g hg (before.stays ht hg hwrite)
    · intro u hu
      rcases List.mem_cons.1 hu with rfl | hu
      · apply now _ ht
        obtain ⟨w, -, file⟩ := Action.files_of_writeString hwrite
        exact FileTree.readFile_of_writeFile file
      · exact there u hu

/-- The headers of what is selected are written one after the other. -/
theorem runOn_writeHeaders {manifestPath : Path} {filter : List String} {output : Option Path}
    {m : Manifest} {ts : List Target}
    (load : ((Manifest.load manifestPath).runOn env h).1 = .ok m) (select : m.select filter = .ok ts) :
    (writeHeaders manifestPath filter output).runOn env h =
      (ts.mapM (writeHeader (output.getD (m.dir.child headerDir)))).runOn env h := by
  rw [writeHeaders, Action.runOn_bind, Workspace.runOn_load load]
  show ((Action.ofExcept (m.select filter)) >>= fun ts => _).runOn env h = _
  rw [Action.runOn_bind, Action.runOn_ofExcept, select]
  rfl

/-- **No written header is lost to another.**  If the headers of a selection are written,
    the paths are those of the selected targets in their order, and at the end the file at
    each path holds the header of its target, which declares the target's entry point. -/
theorem headers_stay {manifestPath : Path} {filter : List String} {output : Option Path}
    {paths : List Path}
    (run : (writeHeaders manifestPath filter output).runOn env h = (.ok paths, h')) :
    ∃ (m : Manifest) (ts : List Target), (Manifest.load manifestPath).runOn env h = (.ok m, h) ∧
      m.select filter = .ok ts ∧
      paths = ts.map (fun t => (output.getD (m.dir.child headerDir)).child
        t.grammar.headerFileName) ∧
      ∀ (i : Nat) (p : Path) (t : Target), paths[i]? = some p → ts[i]? = some t →
        h'.files.readFile env.cwd p = .ok t.grammar.header.toUTF8 ∧
          t.grammar.declaration.toList ∈ List.splitOn '\n' t.grammar.header.toList := by
  unfold writeHeaders at run
  obtain ⟨w, h₁, hworkspace, run⟩ := Action.runOn_bind_ok run
  obtain ⟨m, h₂, hload, hw⟩ := Action.runOn_bind_ok hworkspace
  obtain ⟨ts, h₃, hselect, run⟩ := Action.runOn_bind_ok run
  have hhost : ((Manifest.load manifestPath).runOn env h).2 = h := Manifest.host_load manifestPath
  rw [hload] at hhost
  simp only [Action.runOn_pure, Prod.mk.injEq, Except.ok.injEq] at hw
  obtain ⟨rfl, rfl⟩ := hw
  obtain rfl : h₂ = h := hhost
  rw [Action.runOn_ofExcept, Prod.mk.injEq] at hselect
  obtain ⟨hselect, rfl⟩ := hselect
  have hchecked := Manifest.checked_of_select (checked_of_load (congrArg Prod.fst hload)) hselect
  have hnamed : ∀ t ∈ ts, t.Named := fun t ht => Target.named_of_validate (hchecked.valid t ht)
  obtain ⟨hpaths, -, hheaders⟩ := writeHeaders_run hnamed run
  refine ⟨m, ts, hload, hselect, hpaths, ?_⟩
  intro i p t hp ht
  have hmem := List.mem_of_getElem? ht
  rw [hpaths, List.getElem?_map, ht, Option.map_some] at hp
  rw [← Option.some.inj hp]
  exact ⟨hheaders t hmem, Grammar.declaration_mem_header (hnamed t hmem).plain_grammar⟩

namespace Sample

/-- Two modules for one language. -/
def sharedManifest : Manifest where
  package := { name := "x", version := "0.1.0" }
  targets := [{ name := "tree_sitter_a_b", sources := [⟨"a.c"⟩] },
    { name := "x.a_b", sources := [⟨"b.c"⟩] }]
  profiles := Manifest.profilesOf []
  dir := ⟨"/"⟩

def sharedText : String :=
  Toml.PlainLine.text (sharedManifest.package.lines ++ sharedManifest.targets.flatMap Target.lines)

theorem parse_sharedText : Manifest.parse sharedText ⟨"/"⟩ = .ok sharedManifest := by
  have hread : Declaration.read sharedText =
      .ok ⟨sharedManifest.package, sharedManifest.targets, []⟩ :=
    Declaration.read_text (by decide) rfl rfl
  rw [Manifest.parse_of_read hread]
  rfl

/-- A host on which the manifest of the two modules is all that there is. -/
def shared : Host where
  files := (∅ : FileTree).set ["October.toml"] (.file sharedText.toUTF8 false)

theorem load_shared :
    (Manifest.load ⟨"/October.toml"⟩).runOn default shared = (.ok sharedManifest, shared) := by
  have hread : shared.files.readText (default : Environment).cwd ⟨"/October.toml"⟩ = .ok sharedText :=
    FileTree.readText_of_readFile rfl
  have hdir : ((⟨"/October.toml"⟩ : Path).absoluteFrom ⟨(default : Environment).cwd.text⟩).parent?.getD
      ((⟨"/October.toml"⟩ : Path).absoluteFrom ⟨(default : Environment).cwd.text⟩) = ⟨"/"⟩ := by decide
  rw [Manifest.runOn_load hread, hdir, parse_sharedText]
  rfl

theorem write_shared : ∃ h', (writeHeaders ⟨"/October.toml"⟩ [] (some ⟨"/"⟩)).runOn default shared =
    (.ok [⟨"/tree-sitter-a-b.h"⟩, ⟨"/tree-sitter-a-b.h"⟩], h') := by
  -- the path is evaluated once and not again at each of its uses
  have hpath : ∀ t ∈ sharedManifest.targets,
      (⟨"/"⟩ : Path).child t.grammar.headerFileName = ⟨"/tree-sitter-a-b.h"⟩ := by decide
  have hload : ((Manifest.load ⟨"/October.toml"⟩).runOn default shared).1 = .ok sharedManifest :=
    congrArg Prod.fst load_shared
  obtain ⟨t, t', htargets⟩ : ∃ t t', sharedManifest.targets = [t, t'] := ⟨_, _, rfl⟩
  rw [htargets] at hpath
  rw [runOn_writeHeaders hload rfl, htargets, List.mapM_cons, List.mapM_cons, List.mapM_nil,
    Option.getD_some, writeHeader, writeHeader, hpath t List.mem_cons_self,
    hpath t' (List.mem_cons_of_mem _ List.mem_cons_self)]
  exact ⟨_, rfl⟩

end Sample

/-- Both targets have their header in the one file. -/
theorem headers_stay_shared :
    ∃ h', (writeHeaders ⟨"/October.toml"⟩ [] (some ⟨"/"⟩)).runOn default Sample.shared =
        (.ok [⟨"/tree-sitter-a-b.h"⟩, ⟨"/tree-sitter-a-b.h"⟩], h') ∧
      ∀ t ∈ Sample.sharedManifest.targets,
        h'.files.readFile [] ⟨"/tree-sitter-a-b.h"⟩ = .ok t.grammar.header.toUTF8 := by
  obtain ⟨h', run⟩ := Sample.write_shared
  obtain ⟨m, ts, hload, hselect, -, hheaders⟩ := headers_stay run
  rw [Sample.load_shared, Prod.mk.injEq, Except.ok.injEq] at hload
  obtain ⟨rfl, -⟩ := hload
  obtain rfl : Sample.sharedManifest.targets = ts := Except.ok.inj hselect
  refine ⟨h', run, ?_⟩
  intro t ht
  obtain ⟨i, hi⟩ := List.getElem?_of_mem ht
  have hpath : [⟨"/tree-sitter-a-b.h"⟩, ⟨"/tree-sitter-a-b.h"⟩][i]? =
      some (⟨"/tree-sitter-a-b.h"⟩ : Path) := by
    obtain ⟨hlt, -⟩ := List.getElem?_eq_some_iff.1 hi
    have hcases : i = 0 ∨ i = 1 := by
      have hlength : Sample.sharedManifest.targets.length = 2 := rfl
      omega
    rcases hcases with rfl | rfl
    · rfl
    · rfl
  exact (hheaders i _ t hpath hi).1

end GrammarBuild
