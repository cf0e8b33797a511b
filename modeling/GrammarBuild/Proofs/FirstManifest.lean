import GrammarBuild.Project.Init
import GrammarBuild.Project.Load
import GrammarBuild.Proofs.Layout
import GrammarBuild.Proofs.PlainDocuments
import GrammarBuild.Proofs.RefusedWrites
import GrammarBuild.Proofs.Selections

/-
  GrammarBuild/Proofs/FirstManifest.lean
  ======================================
  **The manifest that starts a project** — the package's name is put into its text as
  it is.  That is safe because a package whose module name is valid consists of
  characters that stand for themselves between double quotes
  (`harmless_of_moduleName`), so the text is a plain document and is read line by line.
-/

namespace GrammarBuild

open Toml

/-! ### Names without quotes -/

theorem Target.isHarmless_of_isNameChar {c : Char} (h : isNameChar c = true) :
    isHarmless c = true := by
  have hquote : c ≠ '"' := by
    rintro rfl
    exact absurd h (by decide)
  have hslash : c ≠ '\\' := by
    rintro rfl
    exact absurd h (by decide)
  refine isHarmless_iff.2 ⟨?_, hquote, hslash⟩
  unfold isNameChar Char.isAlphanum Char.isAlpha Char.isUpper Char.isLower Char.isDigit at h
  simp only [Bool.or_eq_true, decide_eq_true_eq, Bool.and_eq_true, beq_iff_eq,
    UInt32.le_iff_toNat_le, ge_iff_le] at h
  have hcode : 0x20 ≤ c.toNat ∧ c.toNat ≠ 0x7F := by
    rcases h with ((h | h) | h) | rfl
    · simp at h
      omega
    · simp at h
      omega
    · simp at h
      omega
    · decide
  simp [isTextChar, hcode]

theorem Target.named_of_validateName {t : Target} (h : t.validateName = .ok ()) : t.Named := by
  have hnamed : ({ t with sources := [⟨""⟩] } : Target).Named := by
    apply named_of_validate
    show (t.validateName >>= fun _ => .ok ()) = .ok ()
    rw [h]
    rfl
  exact hnamed

theorem Target.harmless_name {t : Target} (h : t.Named) : Harmless t.name := by
  intro c hc
  by_cases hdot : c = '.'
  · rw [hdot]
    decide
  · obtain ⟨part, hpart, hmem⟩ := mem_piece_of_mem hc hdot
    exact isHarmless_of_isNameChar ((h part hpart).2 c hmem)

namespace Manifest

/-- A package is as harmless as its module name, which differs from it in its beginning
    and in having no dashes. -/
theorem harmless_of_moduleName {package : String} (h : Harmless (moduleNameFor package)) :
    Harmless package := by
  have hdash (cs : List Char) (hcs : ∀ c ∈ cs.map fun c => if c = '-' then '_' else c,
      isHarmless c = true) : ∀ c ∈ cs, isHarmless c = true := by
    intro c hc
    have hmap := hcs _ (List.mem_map_of_mem hc)
    split at hmap
    · rename_i heq
      rw [heq]
      decide
    · exact hmap
  simp only [Harmless, moduleNameFor, String.toList_append, String.toList_ofList] at h ⊢
  have hlanguage := fun c hc => h c (List.mem_append_right _ hc)
  split at hlanguage
  · rename_i hstart
    have hrest := hdash _ hlanguage
    have hfront := List.prefix_iff_eq_append.1 (List.isPrefixOf_iff_prefix.1 hstart)
    intro c hc
    rw [← hfront] at hc
    rcases List.mem_append.1 hc with hc | hc
    · have hall : Harmless "tree-sitter-" := by decide
      exact hall c hc
    · exact hrest c hc
  · exact hdash _ hlanguage

end Manifest

/-! ### The text -/

namespace Manifest

/-- The sources of a grammar's extension. -/
def firstSources (withScanner : Bool) : List String :=
  "src/parser.c" :: if withScanner then ["src/scanner.c"] else []

/-- The lines of a generated manifest. -/
def generatedLines (package moduleName : String) (withScanner : Bool) : List PlainLine :=
  [.table "package",
   .pair "name" (.text package),
   .pair "version" (.text "0.1.0"),
   .blank,
   .item "extension",
   .pair "name" (.text moduleName),
   .pair "sources" (.texts (firstSources withScanner)),
   .pair "extra_compile_args" (.texts ["-std=c11"]),
   .pair "include_dirs" (.texts ["src"])]

theorem toList_generate (package moduleName : String) (withScanner : Bool) :
    (generate package moduleName withScanner).toList =
      PlainLine.document (generatedLines package moduleName withScanner) := by
  cases withScanner with
  | false =>
    simp [generate, PlainLine.document, generatedLines, PlainLine.chars, PlainValue.chars, quoted,
      quotedList, quotedItems, firstSources]
  | true =>
    simp [generate, PlainLine.document, generatedLines, PlainLine.chars, PlainValue.chars, quoted,
      quotedList, quotedItems, firstSources]

theorem readable_generatedLines {package moduleName : String} (hp : Harmless package)
    (hm : Harmless moduleName) (withScanner : Bool) :
    ∀ l ∈ generatedLines package moduleName withScanner, l.Readable := by
  have hsources : ∀ s ∈ firstSources withScanner, Harmless s := by
    cases withScanner with
    | false => decide
    | true => decide
  intro l hl
  simp only [generatedLines, List.mem_cons, List.not_mem_nil, or_false] at hl
  rcases hl with rfl | rfl | rfl | rfl | rfl | rfl | rfl | rfl | rfl
  · exact (by decide : BareKey "package")
  · exact ⟨by decide, hp⟩
  · exact ⟨by decide, (by decide : Harmless "0.1.0")⟩
  · trivial
  · exact (by decide : BareKey "extension")
  · exact ⟨by decide, hm⟩
  · exact ⟨by decide, hsources⟩
  · exact ⟨by decide, (by decide : ∀ t ∈ ["-std=c11"], Harmless t)⟩
  · exact ⟨by decide, (by decide : ∀ t ∈ ["src"], Harmless t)⟩

/-- The declaration of a generated manifest. -/
def firstDeclaration (package moduleName : String) (withScanner : Bool) : Declaration where
  package := { name := package, version := "0.1.0" }
  extensions :=
    [{ name := moduleName
       sources := (firstSources withScanner).map Path.mk
       compileArgs := ["-std=c11"]
       includeDirs := [⟨"src"⟩] }]
  profiles := []

theorem read_generate {package moduleName : String} (hp : Harmless package)
    (hm : Harmless moduleName) (withScanner : Bool) :
    Declaration.read (generate package moduleName withScanner) =
      .ok (firstDeclaration package moduleName withScanner) := by
  have hread : Toml.read? (generate package moduleName withScanner) =
      some [("package", .table .header [("name", .string package), ("version", .string "0.1.0")]),
        ("extension", .tables [[("name", .string moduleName),
          ("sources", .array ((firstSources withScanner).map .string)),
          ("extra_compile_args", .array [.string "-std=c11"]),
          ("include_dirs", .array [.string "src"])]])] := by
    rw [PlainLine.read?_of_toList (toList_generate package moduleName withScanner)
      (readable_generatedLines hp hm withScanner)]
    rfl
  rw [Declaration.read, hread]
  cases withScanner with
  | false => rfl
  | true => rfl

theorem readVersion_first (package : String) :
    ({ name := package, version := "0.1.0" } : Package).readVersion =
      .ok { major := 0, minor := 1, patch := 0, preRelease := "", build := "" } := by
  have hread : Version.read "0.1.0" =
      .ok { major := 0, minor := 1, patch := 0, preRelease := "", build := "" } := by decide
  rw [Package.readVersion]
  simp only [hread]
  rfl

/-- A generated manifest is read back where its names can stand between quotes. -/
theorem parse_generated {package moduleName : String} (hp : Harmless package)
    (withScanner : Bool) (dir : Path)
    (hm : ({ name := moduleName, sources := [⟨"src/parser.c"⟩] } : Target).validateName = .ok ()) :
    parse (generate package moduleName withScanner) dir =
      .ok { package := { name := package, version := "0.1.0" }
            targets := (firstDeclaration package moduleName withScanner).extensions
            profiles := profilesOf []
            dir := dir } := by
  have hname := Target.harmless_name (Target.named_of_validateName hm)
  have hcheck : checkTargets [] (firstDeclaration package moduleName withScanner).extensions =
      .ok () := by
    have hvalid : ∀ t ∈ (firstDeclaration package moduleName withScanner).extensions,
        t.validate = .ok () := by
      intro t ht
      rw [List.mem_singleton.1 ht]
      show (({ name := moduleName, sources := [⟨"src/parser.c"⟩] } : Target).validateName >>=
        fun _ => .ok ()) = .ok ()
      rw [hm]
      rfl
    rw [firstDeclaration, checkTargets, hvalid _ List.mem_cons_self]
    rfl
  rw [parse_of_read (read_generate hp hname withScanner), ofDeclaration, hcheck]
  simp only [firstDeclaration, readVersion_first]
  rfl

/-- **A first manifest is read back.**  For every package whose module name is valid,
    the manifest written for it is one that the tool reads, and it says what was asked
    for: the package under its own name, one target, and no profile of its own. -/
theorem parse_generate (package : String) (withScanner : Bool) (dir : Path)
    (hname : ({ name := moduleNameFor package, sources := [⟨"src/parser.c"⟩] } :
      Target).validateName = .ok ()) :
    ∃ m, parse (generate package (moduleNameFor package) withScanner) dir = .ok m ∧
      m.package.name = package ∧
      m.package.version = "0.1.0" ∧
      m.package.readVersion =
        .ok { major := 0, minor := 1, patch := 0, preRelease := "", build := "" } ∧
      m.targets =
        [{ name := moduleNameFor package
           sources := ⟨"src/parser.c"⟩ :: (if withScanner then [⟨"src/scanner.c"⟩] else [])
           compileArgs := ["-std=c11"]
           includeDirs := [⟨"src"⟩]
           definitions := []
           linkArgs := [] }] ∧
      m.profiles = Table.ofList [("debug", .debugDefault), ("release", .releaseDefault)] ∧
      m.dir = dir := by
  have hmodule := Target.harmless_name (Target.named_of_validateName hname)
  have hpackage : Harmless package := harmless_of_moduleName hmodule
  refine ⟨_, parse_generated hpackage withScanner dir hname, rfl, rfl, readVersion_first package,
    ?_, rfl, rfl⟩
  cases withScanner with
  | false => rfl
  | true => rfl

/-- A package whose name has dashes and a dot in it. -/
theorem parse_generate_dotted :
    ({ name := "tree_sitter_a_b.c", sources := [⟨"src/parser.c"⟩] } : Target).validateName = .ok () ∧
      ∃ m, parse (generate "tree-sitter-a-b.c" "tree_sitter_a_b.c" true) ⟨"/p"⟩ = .ok m ∧
        m.package.name = "tree-sitter-a-b.c" ∧
        m.targetNames = ["tree_sitter_a_b.c"] := by
  have hvalid : ({ name := moduleNameFor "tree-sitter-a-b.c", sources := [⟨"src/parser.c"⟩] } :
      Target).validateName = .ok () := by decide
  obtain ⟨m, hm, hpackage, -, -, htargets, -⟩ :=
    parse_generate "tree-sitter-a-b.c" true ⟨"/p"⟩ hvalid
  refine ⟨hvalid, m, hm, hpackage, ?_⟩
  rw [targetNames, htargets]
  rfl

end Manifest

/-! ### The project -/

namespace FileTree

variable {t u : FileTree} {cwd : Location} {p : Path} {bytes : ByteArray}

/-- A file that was neither lost nor changed is read as before. -/
theorem Keeps.readFile (k : Keeps t u)
    (same : u.node? (p.locate cwd) = t.node? (p.locate cwd)) (h : t.readFile cwd p = .ok bytes) :
    u.readFile cwd p = .ok bytes := by
  have found := pathExists_of_readFile h
  unfold FileTree.readFile at h ⊢
  rwa [openRead_of_found found (k.pathExists found) same]

end FileTree

/-- A file that is written where it belongs is all that changes. -/
theorem FileTree.writeFile_changes {t u : FileTree} {cwd : Location} {p : Path}
    {bytes : ByteArray} (h : t.writeFile cwd p bytes = .ok u) :
    Keeps t u ∧ ∀ l, l ≠ p.locate cwd → u.node? l = t.node? l := by
  obtain ⟨rfl, -, hdir⟩ := writeFile_ok h
  refine ⟨keeps_writeAt hdir, ?_⟩
  intro l hl
  rw [node?_writeAt, if_neg fun hw => hl hw.2]

theorem runOn_ensureGitignore (dir : Path) (env : Environment) (h : Host) :
    (ensureGitignore dir).runOn env h =
      match if h.files.pathExists env.cwd (dir.child ".gitignore") then
          h.files.readText env.cwd (dir.child ".gitignore") else .ok "" with
      | .error f => (.error ⟨[.reading (dir.child ".gitignore")], .host f⟩, h)
      | .ok existing =>
        if (Text.lines existing).any Gitignore.isEntry then (.ok (), h)
        else (Action.within (.writing (dir.child ".gitignore")) (Action.writeText
          (dir.child ".gitignore") (Gitignore.withEntry existing))).runOn env h := by
  unfold ensureGitignore
  rw [Action.runOn_bind, Action.runOn_pathExists]
  cases h.files.pathExists env.cwd (dir.child ".gitignore") with
  | false =>
    simp only [Bool.false_eq_true, if_false, pure_bind]
    rw [Action.runOn_ite]
    rfl
  | true =>
    simp only [if_true]
    rw [Action.runOn_bind, Action.runOn_within, Action.runOn_readText]
    cases h.files.readText env.cwd (dir.child ".gitignore") with
    | error f => rfl
    | ok existing =>
      show (if _ then pure () else _ : Action Unit).runOn env h = _
      rw [Action.runOn_ite]
      rfl

/-- The entry in `.gitignore` is all that is written. -/
theorem ensureGitignore_files {dir : Path} {env : Environment} {h h' : Host}
    (run : (ensureGitignore dir).runOn env h = (.ok (), h')) :
    FileTree.Keeps h.files h'.files ∧
      ∀ l, l ≠ (dir.child ".gitignore").locate env.cwd → h'.files.node? l = h.files.node? l := by
  rw [runOn_ensureGitignore] at run
  split at run
  · cases run
  · split at run
    · cases run
      exact ⟨.refl _, fun _ _ => rfl⟩
    · obtain ⟨u, hu, rfl⟩ := Action.runOn_writeText_ok run
      exact FileTree.writeFile_changes hu

/-- The part of `initProject` that is left when the package's name is known. -/
def startPackage (dir : Path) (package : String) : Action InitResult := do
  let manifest := dir.child Manifest.fileName
  let moduleName := Manifest.moduleNameFor package
  let target : Target := { name := moduleName, sources := [⟨"src/parser.c"⟩] }
  Action.ofExcept (Failure.lift .target target.validateName)
  let withScanner ← Action.isFile ((dir.child "src").child "scanner.c")
  Action.within (.writing manifest)
    (Action.writeText manifest (Manifest.generate package moduleName withScanner))
  ensureGitignore dir
  Action.log .debug ("wrote " ++ manifest.text)
  return { manifest, package, moduleName, withScanner }

/-- What was started has a valid name, and its manifest is the file that was written. -/
theorem startPackage_ok {dir : Path} {package : String} {env : Environment} {h h' : Host}
    {r : InitResult} (run : (startPackage dir package).runOn env h = (.ok r, h')) :
    r.package = package ∧ r.moduleName = Manifest.moduleNameFor package ∧
      ({ name := Manifest.moduleNameFor package, sources := [⟨"src/parser.c"⟩] } :
        Target).validateName = .ok () ∧
      h'.files.readFile env.cwd r.manifest =
        .ok (Manifest.generate package (Manifest.moduleNameFor package) r.withScanner).toUTF8 := by
  unfold startPackage at run
  obtain ⟨valid, h₁, hvalid, run⟩ := Action.runOn_bind_ok run
  obtain ⟨withScanner, h₂, -, run⟩ := Action.runOn_bind_ok run
  obtain ⟨written, h₃, hwrite, run⟩ := Action.runOn_bind_ok run
  obtain ⟨ignored, h₄, hignore, hlast⟩ := Action.runOn_bind_ok run
  obtain ⟨u, hu, rfl⟩ := Action.runOn_writeText_ok hwrite
  obtain ⟨hkeeps, hsame⟩ := ensureGitignore_files hignore
  rw [Action.runOn_bind, Action.runOn_log] at hlast
  simp only [Action.runOn_pure, Prod.mk.injEq, Except.ok.injEq] at hlast
  obtain ⟨rfl, rfl⟩ := hlast
  refine ⟨rfl, rfl, ?_, ?_⟩
  · cases hv : ({ name := Manifest.moduleNameFor package, sources := [⟨"src/parser.c"⟩] } :
        Target).validateName with
    | error e =>
      rw [Action.runOn_ofExcept, hv] at hvalid
      cases hvalid
    | ok _ => rfl
  · have hplain : PlainName Manifest.fileName ∧ PlainName ".gitignore" :=
      ⟨by constructor <;> decide, by constructor <;> decide⟩
    apply hkeeps.readFile _ (FileTree.readFile_of_writeFile hu)
    apply hsame
    rw [locate_child hplain.1, locate_child hplain.2]
    simp [Manifest.fileName]

/-- **A project that was started can be loaded.** -/
theorem load_of_initProject {dir : Path} {name : Option String} {env : Environment}
    {h h' : Host} {r : InitResult} (run : (initProject dir name).runOn env h = (.ok r, h')) :
    ∃ m, (Manifest.load r.manifest).runOn env h' = (.ok m, h') ∧ m.package.name = r.package ∧
      m.targetNames = [r.moduleName] := by
  have hstart : ∃ package h₁, (startPackage dir package).runOn env h₁ = (.ok r, h') := by
    unfold initProject at run
    obtain ⟨-, h₁, -, run⟩ := Action.runOn_bind_ok run
    obtain ⟨there, h₂, -, run⟩ := Action.runOn_bind_ok run
    simp only [] at run
    split at run
    · cases run
    · cases name with
      | some n => exact ⟨n, h₂, run⟩
      | none =>
        obtain ⟨package, h₃, -, run⟩ := Action.runOn_bind_ok run
        exact ⟨package, h₃, run⟩
  obtain ⟨package, h₁, hrun⟩ := hstart
  obtain ⟨hpackage, hmodule, hvalid, hfile⟩ := startPackage_ok hrun
  have htext := FileTree.readText_of_readFile hfile
  have hharmless := Target.harmless_name (Target.named_of_validateName hvalid)
  have hparse (d : Path) : ∃ m, Manifest.parse (Manifest.generate package
      (Manifest.moduleNameFor package) r.withScanner) d = .ok m ∧ m.package.name = package ∧
      m.targetNames = [Manifest.moduleNameFor package] :=
    ⟨_, Manifest.parse_generated (Manifest.harmless_of_moduleName hharmless) r.withScanner d hvalid,
      rfl, rfl⟩
  obtain ⟨m, hm, hname, htargets⟩ := hparse
    ((r.manifest.absoluteFrom ⟨env.cwd.text⟩).parent?.getD (r.manifest.absoluteFrom ⟨env.cwd.text⟩))
  refine ⟨m, ?_, hname.trans hpackage.symm, by rw [htargets, hmodule]⟩
  rw [Manifest.runOn_load htext, hm]
  rfl

end GrammarBuild
