import GrammarBuild.CommandLine.Run
import GrammarBuild.Proofs.ManifestSearch
import GrammarBuild.Proofs.Refusals
import GrammarBuild.Proofs.RelativePaths

/-
  GrammarBuild/Proofs/StoredCompilers.lean
  ========================================
  **A compiler override means one file** — a compiler that is given with a directory is kept
  relative to the project's root, and taken from the root again it leads to the place that
  was meant where it was given (`override_keeps_compiler`).  What is kept always has a
  directory, so that it is never taken for the name of a program to be searched for.

  Three conversions have to undo each other: the path is continued from the working
  directory, made relative to the root, and continued from the root.  The last two are
  `anchoredAt_storedForm`.
-/

namespace GrammarBuild.CommandLine

open GrammarBuild.Path FileTree

/-- The path that is meant by a compiler given with a directory: the one without detours
    if there is something at it, else the one from the working directory. -/
def compilerMeant (t : FileTree) (cwd : Location) (c : Caller) (cc : Path) : Path :=
  match t.canonical cwd (c.cwd.join cc) with
  | .ok p => p
  | .error _ => c.cwd.join cc

/-- A path as it is kept relative to the root. -/
def storedForm (root p : Path) : Path :=
  if (relativeTo root p).hasDirectory then relativeTo root p else (⟨"."⟩ : Path).join (relativeTo root p)

variable {c : Caller} {root cc : Path} {names : List String}

theorem isAbsolute_compilerMeant (hcwd : c.cwd.isAbsolute = true) (t : FileTree) (cwd : Location) :
    (compilerMeant t cwd c cc).isAbsolute = true := by
  unfold compilerMeant canonical
  cases t.resolve cwd (c.cwd.join cc) with
  | ok l => exact Location.isAbsolute_text l
  | error e => exact isAbsolute_join_left hcwd

/-- Keeping a compiler looks at the files only. -/
theorem runOn_storedCompiler (c : Caller) (root cc : Path) (env : Environment) (h : Host) :
    (storedCompiler c root cc).runOn env h =
      (.ok (if cc.hasDirectory then storedForm root (compilerMeant h.files env.cwd c cc) else cc), h) := by
  unfold storedCompiler
  cases hcc : cc.hasDirectory with
  | false => rfl
  | true =>
    simp only [Bool.not_true, Bool.false_eq_true, if_false, if_true, Action.runOn_bind,
      Action.runOn_attempt, Action.canonical, Action.runOn_look, Action.runOn_ofFault]
    unfold compilerMeant
    cases h.files.canonical env.cwd (c.cwd.join cc) with
    | ok p => rfl
    | error e => rfl

/-! ### There and back -/

theorem isStep_ne_root {s : Component} (h : s.IsStep) : s ≠ .root := by
  rintro rfl
  exact h.noSlash (by decide)

/-- Steps that are written down are a relative path. -/
theorem isAbsolute_ofComponents {cs : List Component} (h : ∀ s ∈ cs, s.IsStep) :
    (ofComponents ⟨""⟩ cs).isAbsolute = false := by
  rw [← Bool.not_eq_true, components_head?, components_ofComponents h]
  intro hhead
  exact isStep_ne_root (h _ (List.mem_of_mem_head? hhead)) rfl

/-- A single step is written behind `./`. -/
theorem components_behindDot {s : Component} (h : s.IsStep) :
    ((⟨"."⟩ : Path).join (ofComponents ⟨""⟩ [s])).components = [.here, s] := by
  have hchild : ((⟨"."⟩ : Path).child s.text).components = [.here] ++ (some s).toList :=
    h.part ▸ Glob.components_child_part (by decide) h.noSlash
  rw [h.ofComponents_singleton]
  exact hchild

/-- What is kept has a directory, and leads from the root's location to the path's. -/
theorem storedForm_spec (hroot : root.components = .root :: names.map .normal) {p : Path}
    (hp : p.isAbsolute = true) (apart : p.components ≠ root.components) :
    (storedForm root p).hasDirectory = true ∧
      ∀ cwd, (storedForm root p).locate names = p.locate cwd := by
  obtain ⟨cs, hrelative, hsteps, hplace, hnil⟩ := exists_relativeTo hroot hp
  have hcomponents := components_ofComponents hsteps
  have habs := isAbsolute_ofComponents hsteps
  unfold storedForm
  rw [hrelative]
  by_cases hlong : 1 < cs.length
  · have hdirectory : (ofComponents ⟨""⟩ cs).hasDirectory = true := by
      rw [hasDirectory, habs, hcomponents]
      exact decide_eq_true hlong
    rw [if_pos hdirectory]
    refine ⟨hdirectory, fun cwd => ?_⟩
    rw [locate, hcomponents, hplace]
  · -- the path is in the root or right above it
    obtain ⟨s, rfl⟩ : ∃ s, cs = [s] := by
      rcases cs with _ | ⟨s, _ | ⟨s', cs⟩⟩
      · exact absurd (hnil rfl) apart
      · exact ⟨s, rfl⟩
      · exact absurd (Nat.lt_add_of_pos_left (Nat.succ_pos _)) hlong
    have hbare : (ofComponents ⟨""⟩ [s]).hasDirectory = false := by
      rw [hasDirectory, hcomponents]
      exact Bool.and_false _
    have hdot := components_behindDot (hsteps s (List.mem_singleton.2 rfl))
    rw [hbare, if_neg Bool.false_ne_true]
    constructor
    · rw [hasDirectory, hdot, isAbsolute_join habs]
      rfl
    · intro cwd
      rw [← hplace cwd, locate, hdot]
      rfl

theorem foldl_normal (l : Location) (names : List String) :
    (names.map Component.normal).foldl Component.from l = l ++ names := by
  induction names generalizing l with
  | nil => exact (List.append_nil l).symm
  | cons name names ih =>
    rw [List.map_cons, List.foldl_cons, ih, Component.from, List.append_assoc, List.singleton_append]

/-- Taken from the root, what is kept leads to the place of the path. -/
theorem anchoredAt_storedForm (hroot : root.components = .root :: names.map .normal) {p : Path}
    (hp : p.isAbsolute = true) (apart : p.components ≠ root.components) :
    ((storedForm root p).anchoredAt root).isAbsolute = true ∧
      ∀ cwd, ((storedForm root p).anchoredAt root).locate cwd = p.locate cwd := by
  obtain ⟨hdirectory, hplace⟩ := storedForm_spec hroot hp apart
  have habs : root.isAbsolute = true := (components_head? root).2 (by rw [hroot]; rfl)
  refine ⟨isAbsolute_anchoredAt habs hdirectory, fun cwd => ?_⟩
  have hrootPlace : root.locate cwd = names := by
    rw [locate, hroot, List.foldl_cons, foldl_normal]
    rfl
  rw [anchoredAt, if_pos hdirectory, locate_join, hrootPlace, hplace]

/-! ### The command -/

/-- Looking for the manifest leaves the host as it is. -/
theorem host_findManifest (c : Caller) (env : Environment) (h : Host) :
    (c.findManifest.runOn env h).2 = h := by
  obtain ⟨n, r, ends, -⟩ := exists_searchEnds h.files env.cwd c.cwd
  rw [runOn_findManifest c ends]

theorem host_loadWorkspace (p : Path) (env : Environment) (h : Host) :
    ((Workspace.load p).runOn env h).2 = h :=
  host_bind (Manifest.host_load p) fun _ => rfl

theorem host_loadSettings (p : Path) (env : Environment) (h : Host) :
    ((ToolchainSettings.load p).runOn env h).2 = h :=
  host_bind rfl fun _ => rfl

/-- What is saved once the settings that are there are known. -/
theorem saves_merged {s old : ToolchainSettings} (hcc : s.cc = some cc) {w : Workspace} {p : Path}
    {env : Environment} {h h' : Host}
    (ran : (do
      let cc ← s.cc.mapM (storedCompiler c w.root)
      let new := old.merge { s with cc }
      if !new.hasOverrides then Action.fail .nothingToOverride
      new.save p
      status ("       Wrote " ++ p.text)).runOn env h = (.ok (), h')) :
    ∃ (settings : ToolchainSettings) (h₂ : Host), settings.cc = some
        (if cc.hasDirectory then storedForm w.root (compilerMeant h.files env.cwd c cc) else cc) ∧
      (settings.save p).runOn env h = (.ok (), h₂) ∧ h'.files = h₂.files := by
  rw [hcc, Option.mapM_some, Action.runOn_bind, map_eq_pure_bind, Action.runOn_bind,
    runOn_storedCompiler] at ran
  simp only [Action.runOn_pure] at ran
  generalize hstored : (if cc.hasDirectory then storedForm w.root (compilerMeant h.files env.cwd c cc)
    else cc) = stored at ran
  have hoverrides : (old.merge { s with cc := some stored }).hasOverrides = true := rfl
  rw [hoverrides] at ran
  simp only [Bool.not_true, Bool.false_eq_true, if_false] at ran
  obtain ⟨u, h₂, hsave, ran⟩ := Action.runOn_bind_ok ran
  refine ⟨old.merge { s with cc := some stored }, h₂, rfl, hsave, ?_⟩
  cases ran
  rfl

/-- A successful override saves settings with the compiler as it is kept. -/
theorem runOverrideToolchain_saves {s : ToolchainSettings} (hcc : s.cc = some cc) {env : Environment}
    {h h' : Host} (ran : (runOverrideToolchain c s).runOn env h = (.ok (), h')) :
    ∃ (w : Workspace) (settings : ToolchainSettings) (h₂ : Host),
      (c.findManifest >>= Workspace.load).runOn env h = (.ok w, h) ∧
      settings.cc = some
        (if cc.hasDirectory then storedForm w.root (compilerMeant h.files env.cwd c cc) else cc) ∧
      (settings.save w.toolchainConfigPath).runOn env h = (.ok (), h₂) ∧ h'.files = h₂.files := by
  have same {α : Type} {x : Action α} {a : α} {h₁ : Host} (hx : x.runOn env h = (.ok a, h₁))
      (host : (x.runOn env h).2 = h) : x.runOn env h = (.ok a, h) := by
    rw [hx] at host ⊢
    rw [show h₁ = h from host]
  unfold runOverrideToolchain at ran
  obtain ⟨p, h₁, hfind, -⟩ := Action.runOn_bind_ok ran
  replace hfind := same hfind (host_findManifest c env h)
  rw [Action.runOn_bind, hfind] at ran
  obtain ⟨w, h₁, hload, -⟩ := Action.runOn_bind_ok ran
  replace hload := same hload (host_loadWorkspace p env h)
  simp only [Action.runOn_bind _ _ (Workspace.load p), hload] at ran
  have hworkspace : (c.findManifest >>= Workspace.load).runOn env h = (.ok w, h) := by
    rw [Action.runOn_bind, hfind]
    exact hload
  rw [Action.runOn_bind, Action.runOn_pathExists] at ran
  cases hthere : h.files.pathExists env.cwd w.toolchainConfigPath with
  | true =>
    simp only [hthere, if_true] at ran
    obtain ⟨old, h₁, hold, -⟩ := Action.runOn_bind_ok ran
    replace hold := same hold (host_loadSettings _ env h)
    rw [Action.runOn_bind, hold] at ran
    exact ⟨w, (saves_merged hcc ran).imp fun _ => Exists.imp fun _ => And.intro hworkspace⟩
  | false =>
    simp only [hthere, Bool.false_eq_true, if_false] at ran
    exact ⟨w, (saves_merged hcc ran).imp fun _ => Exists.imp fun _ => And.intro hworkspace⟩

/-- **An override means the same file where it is given and where it is used.**  A compiler
    given with a directory is kept in a form that has one, too, and taken from the root it
    is an absolute path to the place that was meant; any other compiler is kept and used as
    it is given.  This is what a successful override saves. -/
theorem override_keeps_compiler (env : Environment) (h : Host)
    (hroot : root.components = .root :: names.map .normal) (hcwd : c.cwd.isAbsolute = true)
    (apart : cc.hasDirectory = true →
      (compilerMeant h.files env.cwd c cc).components ≠ root.components) :
    ∃ stored, (storedCompiler c root cc).runOn env h = (.ok stored, h) ∧
      (cc.hasDirectory = true → stored.hasDirectory = true ∧ ∃ used : Path,
        (({ cc := some stored } : ToolchainSettings).anchoredAt root).cc = some used ∧
        used.isAbsolute = true ∧
        ∀ cwd, used.locate cwd = (compilerMeant h.files env.cwd c cc).locate cwd) ∧
      (cc.hasDirectory = false → stored = cc ∧
        (({ cc := some stored } : ToolchainSettings).anchoredAt root).cc = some cc) ∧
      ∀ s w h', s.cc = some cc → (c.findManifest >>= Workspace.load).runOn env h = (.ok w, h) →
        w.root = root → (runOverrideToolchain c s).runOn env h = (.ok (), h') →
        ∃ (settings : ToolchainSettings) (h₂ : Host), settings.cc = some stored ∧
          (settings.save w.toolchainConfigPath).runOn env h = (.ok (), h₂) ∧ h'.files = h₂.files := by
  refine ⟨_, runOn_storedCompiler c root cc env h, ?_, ?_, ?_⟩
  · intro hcc
    rw [if_pos hcc]
    have hmeant : (compilerMeant h.files env.cwd c cc).isAbsolute = true :=
      isAbsolute_compilerMeant hcwd h.files env.cwd
    obtain ⟨habs, hplace⟩ := anchoredAt_storedForm hroot hmeant (apart hcc)
    exact ⟨(storedForm_spec hroot hmeant (apart hcc)).1, _, rfl, habs, hplace⟩
  · intro hcc
    rw [hcc, if_neg Bool.false_ne_true]
    refine ⟨rfl, ?_⟩
    show some (cc.anchoredAt root) = some cc
    rw [anchoredAt, hcc, if_neg Bool.false_ne_true]
  · intro s w h' hcc loaded rfl ran
    obtain ⟨w', settings, h₂, loaded', hsettings, hsave, hfiles⟩ := runOverrideToolchain_saves hcc ran
    rw [loaded] at loaded'
    cases loaded'
    exact ⟨settings, h₂, hsettings, hsave, hfiles⟩

end CommandLine

namespace Sample

/-- A project with a compiler beside the directory where the tool is called. -/
def tooled : FileTree :=
  [(["p"], .dir), (["p", "sub"], .dir), (["p", "tools"], .dir),
    (["p", "tools", "cc"], .file "#!".toUTF8 true)].foldl (fun t e => t.set e.1 e.2) ∅

end Sample

/-- A compiler given from a directory of the project is kept as seen from the root. -/
theorem CommandLine.override_keeps_compiler_sibling :
    ∃ stored used : Path,
      (storedCompiler { cwd := ⟨"/p/sub"⟩ } ⟨"/p"⟩ ⟨"../tools/cc"⟩).runOn default
        { files := Sample.tooled } = (.ok stored, { files := Sample.tooled }) ∧
      (({ cc := some stored } : ToolchainSettings).anchoredAt ⟨"/p"⟩).cc = some used ∧
      used.isAbsolute = true ∧ used.locate [] = ["p", "tools", "cc"] := by
  have hmeant : compilerMeant ({ files := Sample.tooled } : Host).files (default : Environment).cwd
      { cwd := ⟨"/p/sub"⟩ } ⟨"../tools/cc"⟩ = ⟨"/p/tools/cc"⟩ := by decide
  obtain ⟨stored, hstored, hdirectory, -, -⟩ :=
    @override_keeps_compiler { cwd := ⟨"/p/sub"⟩ } ⟨"/p"⟩ ⟨"../tools/cc"⟩ ["p"] default
      { files := Sample.tooled } (by decide) (by decide) fun _ => by
        rw [hmeant]
        decide
  obtain ⟨-, used, hused, habs, hplace⟩ := hdirectory (by decide)
  refine ⟨stored, used, hstored, hused, habs, ?_⟩
  rw [hplace, hmeant]
  decide

end GrammarBuild
