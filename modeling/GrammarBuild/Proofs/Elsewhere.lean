import GrammarBuild.Proofs.ManifestSearch
import GrammarBuild.Proofs.Refusals

/-
  GrammarBuild/Proofs/Elsewhere.lean
  ==================================
  **The same commands from everywhere in a project** — the manifest that is found, the
  settings, the toolchain and the plan do not depend on the directory in the project from
  which the tool is called (`commands_same_elsewhere`), if the compiler that the settings
  name leads to no file there by its bare name.

  If it leads to one there, they do: a file in the caller's directory is taken for the
  compiler before the search path is looked at (`commands_differ_elsewhere`).
-/

namespace GrammarBuild

/-- Two surroundings with the same settings, the same absolute search path, the same refused
    writes and no choice of a compiler.  They differ in the working directory, from which a
    compiler that is given by an absolute path tells its version alike. -/
structure Environment.Beside (e₁ e₂ : Environment) : Prop where
  noCC : e₁.cc = none ∧ e₂.cc = none
  searchPath : e₂.searchPath = e₁.searchPath
  dirs : ∀ d ∈ searchDirs e₁.searchPath, d.isAbsolute = true
  configHome : e₂.configHome = e₁.configHome
  home : e₁.configHome.isAbsolute = true
  version : ∀ t cc, cc.isAbsolute = true →
    e₂.run t ⟨Toolchain.versionCommand cc, none⟩ = e₁.run t ⟨Toolchain.versionCommand cc, none⟩
  refuses : e₂.refuses = e₁.refuses

namespace Action

variable {α β : Type} {e₁ e₂ : Environment} {h : Host} {x y : Action α}

/-- The action comes to the same in both surroundings. -/
def SameAt (e₁ e₂ : Environment) (h : Host) (x : Action α) : Prop := x.runOn e₁ h = x.runOn e₂ h

theorem sameAt_pure (a : α) : SameAt e₁ e₂ h (pure a : Action α) := Eq.refl _

theorem sameAt_fail (cause : Cause) : SameAt e₁ e₂ h (fail cause : Action α) := Eq.refl _

theorem sameAt_ofExcept (r : Except Failure α) : SameAt e₁ e₂ h (ofExcept r) := Eq.refl _

theorem sameAt_log (level : Level) (text : String) : SameAt e₁ e₂ h (log level text) := Eq.refl _

theorem SameAt.bind {f : α → Action β} (hx : SameAt e₁ e₂ h x)
    (hf : ∀ a h', x.runOn e₁ h = (.ok a, h') → SameAt e₁ e₂ h' (f a)) :
    SameAt e₁ e₂ h (x >>= f) := by
  unfold SameAt at hx ⊢
  rw [runOn_bind, runOn_bind, ← hx]
  rcases hrun : x.runOn e₁ h with ⟨r, h'⟩
  cases r with
  | error e => rfl
  | ok a => exact hf a h' hrun

theorem sameAt_ofExcept_bind (r : Except Failure α) {f : α → Action β}
    (hf : ∀ a, SameAt e₁ e₂ h (f a)) : SameAt e₁ e₂ h (ofExcept r >>= f) := by
  refine (sameAt_ofExcept r).bind fun a h' ha => ?_
  rw [runOn_ofExcept] at ha
  obtain rfl : h = h' := congrArg Prod.snd ha
  exact hf a

/-- What is done with the surroundings may come to the same without their being the same. -/
theorem sameAt_read_bind {f : Environment → Action α} (h₁₂ : (f e₁).runOn e₁ h = (f e₂).runOn e₂ h) :
    SameAt e₁ e₂ h ((read : Action Environment) >>= f) := h₁₂

theorem SameAt.ite {p : Prop} [Decidable p] (hx : SameAt e₁ e₂ h x) (hy : SameAt e₁ e₂ h y) :
    SameAt e₁ e₂ h (if p then x else y) := by
  split
  · exact hx
  · exact hy

theorem SameAt.within (a : Activity) (hx : SameAt e₁ e₂ h x) : SameAt e₁ e₂ h (within a x) := by
  unfold SameAt at hx ⊢
  rw [runOn_within, runOn_within, hx]

theorem SameAt.attempt (hx : SameAt e₁ e₂ h x) : SameAt e₁ e₂ h (attempt x) := by
  unfold SameAt at hx ⊢
  rw [runOn_attempt, runOn_attempt, hx]

/-! ### The host -/

theorem sameAt_look {f : FileTree → Location → α} (hf : f h.files e₁.cwd = f h.files e₂.cwd) :
    SameAt e₁ e₂ h (look f) := by
  unfold SameAt
  rw [runOn_look, runOn_look, hf]

theorem sameAt_pathExists {p : Path} (hp : p.isAbsolute = true) : SameAt e₁ e₂ h (pathExists p) :=
  sameAt_look (h.files.pathExists_absolute hp _ _)

theorem sameAt_isFile {p : Path} (hp : p.isAbsolute = true) : SameAt e₁ e₂ h (isFile p) :=
  sameAt_look (h.files.isFile_absolute hp _ _)

theorem sameAt_readText {p : Path} (hp : p.isAbsolute = true) : SameAt e₁ e₂ h (readText p) :=
  (sameAt_look (h.files.readText_absolute hp _ _)).bind fun _ _ _ => Eq.refl _

theorem sameAt_ensureDir {p : Path} (hp : p.isAbsolute = true) : SameAt e₁ e₂ h (ensureDir p) := by
  refine (sameAt_pathExists hp).bind fun _ h' _ => .ite (.within _ ?_) (sameAt_pure _)
  unfold SameAt
  rw [runOn_changeWith, runOn_changeWith, FileTree.createDirs_absolute hp]

theorem sameAt_writeString (beside : e₁.Beside e₂) {p : Path} (hp : p.isAbsolute = true) (text : String) :
    SameAt e₁ e₂ h (writeString p text) := by
  have hwrite (h : Host) : SameAt e₁ e₂ h (within (.writingFile p) (writeText p text)) := by
    refine .within _ ?_
    unfold SameAt
    rw [runOn_writeText, runOn_writeText, beside.refuses,
      h.files.writeUnless_absolute hp e₁.cwd e₂.cwd]
  unfold writeString
  split
  · rename_i q hq
    exact (sameAt_ensureDir (Path.isAbsolute_of_parent? hq hp)).bind fun _ h' _ => hwrite h'
  · exact hwrite h

theorem runOn_searching (look : Search) (name : Path) (env : Environment) (h : Host) :
    (searching look name).runOn env h = (.ok (look env h.files name), h) := rfl

theorem runOn_which? (name : Path) (env : Environment) (h : Host) :
    (which? name).runOn env h = (.ok (h.files.which? env.cwd env.searchPath name), h) := rfl

theorem sameAt_which? (beside : e₁.Beside e₂) {name : Path} (hname : name.hasDirectory = false) :
    SameAt e₁ e₂ h (which? name) := by
  unfold SameAt
  rw [runOn_which?, runOn_which?, beside.searchPath,
    (FileTree.which?_absolute beside.dirs hname h.files e₁.cwd e₂.cwd).1]

theorem isAbsolute_of_which? (beside : e₁.Beside e₂) {name q : Path}
    (hname : name.hasDirectory = false) {h' : Host} (found : (which? name).runOn e₁ h = (.ok (some q), h')) :
    q.isAbsolute = true := by
  rw [runOn_which?] at found
  injection found with hq
  injection hq with hq
  exact (FileTree.which?_absolute beside.dirs hname h.files e₁.cwd e₁.cwd).2 q hq

end Action

open GrammarBuild.Action

variable {e₁ e₂ : Environment} {h : Host}

/-! ### The toolchain -/

namespace Toolchain

theorem sameAt_version (beside : e₁.Beside e₂) {cc : Path} (hcc : cc.isAbsolute = true) :
    SameAt e₁ e₂ h (exec (versionCommand cc) none) := by
  unfold SameAt
  rw [runOn_exec, runOn_exec, beside.version h.files cc hcc]

theorem sameAt_familyOf (beside : e₁.Beside e₂) {cc : Path} (hcc : cc.isAbsolute = true) :
    SameAt e₁ e₂ h (familyOf cc) := by
  unfold familyOf
  refine .ite (sameAt_pure _) ((sameAt_version beside hcc).attempt.bind fun r h' _ => ?_)
  split
  · exact sameAt_pure _
  · exact sameAt_pure _

theorem sameAt_linkerFor? (beside : e₁.Beside e₂) {cc : Path} (hcc : cc.isAbsolute = true) :
    SameAt e₁ e₂ h (linkerFor? cc) := by
  have hrest (found : Option Path) (isThere : Bool) (h : Host) :
      SameAt e₁ e₂ h (if isThere then pure found else which? ⟨"link"⟩) :=
    .ite (sameAt_pure _) (sameAt_which? beside rfl)
  unfold linkerFor?
  dsimp only
  cases hq : cc.parent? with
  | none => exact (sameAt_pure false).bind fun isThere h' _ => hrest _ isThere h'
  | some q =>
    have habs := Path.isAbsolute_child (Path.isAbsolute_of_parent? hq hcc) "link.exe"
    exact (sameAt_pathExists habs).bind fun isThere h' _ => hrest _ isThere h'

theorem sameAt_ofCompiler (beside : e₁.Beside e₂) {cc : Path} (hcc : cc.isAbsolute = true) :
    SameAt e₁ e₂ h (ofCompiler cc) := by
  unfold ofCompiler
  refine .ite ((sameAt_linkerFor? beside hcc).bind fun link h' _ => ?_) ?_
  · split
    · exact sameAt_pure _
    · exact sameAt_fail _
  · refine SameAt.bind (sameAt_familyOf beside hcc) fun family h' _ => ?_
    exact (sameAt_log _ _).bind fun _ _ _ => sameAt_pure _

/-- The usual names are looked for under absolute paths only. -/
theorem firstOf_absolute (beside : e₁.Beside e₂) {names : List String}
    (hnames : ∀ name ∈ names, (⟨name⟩ : Path).hasDirectory = false) (h : Host) :
    SameAt e₁ e₂ h (firstOf names) ∧
      ∀ q h', (firstOf names).runOn e₁ h = (.ok (some q), h') → q.isAbsolute = true := by
  induction names generalizing h with
  | nil =>
    refine ⟨sameAt_pure _, fun q h' found => ?_⟩
    cases found
  | cons name names ih =>
    have hname := hnames name List.mem_cons_self
    have hrest := ih fun n hn => hnames n (List.mem_cons_of_mem _ hn)
    constructor
    · refine (sameAt_which? beside hname).bind fun p h' _ => ?_
      split
      · exact sameAt_pure _
      · exact (hrest h').1
    · intro q h' found
      obtain ⟨p, h₁, hwhich, hlast⟩ := runOn_bind_ok found
      split at hlast
      · cases hlast
        exact isAbsolute_of_which? beside hname hwhich
      · exact (hrest h₁).2 q h' hlast

theorem runOn_findCompiler? {env : Environment} (noCC : env.cc = none) (h : Host) :
    findCompiler?.runOn env h = (firstOf ["cc", "gcc", "clang", "cl"]).runOn env h := by
  unfold findCompiler?
  rw [Action.runOn_bind, Action.runOn_read]
  simp only [noCC]

/-- Without a choice, the compiler is one of the usual names on the search path. -/
theorem findCompiler?_absolute (beside : e₁.Beside e₂) (h : Host) :
    SameAt e₁ e₂ h findCompiler? ∧
      ∀ q h', findCompiler?.runOn e₁ h = (.ok (some q), h') → q.isAbsolute = true := by
  have hnames : ∀ name ∈ ["cc", "gcc", "clang", "cl"], (⟨name⟩ : Path).hasDirectory = false := by
    decide
  unfold SameAt
  rw [runOn_findCompiler? beside.noCC.1, runOn_findCompiler? beside.noCC.2]
  exact firstOf_absolute beside hnames h

/-- The compiler that the settings name: the file if there is one, else what is found by the
    name. -/
theorem runOn_configured?_searching (look : Search) (cc : Path) (env : Environment) (h : Host) :
    (configured? cc (searching look)).runOn env h =
      (.ok (if h.files.isFile env.cwd cc then some cc else look env h.files cc), h) := by
  unfold configured?
  simp only [Action.runOn_bind, Action.isFile, Action.runOn_look, Action.runOn_ite,
    Action.runOn_pure, runOn_searching]
  split
  · rfl
  · rfl

theorem runOn_configured? (cc : Path) (env : Environment) (h : Host) :
    (configured? cc).runOn env h =
      (.ok (if h.files.isFile env.cwd cc then some cc
        else h.files.which? env.cwd env.searchPath cc), h) :=
  runOn_configured?_searching _ cc env h

/-- The compiler that is configured is absolute, or by its bare name no file in the two
    working directories. -/
def NoneNearby (e₁ e₂ : Environment) (t : FileTree) (cc : Path) : Prop :=
  cc.isAbsolute = false →
    cc.hasDirectory = false ∧ t.isFile e₁.cwd cc = false ∧ t.isFile e₂.cwd cc = false

theorem configured?_absolute (beside : e₁.Beside e₂) {cc : Path} {h : Host}
    (none_nearby : NoneNearby e₁ e₂ h.files cc) :
    SameAt e₁ e₂ h (configured? cc) ∧
      ∀ q h', (configured? cc).runOn e₁ h = (.ok (some q), h') → q.isAbsolute = true := by
  have hdirectory : cc.hasDirectory = false := by
    cases habs : cc.isAbsolute with
    | true => simp [Path.hasDirectory, habs]
    | false => exact (none_nearby habs).1
  have hfile : h.files.isFile e₁.cwd cc = h.files.isFile e₂.cwd cc := by
    cases habs : cc.isAbsolute with
    | true => exact h.files.isFile_absolute habs _ _
    | false => rw [(none_nearby habs).2.1, (none_nearby habs).2.2]
  obtain ⟨hwhich, hfound⟩ := FileTree.which?_absolute beside.dirs hdirectory h.files e₁.cwd e₂.cwd
  unfold SameAt
  rw [runOn_configured?, runOn_configured?, beside.searchPath, ← hwhich, hfile]
  refine ⟨rfl, fun q h' found => ?_⟩
  injection found with found
  injection found with found
  split at found
  · rename_i hthere
    obtain rfl : cc = q := Option.some.inj found
    cases habs : cc.isAbsolute with
    | true => rfl
    | false =>
      rw [(none_nearby habs).2.2] at hthere
      cases hthere
  · exact hfound q found

/-- The toolchain of the compiler that is configured, or else of one that is found. -/
theorem sameAt_ofConfigured (beside : e₁.Beside e₂) (configured : Option Path) (h : Host) :
    (∀ q, configured = some q → q.isAbsolute = true) → SameAt e₁ e₂ h (match configured with
      | some cc => ofCompiler cc
      | none => do
        match ← findCompiler? with
        | some cc => ofCompiler cc
        | none => Action.fail .noCompiler) := by
  intro habs
  cases configured with
  | some cc => exact sameAt_ofCompiler beside (habs cc rfl)
  | none =>
    obtain ⟨hsame, hfound⟩ := findCompiler?_absolute beside h
    refine hsame.bind fun p h' hp => ?_
    split
    · exact sameAt_ofCompiler beside (hfound _ _ hp)
    · exact sameAt_fail _

/-- The toolchain is the same, and so is everything that is told of it. -/
theorem sameAt_detect (beside : e₁.Beside e₂) {s : ToolchainSettings} {h : Host}
    (none_nearby : ∀ cc, s.cc = some cc → NoneNearby e₁ e₂ h.files cc) :
    SameAt e₁ e₂ h (detect s) := by
  unfold detect
  dsimp only
  split
  · exact (sameAt_pure none).bind fun p h' hp => sameAt_ofConfigured beside p h' (by cases hp; simp)
  · rename_i cc hcc
    obtain ⟨hsame, hfound⟩ := configured?_absolute beside (none_nearby cc hcc)
    refine hsame.bind fun p h' hp => ?_
    split
    · refine (sameAt_log _ _).bind fun _ _ _ => (sameAt_pure _).bind fun p' _ hp' => sameAt_ofConfigured beside p' _ ?_
      intro q hq
      cases hp'
      cases hq
      exact hfound _ _ hp
    · exact (sameAt_log _ _).bind fun _ _ _ =>
        (sameAt_pure none).bind fun p' _ hp' => sameAt_ofConfigured beside p' _ (by cases hp'; simp)

end Toolchain

theorem BuildContext.sameAt_detect (beside : e₁.Beside e₂) (w : Workspace) {s : ToolchainSettings}
    (none_nearby : ∀ cc, s.cc = some cc → Toolchain.NoneNearby e₁ e₂ h.files cc) :
    SameAt e₁ e₂ h (detect w s) :=
  (Toolchain.sameAt_detect beside none_nearby).bind fun _ _ _ => sameAt_ofExcept _

/-! ### The settings -/

theorem sameAt_orWarn {α : Type} {p : Path} (hp : p.isAbsolute = true) (default : α) {x : Action α}
    (hx : SameAt e₁ e₂ h x) : SameAt e₁ e₂ h (orWarn p default x) := by
  unfold orWarn
  refine (sameAt_pathExists hp).bind fun there h' hthere => ?_
  cases hthere
  refine .ite (sameAt_pure _) (hx.attempt.bind fun r h' _ => ?_)
  split
  · exact sameAt_pure _
  · exact (sameAt_log _ _).bind fun _ _ _ => sameAt_pure _

theorem BuildSettings.sameAt_load {p : Path} (hp : p.isAbsolute = true) : SameAt e₁ e₂ h (load p) :=
  SameAt.bind ((sameAt_readText hp).within _) fun _ _ _ => (sameAt_ofExcept _).within _

theorem ToolchainSettings.sameAt_load {p : Path} (hp : p.isAbsolute = true) :
    SameAt e₁ e₂ h (load p) :=
  SameAt.bind ((sameAt_readText hp).within _) fun _ _ _ => (sameAt_ofExcept _).within _

theorem BuildSettings.sameAt_loadBoth {user project : Path} (huser : user.isAbsolute = true)
    (hproject : project.isAbsolute = true) : SameAt e₁ e₂ h (loadBoth user project) :=
  SameAt.bind (sameAt_orWarn huser _ (sameAt_load huser)) fun _ _ _ =>
    SameAt.bind (sameAt_orWarn hproject _ (sameAt_load hproject)) fun _ _ _ => sameAt_pure _

theorem ToolchainSettings.sameAt_loadBoth {user project : Path} (huser : user.isAbsolute = true)
    (hproject : project.isAbsolute = true) : SameAt e₁ e₂ h (loadBoth user project) :=
  SameAt.bind (sameAt_orWarn huser _ (sameAt_load huser)) fun _ _ _ =>
    SameAt.bind (sameAt_orWarn hproject _ (sameAt_load hproject)) fun _ _ _ => sameAt_pure _

/-- The settings in a file; none if it cannot be read. -/
def ToolchainSettings.inFile (t : FileTree) (p : Path) : ToolchainSettings :=
  match t.readText [] p with
  | .ok text =>
    match read text with
    | .ok s => s
    | .error _ => {}
  | .error _ => {}

/-- The settings of the user's and the project's file. -/
def ToolchainSettings.inFiles (t : FileTree) (user project : Path) : ToolchainSettings :=
  (({} : ToolchainSettings).merge (inFile t user)).merge (inFile t project)

theorem readText_of_not_pathExists {t : FileTree} {cwd : Location} {p : Path}
    (missing : t.pathExists cwd p = false) : ∃ f, t.readText cwd p = .error f := by
  cases hr : t.readText cwd p with
  | error f => exact ⟨f, rfl⟩
  | ok text =>
    unfold FileTree.readText at hr
    cases hb : t.readFile cwd p with
    | error f =>
      rw [hb] at hr
      cases hr
    | ok bytes =>
      rw [FileTree.pathExists_of_readFile hb] at missing
      cases missing

/-- Loading a settings file gives what is read from it; a file that cannot be read is
    complained about. -/
theorem runOn_orWarn_read {σ : Type} (read : String → Except DocumentFault σ) (default : σ)
    (reading parsing : Activity) (p : Path) (env : Environment) (h : Host) :
    ∃ h', (orWarn p default (do
        let text ← Action.within reading (Action.readText p)
        Action.within parsing (Action.ofExcept (Failure.lift .document (read text))))).runOn env h =
      (.ok (match h.files.readText env.cwd p with
        | .ok text =>
          match read text with
          | .ok s => s
          | .error _ => default
        | .error _ => default), h') ∧ h.OnlyTold h' := by
  unfold orWarn
  simp only [Action.runOn_bind, Action.runOn_pathExists, Action.runOn_ite, Action.runOn_pure,
    Action.runOn_attempt]
  cases hthere : h.files.pathExists env.cwd p with
  | false =>
    obtain ⟨f, hf⟩ := readText_of_not_pathExists hthere
    rw [hf]
    exact ⟨h, rfl, rfl, rfl⟩
  | true =>
    simp only [Action.runOn_within, Action.runOn_readText, Action.runOn_ofExcept]
    cases h.files.readText env.cwd p with
    | error f => exact ⟨_, rfl, rfl, Host.started_log h _ _⟩
    | ok text =>
      cases hs : read text with
      | error f =>
        simp only [Failure.lift, Except.mapError, Failure.within, hs]
        exact ⟨_, rfl, rfl, Host.started_log h _ _⟩
      | ok s =>
        simp only [Failure.lift, Except.mapError, Failure.within, hs]
        exact ⟨h, rfl, rfl, rfl⟩

/-- Two files are loaded one after the other, and what they hold is put together. -/
theorem runOn_both_told {σ τ : Type} {x y : Action σ} {a b : σ} (f : σ → σ → τ) {env : Environment}
    (first : ∃ h₁, x.runOn env h = (.ok a, h₁) ∧ h.OnlyTold h₁)
    (second : ∀ h₁, h.OnlyTold h₁ → ∃ h₂, y.runOn env h₁ = (.ok b, h₂) ∧ h₁.OnlyTold h₂) :
    ∃ h', (do
        let s ← x
        let t ← y
        return f s t : Action τ).runOn env h = (.ok (f a b), h') ∧ h.OnlyTold h' := by
  obtain ⟨h₁, hx, htold⟩ := first
  obtain ⟨h₂, hy, htold'⟩ := second h₁ htold
  refine ⟨h₂, ?_, htold.trans htold'⟩
  simp only [runOn_bind, hx, hy, runOn_pure]

theorem ToolchainSettings.runOn_load (p : Path) (hp : p.isAbsolute = true) (env : Environment)
    (h : Host) :
    ∃ h', (orWarn p {} (load p)).runOn env h = (.ok (inFile h.files p), h') ∧ h.OnlyTold h' := by
  have hread : h.files.readText [] p = h.files.readText env.cwd p :=
    h.files.readText_absolute hp [] env.cwd
  obtain ⟨h', hrun, htold⟩ := runOn_orWarn_read ToolchainSettings.read {} (.readingToolchainConfig p)
    (.parsingToolchainConfig p) p env h
  refine ⟨h', ?_, htold⟩
  unfold load
  rw [hrun, inFile, hread]
  cases h.files.readText env.cwd p with
  | error f => rfl
  | ok text =>
    cases hs : read text with
    | error f => simp only [hs]
    | ok s => simp only [hs]

theorem ToolchainSettings.runOn_loadBoth {user project : Path} (huser : user.isAbsolute = true)
    (hproject : project.isAbsolute = true) (env : Environment) (h : Host) :
    ∃ h', (loadBoth user project).runOn env h = (.ok (inFiles h.files user project), h') ∧
      h.OnlyTold h' :=
  runOn_both_told _ (runOn_load user huser env h) fun h₁ htold =>
    htold.files ▸ runOn_load project hproject env h₁

/-- The settings for a workspace are those in the two files, seen from the root. -/
theorem ToolchainSettings.runOn_forWorkspace {env : Environment} {w : Workspace}
    (home : env.configHome.isAbsolute = true) (hproject : w.toolchainConfigPath.isAbsolute = true)
    (h : Host) :
    ∃ h', (forWorkspace w).runOn env h =
      (.ok ((inFiles h.files (Caller.toolchainConfigPath env) w.toolchainConfigPath).anchoredAt
        w.root), h') ∧ h.OnlyTold h' := by
  have huser : (Caller.toolchainConfigPath env).isAbsolute = true := Path.isAbsolute_child home _
  have hread : (readThe Environment : Action Environment).runOn env h = (.ok env, h) := rfl
  obtain ⟨h', hload, htold⟩ := runOn_loadBoth huser hproject env h
  refine ⟨h', ?_, htold⟩
  unfold forWorkspace
  simp only [runOn_bind, hread, hload, runOn_pure]

/-- The compiler that the settings' files name for a workspace. -/
def configuredCompiler (t : FileTree) (env : Environment) (w : Workspace) : Option Path :=
  (ToolchainSettings.inFiles t (Caller.toolchainConfigPath env) w.toolchainConfigPath).cc

/-- A bare name that is configured leads to no file in the two working directories. -/
def BareNamesNowhere (e₁ e₂ : Environment) (t : FileTree) (w : Workspace) : Prop :=
  ∀ cc, configuredCompiler t e₁ w = some cc → cc.isAbsolute = false → cc.hasDirectory = false →
    t.isFile e₁.cwd cc = false ∧ t.isFile e₂.cwd cc = false

theorem Workspace.isAbsolute_toolchainConfigPath {w : Workspace} (hroot : w.root.isAbsolute = true) :
    w.toolchainConfigPath.isAbsolute = true :=
  Path.isAbsolute_child (Path.isAbsolute_child hroot _) _

/-- The settings of a workspace are the same, and its compiler is none in the working
    directories. -/
theorem ToolchainSettings.sameAt_forWorkspace (beside : e₁.Beside e₂) {w : Workspace}
    (hroot : w.root.isAbsolute = true) (bare : BareNamesNowhere e₁ e₂ h.files w) :
    SameAt e₁ e₂ h (forWorkspace w) ∧
      ∀ s h', (forWorkspace w).runOn e₁ h = (.ok s, h') →
        ∀ cc, s.cc = some cc → Toolchain.NoneNearby e₁ e₂ h'.files cc := by
  have huser : (Caller.toolchainConfigPath e₁).isAbsolute = true :=
    Path.isAbsolute_child beside.home _
  have hproject := w.isAbsolute_toolchainConfigPath hroot
  have hpath : Caller.toolchainConfigPath e₂ = Caller.toolchainConfigPath e₁ := by
    rw [Caller.toolchainConfigPath, Caller.toolchainConfigPath, beside.configHome]
  have hsame : SameAt e₁ e₂ h (do
      let s ← loadBoth (Caller.toolchainConfigPath e₁) w.toolchainConfigPath
      return s.anchoredAt w.root) :=
    SameAt.bind (sameAt_loadBoth huser hproject) fun _ _ _ => sameAt_pure _
  constructor
  · refine sameAt_read_bind ?_
    rw [hpath]
    exact hsame
  · intro s h' run cc hcc
    obtain ⟨h₁, hload, htold⟩ := runOn_forWorkspace beside.home hproject h
    rw [hload, Prod.mk.injEq, Except.ok.injEq] at run
    obtain ⟨rfl, rfl⟩ := run
    rw [htold.files]
    intro habs
    obtain ⟨cc₀, hcc₀, rfl⟩ := Option.map_eq_some_iff.1 hcc
    by_cases hdir : cc₀.hasDirectory = true
    · rw [Path.isAbsolute_anchoredAt hroot hdir] at habs
      cases habs
    · have hdir : cc₀.hasDirectory = false := by simpa using hdir
      have hsame : cc₀.anchoredAt w.root = cc₀ := by simp [Path.anchoredAt, hdir]
      rw [hsame] at habs ⊢
      exact ⟨hdir, bare cc₀ hcc₀ habs hdir⟩

/-! ### The manifest -/

theorem Manifest.runOn_dirOf (p : Path) (env : Environment) (h : Host) :
    (dirOf p).runOn env h =
      (.ok ((p.absoluteFrom ⟨env.cwd.text⟩).parent?.getD (p.absoluteFrom ⟨env.cwd.text⟩)), h) := rfl

theorem Manifest.sameAt_load {p : Path} (hp : p.isAbsolute = true) : SameAt e₁ e₂ h (load p) := by
  refine SameAt.bind ((sameAt_readText hp).within _) fun text h' _ => SameAt.bind ?_ fun _ _ _ =>
    (sameAt_ofExcept _).within _
  unfold SameAt
  rw [runOn_dirOf, runOn_dirOf, Path.absoluteFrom_absolute hp ⟨e₁.cwd.text⟩ ⟨e₂.cwd.text⟩]

theorem Manifest.dir_of_ofDeclaration {d : Declaration} {dir : Path} {m : Manifest}
    (h : ofDeclaration d dir = .ok m) : m.dir = dir := by
  unfold ofDeclaration at h
  cases hv : d.package.readVersion with
  | error e =>
    rw [hv] at h
    cases h
  | ok v =>
    cases he : d.extensions.isEmpty with
    | true =>
      rw [hv, he] at h
      cases h
    | false =>
      cases hc : checkTargets [] d.extensions with
      | error e =>
        rw [hv, he, hc] at h
        cases h
      | ok u =>
        rw [hv, he, hc] at h
        cases h
        rfl

theorem Manifest.dir_of_parse {text : String} {dir : Path} {m : Manifest}
    (parsed : parse text dir = .ok m) : m.dir = dir := by
  unfold parse at parsed
  cases hd : Declaration.read text with
  | error e =>
    rw [hd] at parsed
    cases parsed
  | ok d =>
    rw [hd] at parsed
    exact dir_of_ofDeclaration parsed

/-- The root of a project whose manifest is given absolutely. -/
theorem Manifest.isAbsolute_dir {p : Path} (hp : p.isAbsolute = true) {m : Manifest}
    (loaded : ((load p).runOn e₁ h).1 = .ok m) : m.dir.isAbsolute = true := by
  cases htext : h.files.readText e₁.cwd p with
  | error f =>
    unfold load at loaded
    rw [Action.runOn_bind, Action.runOn_within, Action.runOn_readText, htext] at loaded
    cases loaded
  | ok text =>
    rw [runOn_load htext] at loaded
    cases hparse : parse text _ with
    | error e =>
      rw [hparse] at loaded
      cases loaded
    | ok m' =>
      rw [hparse] at loaded
      cases loaded
      rw [dir_of_parse hparse]
      exact Path.isAbsolute_parentOr (Path.isAbsolute_absoluteFrom hp _)

/-! ### From the manifest to the plan -/

section Project

variable {manifestPath : Path} (hpath : manifestPath.isAbsolute = true) {o : BuildOptions}

include hpath

/-- The workspace that is loaded is the manifest's, and loading changes no file. -/
theorem workspace_of_load {w : Workspace} {s : BuildSettings} {h' : Host}
    (ok : (loadWorkspace manifestPath o).runOn e₁ h = (.ok (w, s), h')) :
    h.OnlyTold h' ∧ w.root.isAbsolute = true ∧
      ((Manifest.load manifestPath).runOn e₁ h).1 = .ok w.manifest := by
  cases hload : ((Manifest.load manifestPath).runOn e₁ h).1 with
  | error e =>
    rw [runOn_loadWorkspace_error hload] at ok
    cases ok
  | ok m =>
    obtain ⟨name, hasked⟩ := exists_profileAsked o e₁ h m
    obtain ⟨s', h'', htold, hrun⟩ := runOn_loadWorkspace hload hasked
    rw [hrun] at ok
    cases hp : m.profiles.get? name with
    | none =>
      rw [hp] at ok
      cases ok
    | some p =>
      rw [hp] at ok
      cases ok
      exact ⟨htold, Manifest.isAbsolute_dir hpath hload, rfl⟩

theorem sameAt_loadWorkspace (beside : e₁.Beside e₂) :
    SameAt e₁ e₂ h (loadWorkspace manifestPath o) := by
  have hconfig : Caller.configPath e₂ = Caller.configPath e₁ := by
    rw [Caller.configPath, Caller.configPath, beside.configHome]
  have huser : (Caller.configPath e₁).isAbsolute = true := Path.isAbsolute_child beside.home _
  have hrest (w : Workspace) (hroot : w.root.isAbsolute = true) (h : Host) : SameAt e₁ e₂ h (do
      let s ← BuildSettings.loadBoth (Caller.configPath (← read)) w.configPath
      let w := w.withProfile (o.profileName s)
      let _ ← Action.ofExcept w.profile
      return (w, s)) := by
    refine sameAt_read_bind ?_
    dsimp only
    rw [hconfig]
    have hproject : w.configPath.isAbsolute = true :=
      Path.isAbsolute_child (Path.isAbsolute_child hroot _) _
    exact SameAt.bind (BuildSettings.sameAt_loadBoth huser hproject) fun _ _ _ =>
      (sameAt_ofExcept _).bind fun _ _ _ => sameAt_pure _
  unfold loadWorkspace
  refine SameAt.bind ?_ fun w h' hw => hrest w ?_ h'
  · exact (Manifest.sameAt_load hpath).bind fun _ _ _ => sameAt_pure _
  · obtain ⟨m, h'', hm, hlast⟩ := runOn_bind_ok hw
    cases hlast
    exact Manifest.isAbsolute_dir hpath (congrArg Prod.fst hm)

/-- What is done with the workspace that is loaded. -/
theorem sameAt_loadWorkspace_bind {α : Type} (beside : e₁.Beside e₂)
    (bare : ∀ m, ((Manifest.load manifestPath).runOn e₁ h).1 = .ok m →
      BareNamesNowhere e₁ e₂ h.files { manifest := m }) {f : Workspace × BuildSettings → Action α}
    (rest : ∀ w s h', w.root.isAbsolute = true → BareNamesNowhere e₁ e₂ h'.files w →
      SameAt e₁ e₂ h' (f (w, s))) :
    SameAt e₁ e₂ h (loadWorkspace manifestPath o >>= f) := by
  refine SameAt.bind (sameAt_loadWorkspace hpath beside) fun ⟨w, s⟩ h' hload => ?_
  obtain ⟨htold, hroot, hmanifest⟩ := workspace_of_load hpath hload
  refine rest w s h' hroot ?_
  rw [htold.files]
  exact bare w.manifest hmanifest

/-- The commands of a target. -/
theorem sameAt_flags (beside : e₁.Beside e₂)
    (bare : ∀ m, ((Manifest.load manifestPath).runOn e₁ h).1 = .ok m →
      BareNamesNowhere e₁ e₂ h.files { manifest := m }) (target : String) :
    SameAt e₁ e₂ h (flags manifestPath target o) := by
  unfold flags
  refine sameAt_loadWorkspace_bind hpath beside bare fun w s h' hroot hbare => ?_
  refine sameAt_ofExcept_bind _ fun t => ?_
  obtain ⟨hsame, hnearby⟩ := ToolchainSettings.sameAt_forWorkspace beside hroot hbare
  refine hsame.bind fun settings h₂ hs => ?_
  exact SameAt.bind (BuildContext.sameAt_detect beside w (hnearby settings h₂ hs)) fun _ _ _ =>
    sameAt_ofExcept _

omit hpath in
theorem sameAt_checkSources (t : Target) {root : Path} (hroot : root.isAbsolute = true)
    (ss : List Path) (h : Host) : SameAt e₁ e₂ h (t.checkSources root ss) := by
  induction ss generalizing h with
  | nil => exact sameAt_pure _
  | cons s ss ih =>
    have hs : (root.join s).isAbsolute = true := Path.isAbsolute_join_left hroot
    unfold Target.checkSources
    dsimp only
    refine (sameAt_pathExists hs).bind fun there h' _ => ?_
    have hfile (h : Host) : SameAt e₁ e₂ h (do
        if !(← Action.isFile (root.join s)) then Action.fail (.target (.sourceNotFile t.name s))
        t.checkSources root ss) := by
      refine (sameAt_isFile hs).bind fun isFile h' _ => ?_
      dsimp only
      split
      · exact (sameAt_fail _).bind fun _ h' _ => ih h'
      · exact ih h'
    split
    · exact (sameAt_fail _).bind fun _ h' _ => hfile h'
    · exact hfile h'

omit hpath in
theorem sameAt_resolveAll {root : Path} (hroot : root.isAbsolute = true) (ts : List Target)
    (h : Host) : SameAt e₁ e₂ h (ts.forM fun t => do
      let _ ← t.resolveSources root : Action PUnit) := by
  induction ts generalizing h with
  | nil => exact sameAt_pure _
  | cons t ts ih =>
    rw [List.forM_eq_forM, List.forM_cons, ← List.forM_eq_forM]
    refine SameAt.bind (SameAt.bind ?_ fun _ _ _ => sameAt_pure _) fun _ h' _ => ih h'
    exact (sameAt_ofExcept _).bind fun _ h' _ =>
      (sameAt_checkSources t hroot t.sources h').bind fun _ _ _ => sameAt_pure _

omit hpath in
theorem BuildPlan.sameAt_emit (beside : e₁.Beside e₂) (plan : BuildPlan) {p : Path}
    (hp : p.isAbsolute = true) : SameAt e₁ e₂ h (plan.emitCompileCommands p) :=
  SameAt.bind ((sameAt_writeString beside hp _).within _) fun _ _ _ => sameAt_log _ _

omit hpath in
/-- From the toolchain to the plan. -/
theorem sameAt_afterSources (beside : e₁.Beside e₂) {w : Workspace} {settings : BuildSettings}
    {ts : List Target} (hroot : w.root.isAbsolute = true)
    (bare : BareNamesNowhere e₁ e₂ h.files w) (plan_only : o.planOnly = true) :
    SameAt e₁ e₂ h (afterSources w settings o ts) := by
  obtain ⟨hsame, hnearby⟩ := ToolchainSettings.sameAt_forWorkspace beside hroot bare
  have hlist : w.compileCommandsPath.isAbsolute = true :=
    Path.isAbsolute_child (Path.isAbsolute_child hroot _) _
  unfold afterSources
  refine hsame.bind fun s h₁ hs => ?_
  refine SameAt.bind (BuildContext.sameAt_detect beside w (hnearby s h₁ hs)) fun c h₂ _ => ?_
  refine (sameAt_log _ _).bind fun _ h₃ _ => (sameAt_ofExcept _).bind fun plan h₄ _ => ?_
  rw [plan_only]
  dsimp only
  split
  · exact (plan.sameAt_emit beside hlist).bind fun _ _ _ => sameAt_pure _
  · exact sameAt_pure _

/-- A build that is asked for its plan. -/
theorem sameAt_build (beside : e₁.Beside e₂)
    (bare : ∀ m, ((Manifest.load manifestPath).runOn e₁ h).1 = .ok m →
      BareNamesNowhere e₁ e₂ h.files { manifest := m }) (plan_only : o.planOnly = true) :
    SameAt e₁ e₂ h (build manifestPath o) := by
  rw [build_eq_afterSources]
  refine sameAt_loadWorkspace_bind hpath beside bare fun w s h' hroot hbare => ?_
  refine sameAt_ofExcept_bind _ fun ts => ?_
  refine SameAt.bind (sameAt_resolveAll hroot ts h') fun _ h₂ hresolved => ?_
  obtain rfl := host_eq_of_resolveAll hresolved
  exact sameAt_afterSources beside hroot hbare plan_only

end Project

/-! ### The nearest manifest -/

/-- The caller who is in the working directory. -/
def Environment.caller (e : Environment) : Caller := { cwd := ⟨e.cwd.text⟩ }

/-- The nearest directory with a manifest, at or above a directory. -/
inductive NearestManifest (t : FileTree) (root : Path) : Path → Prop where
  | here (there : t.isFile [] (root.child Manifest.fileName) = true) : NearestManifest t root root
  | above {dir parent : Path} (missing : t.isFile [] (dir.child Manifest.fileName) = false)
    (up : dir.parent? = some parent) (nearest : NearestManifest t root parent) :
    NearestManifest t root dir

/-- The search from such a directory ends at the root. -/
theorem NearestManifest.searchEnds {root dir : Path} (near : NearestManifest h.files root dir)
    (hdir : dir.isAbsolute = true) (cwd : Location) :
    (∃ n, SearchEnds h.files cwd dir n (some (root.child Manifest.fileName))) ∧
      root.isAbsolute = true := by
  have hfile {d : Path} (hd : d.isAbsolute = true) :=
    h.files.isFile_absolute (Path.isAbsolute_child hd Manifest.fileName) cwd []
  induction near with
  | here there => exact ⟨⟨1, .here ((hfile hdir).trans there)⟩, hdir⟩
  | above missing up _ ih =>
    obtain ⟨⟨n, ends⟩, hroot⟩ := ih (Path.isAbsolute_of_parent? up hdir)
    exact ⟨⟨n + 1, .up ((hfile hdir).trans missing) up ends⟩, hroot⟩

theorem NearestManifest.runOn_findManifest {env : Environment} {root : Path}
    (near : NearestManifest h.files root ⟨env.cwd.text⟩) :
    env.caller.findManifest.runOn env h = (.ok (root.child Manifest.fileName), h) ∧
      root.isAbsolute = true := by
  obtain ⟨⟨n, ends⟩, hroot⟩ := near.searchEnds (Location.isAbsolute_text env.cwd) env.cwd
  exact ⟨GrammarBuild.runOn_findManifest env.caller ends, hroot⟩

/-! ### The compiler that is configured -/

namespace Path

/-- All components but the lead are steps. -/
theorem length_components (p : Path) :
    p.components.length = (leadOf p.text.toList).length + p.names.length := by
  have hsteps (parts : List (List Char)) :
      ((parts.filterMap Component.ofPart?).filterMap Component.name?).length =
        (parts.filterMap Component.ofPart?).length := by
    induction parts with
    | nil => rfl
    | cons part parts ih =>
      cases hp : Component.ofPart? part with
      | none => simpa [hp] using ih
      | some c =>
        obtain ⟨name, hname⟩ := Option.isSome_iff_exists.1 (isSome_name?_of_ofPart? hp)
        simpa [hp, hname] using ih
  rw [names, components, componentsOf_eq, List.filterMap_append, List.length_append,
    filterMap_name?_leadOf, List.nil_append, hsteps]

theorem length_leadOf (t : List Char) : (leadOf t).length ≤ 1 := by
  unfold leadOf
  split
  · exact Nat.le_refl 1
  · split
    · exact Nat.le_refl 1
    · exact Nat.zero_le 1

/-- A path with a directory part, taken from an absolute root, is more than one component. -/
theorem one_lt_components_join {root cc : Path} (hroot : root.isAbsolute = true)
    (hcc : cc.hasDirectory = true) : 1 < (root.join cc).components.length := by
  obtain ⟨hrel, hlong⟩ : cc.isAbsolute = false ∧ 1 < cc.components.length := by
    simpa [hasDirectory] using hcc
  have hlead : (leadOf (root.join cc).text.toList).length = 1 := by
    have habs : (root.join cc).text.toList.head? = some '/' :=
      eq_of_beq (isAbsolute_join_left (q := cc) hroot)
    rw [leadOf, if_pos habs]
    rfl
  have hnames := length_leadOf cc.text.toList
  rw [length_components] at hlong
  rw [length_components, hlead, names_join hrel, List.length_append]
  omega

end Path

namespace Toolchain

/-- A configured path with a directory part is taken from the root, and nowhere else. -/
theorem runOn_configured?_anchored {root cc : Path} (hroot : root.isAbsolute = true)
    (hcc : cc.hasDirectory = true) (env : Environment) (h : Host) :
    (configured? (cc.anchoredAt root)).runOn env h =
      (.ok (if h.files.isFile env.cwd (root.join cc) then some (root.join cc) else none), h) := by
  have habs : (root.join cc).isAbsolute = true := Path.isAbsolute_join_left hroot
  have hdir : (root.join cc).hasDirectory = false := by simp [Path.hasDirectory, habs]
  have hcandidates : (root.join cc).isAbsolute && decide (1 < (root.join cc).components.length) := by
    simp [habs, Path.one_lt_components_join hroot hcc]
  rw [Path.anchoredAt, if_pos hcc, runOn_configured?, FileTree.which?_eq_find? hdir,
    if_pos hcandidates]
  cases hfile : h.files.isFile env.cwd (root.join cc) with
  | true => rfl
  | false =>
    have hrun : h.files.canRun env.cwd (root.join cc) = false := by
      unfold FileTree.isFile at hfile
      unfold FileTree.canRun
      cases ha : h.files.at? env.cwd (root.join cc) with
      | none => rfl
      | some n =>
        rw [ha] at hfile
        cases n with
        | dir => rfl
        | file bytes x => cases hfile
    simp [hrun]

/-- A configured bare name that leads to no file is looked for on the search path. -/
theorem runOn_configured?_bare {cc : Path} (habs : cc.isAbsolute = false)
    (hdir : cc.hasDirectory = false) (root : Path) {env : Environment} {h : Host}
    (nowhere : h.files.isFile env.cwd cc = false) :
    (configured? (cc.anchoredAt root)).runOn env h =
      (.ok (((searchDirs env.searchPath).map fun d => d.join cc).find? (h.files.canRun env.cwd)),
        h) := by
  have hsame : cc.anchoredAt root = cc := by simp [Path.anchoredAt, hdir]
  rw [hsame, runOn_configured?, nowhere, FileTree.which?_eq_find? hdir, habs]
  rfl

end Toolchain

/-! ### The same commands -/

/-- From two directories of a project with the same nearest manifest, the commands of every
    target and the plan of every build are the same, or their failures are, if a configured
    bare name leads to no file in either directory.  Such a name is looked for on the search
    path, and a configured path with a directory part is taken from the root. -/
theorem commands_same_elsewhere {root : Path} (beside : e₁.Beside e₂)
    (near₁ : NearestManifest h.files root ⟨e₁.cwd.text⟩)
    (near₂ : NearestManifest h.files root ⟨e₂.cwd.text⟩)
    (bare : ∀ m, ((Manifest.load (root.child Manifest.fileName)).runOn e₁ h).1 = .ok m →
      BareNamesNowhere e₁ e₂ h.files { manifest := m }) :
    (∀ target o, (do flags (← e₁.caller.findManifest) target o).runOn e₁ h =
      (do flags (← e₂.caller.findManifest) target o).runOn e₂ h) ∧
    (∀ o : BuildOptions, o.planOnly = true →
      (do build (← e₁.caller.findManifest) o).runOn e₁ h =
        (do build (← e₂.caller.findManifest) o).runOn e₂ h) ∧
    ∀ (env : Environment) (h : Host) (cc : Path),
      (cc.hasDirectory = true → (Toolchain.configured? (cc.anchoredAt root)).runOn env h =
        (.ok (if h.files.isFile env.cwd (root.join cc) then some (root.join cc) else none), h)) ∧
      (cc.isAbsolute = false → cc.hasDirectory = false → h.files.isFile env.cwd cc = false →
        (Toolchain.configured? (cc.anchoredAt root)).runOn env h =
          (.ok (((searchDirs env.searchPath).map fun d => d.join cc).find?
            (h.files.canRun env.cwd)), h)) := by
  obtain ⟨hfind₁, hroot⟩ := near₁.runOn_findManifest
  obtain ⟨hfind₂, -⟩ := near₂.runOn_findManifest
  have hpath : (root.child Manifest.fileName).isAbsolute = true := Path.isAbsolute_child hroot _
  refine ⟨fun target o => ?_, fun o plan_only => ?_, fun env h cc => ⟨fun hdir => ?_, ?_⟩⟩
  · rw [Action.runOn_bind, Action.runOn_bind, hfind₁, hfind₂]
    exact sameAt_flags hpath beside bare target
  · rw [Action.runOn_bind, Action.runOn_bind, hfind₁, hfind₂]
    exact sameAt_build hpath beside bare plan_only
  · exact Toolchain.runOn_configured?_anchored hroot hdir env h
  · exact fun habs hdir nowhere => Toolchain.runOn_configured?_bare habs hdir root nowhere

/-! ### A file with the compiler's name -/

namespace Toolchain

/-- A compiler that is not MSVC's always makes a toolchain. -/
theorem exists_ofCompiler {cc : Path} (gnu : isMsvc cc = false) (env : Environment) (h : Host) :
    ∃ family h', (ofCompiler cc).runOn env h = (.ok (.gnu cc family), h') := by
  have hfamily : ∃ family h', (familyOf cc).runOn env h = (.ok family, h') := by
    unfold familyOf
    simp only [Action.runOn_ite, Action.runOn_bind, Action.runOn_attempt, Action.runOn_pure]
    split
    · exact ⟨_, _, rfl⟩
    · rcases (exec (versionCommand cc) none).runOn env h with ⟨r, h'⟩
      cases r with
      | ok done => exact ⟨_, _, rfl⟩
      | error e => exact ⟨_, _, rfl⟩
  obtain ⟨family, h', hrun⟩ := hfamily
  unfold ofCompiler
  rw [gnu]
  simp only [Bool.false_eq_true, if_false, Action.runOn_bind, hrun, Action.runOn_log,
    Action.runOn_pure]
  exact ⟨family, _, rfl⟩

/-- What is configured and found is the compiler. -/
theorem runOn_detect_configured {s : ToolchainSettings} {cc q : Path} {env : Environment} {h : Host}
    (named : s.cc = some cc) (found : (configured? cc).runOn env h = (.ok (some q), h))
    (gnu : isMsvc q = false) :
    ∃ family h', (detect s).runOn env h = (.ok (.gnu q family), h') := by
  obtain ⟨family, h', hrun⟩ := exists_ofCompiler gnu env
    { h with events := h.events ++ [.log .debug ("using C compiler from toolchain config: " ++ q.text)] }
  refine ⟨family, h', ?_⟩
  unfold detect
  rw [named]
  simp only [Action.runOn_bind, found, Action.runOn_log, Action.runOn_pure, hrun]

end Toolchain

/-- Where the settings name a compiler that is found, the target is linked by it. -/
theorem runOn_flags_program {manifestPath : Path} {o : BuildOptions} {m : Manifest} {t : Target}
    {env : Environment} {h : Host} {cc q : Path} (ready : Ready manifestPath o env h m)
    (ht : t ∈ m.targets) (hroot : m.dir.isAbsolute = true)
    (home : env.configHome.isAbsolute = true)
    (named : configuredCompiler h.files env { manifest := m } = some cc)
    (found : ∀ h' : Host, h'.files = h.files →
      (Toolchain.configured? (cc.anchoredAt m.dir)).runOn env h' = (.ok (some q), h'))
    (gnu : Toolchain.isMsvc q = false) :
    ((flags manifestPath t.name o).runOn env h).1.map (fun c => c.link.command.program) = .ok q := by
  obtain ⟨name, p, hasked, hp⟩ := ready.profile
  obtain ⟨s, h₁, htold₁, hload⟩ := runOn_loadWorkspace ready.load hasked
  rw [hp] at hload
  have checked := checked_of_load ready.load
  have hproject : ({ manifest := m, profileName := name } : Workspace).toolchainConfigPath.isAbsolute =
      true := Workspace.isAbsolute_toolchainConfigPath hroot
  obtain ⟨h₂, hsettings, htold₂⟩ := ToolchainSettings.runOn_forWorkspace home hproject h₁
  generalize hs : (ToolchainSettings.inFiles h₁.files (Caller.toolchainConfigPath env)
    ({ manifest := m, profileName := name } : Workspace).toolchainConfigPath).anchoredAt
      ({ manifest := m, profileName := name } : Workspace).root = settings at hsettings
  have hcc : settings.cc = some (cc.anchoredAt m.dir) := by
    rw [← hs, htold₁.files]
    exact Option.map_eq_some_iff.2 ⟨cc, named, rfl⟩
  obtain ⟨family, h₃, hdetect⟩ := Toolchain.runOn_detect_configured hcc
    (found h₂ (htold₂.files.trans htold₁.files)) gnu
  have hcontext : ∃ c, BuildContext.of { manifest := m, profileName := name } (.gnu q family)
      settings = .ok c ∧ c.toolchain = .gnu q family := by
    unfold BuildContext.of Workspace.profile Manifest.profile
    rw [hp]
    exact ⟨_, rfl, rfl⟩
  obtain ⟨c, hc, htoolchain⟩ := hcontext
  have hdetected : (BuildContext.detect { manifest := m, profileName := name } settings).runOn env h₂ =
      (.ok c, h₃) := by
    unfold BuildContext.detect
    rw [Action.runOn_bind, hdetect, ← hc]
    rfl
  rw [runOn_flags hload (Manifest.findTarget_of_mem checked ht) hsettings hdetected,
    c.commands_of_target checked ht]
  simp only [Except.map, BuildContext.linkStep, htoolchain, Toolchain.linkCommand]

namespace Sample

/-- A project whose settings name a compiler, and a compiler of that name. -/
def configured : FileTree :=
  [(["p", "src"], .dir), (["bin"], .dir), (["bin", "clang"], .file "".toUTF8 true), (["p", ".october"], .dir),
    (["p", ".october", "toolchain.toml"], .file "[toolchain]\ncc = \"clang\"\n".toUTF8 false)].foldl
    (fun t e => t.set e.1 e.2) unfinished

/-- The same project with a file of that name in it. -/
def shadowed : FileTree := configured.set ["p", "clang"] (.file "".toUTF8 false)

/-- Surroundings in which every program succeeds. -/
def environmentAt (cwd : Location) : Environment where
  cwd := cwd
  cc := none
  searchPath := some "/bin"
  configHome := ⟨"/home"⟩
  run := fun t _ => (.ok ⟨some 0, "", ""⟩, t)

theorem beside (l l' : Location) : (environmentAt l).Beside (environmentAt l') where
  noCC := ⟨rfl, rfl⟩
  searchPath := rfl
  dirs := by
    have hdirs : ∀ d ∈ searchDirs (some "/bin"), d.isAbsolute = true := by decide
    exact hdirs
  configHome := rfl
  home := show (⟨"/home"⟩ : Path).isAbsolute = true from rfl
  version _ _ _ := rfl
  refuses := rfl

/-- The settings name `clang` where their file is found and the user has none. -/
theorem configuredCompiler_clang {t : FileTree} (l : Location)
    (user : t.readFile [] ⟨"/home/toolchain.toml"⟩ = .error .notFound)
    (project : t.readFile [] ⟨"/p/.october/toolchain.toml"⟩ =
      .ok "[toolchain]\ncc = \"clang\"\n".toUTF8) :
    configuredCompiler t (environmentAt l) { manifest } = some ⟨"clang"⟩ := by
  have hread : ToolchainSettings.read "[toolchain]\ncc = \"clang\"\n" = .ok { cc := some ⟨"clang"⟩ } := by
    decide
  have huser : ToolchainSettings.inFile t ⟨"/home/toolchain.toml"⟩ = {} := by
    simp only [ToolchainSettings.inFile, FileTree.readText, user, bind, Except.bind]
  have hproject : ToolchainSettings.inFile t ⟨"/p/.october/toolchain.toml"⟩ =
      { cc := some ⟨"clang"⟩ } := by
    simp only [ToolchainSettings.inFile, FileTree.readText_of_readFile project, hread]
  have huserPath : Caller.toolchainConfigPath (environmentAt l) = ⟨"/home/toolchain.toml"⟩ :=
    show (⟨"/home"⟩ : Path).child "toolchain.toml" = _ by decide
  have hprojectPath : ({ manifest } : Workspace).toolchainConfigPath =
      ⟨"/p/.october/toolchain.toml"⟩ :=
    show ((⟨"/p"⟩ : Path).child ".october").child "toolchain.toml" = _ by decide
  rw [configuredCompiler, huserPath, hprojectPath, ToolchainSettings.inFiles, huser, hproject]
  rfl

theorem near_root {t : FileTree} (there : t.isFile [] ⟨"/p/October.toml"⟩ = true) :
    NearestManifest t ⟨"/p"⟩ ⟨Location.text ["p"]⟩ := .here there

theorem near_src {t : FileTree} (there : t.isFile [] ⟨"/p/October.toml"⟩ = true)
    (missing : t.isFile [] ⟨"/p/src/October.toml"⟩ = false) :
    NearestManifest t ⟨"/p"⟩ ⟨Location.text ["p", "src"]⟩ :=
  .above missing (by decide) (near_root there)

/-- The commands of the first target that are shown from a directory. -/
def flagsFrom (cwd : Location) : Action TargetCommands := do
  let manifestPath ← (environmentAt cwd).caller.findManifest
  flags manifestPath "a" { profile := some "debug" }

/-- From a directory of the project, the target is linked by what `clang` leads to there. -/
theorem program_flagsFrom {l : Location} {q : Path}
    (near : NearestManifest shadowed ⟨"/p"⟩ ⟨l.text⟩)
    (found : (if shadowed.isFile l ⟨"clang"⟩ then some ⟨"clang"⟩
      else shadowed.which? l (some "/bin") ⟨"clang"⟩) = some q)
    (gnu : Toolchain.isMsvc q = false)
    (read : shadowed.readFile l ⟨"/p/October.toml"⟩ = .ok manifestText.toUTF8) :
    ((flagsFrom l).runOn (environmentAt l) { files := shadowed }).1.map
      (fun c => c.link.command.program) = .ok q := by
  have hnear : NearestManifest ({ files := shadowed } : Host).files ⟨"/p"⟩ ⟨(environmentAt l).cwd.text⟩ := near
  obtain ⟨hfind, -⟩ := hnear.runOn_findManifest
  have hconfigured (h' : Host) (same : h'.files = ({ files := shadowed } : Host).files) :
      (Toolchain.configured? ((⟨"clang"⟩ : Path).anchoredAt manifest.dir)).runOn (environmentAt l) h' =
        (.ok (some q), h') := by
    have hbare : (⟨"clang"⟩ : Path).anchoredAt manifest.dir = ⟨"clang"⟩ := by decide
    rw [hbare, Toolchain.runOn_configured?, same]
    exact congrArg (fun r => (Except.ok r, h')) found
  have hready : Ready ⟨"/p/October.toml"⟩ { profile := some "debug" } (environmentAt l)
      { files := shadowed } manifest := ready_manifest read rfl
  have hprogram := runOn_flags_program hready (List.mem_cons_self : targetA ∈ manifest.targets) rfl
    (beside l l).home (configuredCompiler_clang l rfl rfl) hconfigured gnu
  unfold flagsFrom
  rw [Action.runOn_bind, hfind]
  exact hprogram

end Sample

/-- The configured `clang` is only on the search path: from the project and from its
    directory `src` the commands of its target are the same. -/
theorem commands_same_elsewhere_src :
    (Sample.flagsFrom ["p"]).runOn (Sample.environmentAt ["p"]) { files := Sample.configured } =
      (Sample.flagsFrom ["p", "src"]).runOn (Sample.environmentAt ["p", "src"])
        { files := Sample.configured } := by
  have hthere : Sample.configured.isFile [] ⟨"/p/October.toml"⟩ = true := rfl
  refine (commands_same_elsewhere (Sample.beside ["p"] ["p", "src"]) (h := { files := Sample.configured })
    (Sample.near_root hthere) (Sample.near_src hthere rfl) fun m hload cc hcc _ _ => ?_).1 _ _
  have hmanifest : ((Manifest.load ⟨"/p/October.toml"⟩).runOn (Sample.environmentAt ["p"])
      { files := Sample.configured }).1 = .ok Sample.manifest :=
    congrArg Prod.fst (Sample.load_manifest rfl)
  obtain rfl : m = Sample.manifest := Except.ok.inj (hload.symm.trans hmanifest)
  have hclang := Sample.configuredCompiler_clang (t := Sample.configured) ["p"] rfl rfl
  obtain rfl : cc = ⟨"clang"⟩ := Option.some.inj (hcc.symm.trans hclang)
  exact ⟨rfl, rfl⟩

/-- With a file `clang` beside the manifest, the target is linked by that file if the tool is
    called there, and by the compiler on the search path if it is called in `src`. -/
theorem commands_differ_elsewhere :
    (Sample.environmentAt ["p"]).Beside (Sample.environmentAt ["p", "src"]) ∧
    NearestManifest Sample.shadowed ⟨"/p"⟩ ⟨Location.text ["p"]⟩ ∧
    NearestManifest Sample.shadowed ⟨"/p"⟩ ⟨Location.text ["p", "src"]⟩ ∧
    ((Sample.flagsFrom ["p"]).runOn (Sample.environmentAt ["p"]) { files := Sample.shadowed }).1.map
      (fun c => c.link.command.program) = .ok ⟨"clang"⟩ ∧
    ((Sample.flagsFrom ["p", "src"]).runOn (Sample.environmentAt ["p", "src"])
      { files := Sample.shadowed }).1.map
      (fun c => c.link.command.program) = .ok ⟨"/bin/clang"⟩ := by
  have hthere : Sample.shadowed.isFile [] ⟨"/p/October.toml"⟩ = true := rfl
  have hroot := Sample.near_root hthere
  have hsrc := Sample.near_src hthere rfl
  exact ⟨Sample.beside _ _, hroot, hsrc, Sample.program_flagsFrom hroot rfl rfl rfl,
    Sample.program_flagsFrom hsrc rfl rfl rfl⟩

end GrammarBuild
