import GrammarBuild.Proofs.IgnoredOutput

/-
  GrammarBuild/Proofs/FailedStarts.lean
  =====================================
  **Starts that fail** — a project that cannot be started is left as it was, unless a write
  fails after its file was opened, or what cannot be done is to read or write its
  `.gitignore` (`failed_start_leaves`).  That file is looked at last, when the manifest is
  written, and the manifest then stays and stands in the way of every further start.
-/

namespace GrammarBuild

variable {dir : Path} {package : String} {env : Environment} {h h' : Host} {e : Failure}
  {t u : FileTree} {bytes : ByteArray}

/-! ### What is left half done -/

/-- What a start comes to and leaves where it fails after it began to write. -/
inductive HalfStarted (env : Environment) (dir : Path) (t : FileTree) : Failure → FileTree → Prop where
  /-- The host opened the manifest and took a part of it. -/
  | cut {r : FileTree.Refusal} {n : Nat} {text : String} {u : FileTree}
      (refused : env.refuses ((dir.child Manifest.fileName).locate env.cwd) = some r)
      (taken : r.taken = some n)
      (file : t.writeFile env.cwd (dir.child Manifest.fileName) (text.toUTF8.extract 0 n) = .ok u) :
      HalfStarted env dir t ⟨[.writing (dir.child Manifest.fileName)], .host r.fault⟩ u
  /-- The manifest was written, and `.gitignore` is no text. -/
  | unreadable {text : String} {u : FileTree} {f : HostFault}
      (file : t.writeFile env.cwd (dir.child Manifest.fileName) text.toUTF8 = .ok u)
      (found : Gitignore.found t env.cwd dir = .error f) :
      HalfStarted env dir t ⟨[.reading (dir.child ".gitignore")], .host f⟩ u
  /-- The manifest was written, and the host refused the new text of `.gitignore`. -/
  | unwritable {text old : String} {u : FileTree} {r : FileTree.Refusal}
      (file : t.writeFile env.cwd (dir.child Manifest.fileName) text.toUTF8 = .ok u)
      (found : Gitignore.found t env.cwd dir = .ok old)
      (refused : env.refuses ((dir.child ".gitignore").locate env.cwd) = some r) :
      HalfStarted env dir t ⟨[.writing (dir.child ".gitignore")], .host r.fault⟩
        (u.writePart ((dir.child ".gitignore").locate env.cwd) (Gitignore.withEntry old).toUTF8 r.taken)

theorem Manifest.plainName_fileName : PlainName fileName := by constructor <;> decide

/-- Where the manifest is written, `.gitignore` is found as before. -/
theorem Gitignore.found_of_writeFile (cwd : Location)
    (wrote : t.writeFile cwd (dir.child Manifest.fileName) bytes = .ok u) :
    Gitignore.found u cwd dir = Gitignore.found t cwd dir := by
  have hother := Manifest.plainName_fileName
  have hne : ".gitignore" ≠ Manifest.fileName := by decide
  have hthere := FileTree.pathExists_beside plainName hother hne wrote
  rw [found, found, hthere]
  cases hfound : t.pathExists cwd (dir.child ".gitignore") with
  | false => rfl
  | true => rw [FileTree.readText_beside plainName hother hne wrote hfound]

/-- Once the manifest is written there is a place for `.gitignore` if it is no directory. -/
theorem Gitignore.writeFile_of_found {text : String}
    (wrote : t.writeFile env.cwd (dir.child Manifest.fileName) bytes = .ok u)
    (found : Gitignore.found u env.cwd dir = .ok text) (bytes' : ByteArray) :
    ∃ v, u.writeFile env.cwd (dir.child ".gitignore") bytes' = .ok v := by
  rcases found_cases found with read | ⟨missing, -⟩
  · obtain ⟨old, hold⟩ := FileTree.readFile_of_readText read
    exact FileTree.writeFile_of_readFile plainName hold bytes'
  · exact FileTree.writeFile_beside plainName Manifest.plainName_fileName (by decide) (by decide)
      wrote missing bytes'

/-- Only the manifest changes, and `.gitignore` where the host refuses it. -/
theorem HalfStarted.elsewhere (half : HalfStarted env dir t e u) {l : Location}
    (hl : l ≠ (dir.child Manifest.fileName).locate env.cwd) :
    u.node? l = t.node? l ∨ l = (dir.child ".gitignore").locate env.cwd ∧ env.refuses l ≠ none := by
  cases half with
  | cut refused taken file => exact .inl ((FileTree.writeFile_changes file).2 l hl)
  | unreadable file found => exact .inl ((FileTree.writeFile_changes file).2 l hl)
  | @unwritable text old u r file found refused =>
    by_cases hignore : l = (dir.child ".gitignore").locate env.cwd
    · rw [hignore, refused]
      exact .inr ⟨rfl, Option.some_ne_none r⟩
    · refine .inl (Eq.trans ?_ ((FileTree.writeFile_changes file).2 l hl))
      cases r.taken with
      | none => rfl
      | some n =>
        rw [FileTree.writePart, FileTree.node?_writeAt, if_neg fun hw => hignore hw.2]

/-- The manifest is there. -/
theorem HalfStarted.pathExists (half : HalfStarted env dir t e u) :
    u.pathExists env.cwd (dir.child Manifest.fileName) = true := by
  cases half with
  | cut refused taken file =>
    exact FileTree.pathExists_of_readFile (FileTree.readFile_of_writeFile file)
  | unreadable file found =>
    exact FileTree.pathExists_of_readFile (FileTree.readFile_of_writeFile file)
  | @unwritable text old u r file found refused =>
    have there := FileTree.pathExists_of_readFile (FileTree.readFile_of_writeFile file)
    cases hr : r.taken with
    | none => exact there
    | some n =>
      rw [← Gitignore.found_of_writeFile env.cwd file] at found
      obtain ⟨v, hv⟩ := Gitignore.writeFile_of_found file found
        ((Gitignore.withEntry old).toUTF8.extract 0 n)
      obtain rfl : v = u.writeAt ((dir.child ".gitignore").locate env.cwd) _ :=
        (FileTree.writeFile_ok hv).1
      refine (FileTree.pathExists_beside Manifest.plainName_fileName Gitignore.plainName ?_ hv).trans there
      decide

/-! ### The steps of a start -/

/-- Once the manifest is written, the entry in `.gitignore` only fails where that file cannot
    be read or the host refuses it. -/
theorem ensureGitignore_fails {text : String}
    (wrote : t.writeFile env.cwd (dir.child Manifest.fileName) text.toUTF8 = .ok h.files)
    (run : (ensureGitignore dir).runOn env h = (.error e, h')) :
    ∃ u, HalfStarted env dir t e u ∧ h' = { h with files := u } := by
  have hfound := Gitignore.found_of_writeFile env.cwd wrote
  cases hread : Gitignore.found h.files env.cwd dir with
  | error f =>
    have hrun := hread
    rw [Gitignore.found] at hrun
    rw [runOn_ensureGitignore, hrun] at run
    simp only [Prod.mk.injEq, Except.error.injEq] at run
    obtain ⟨rfl, rfl⟩ := run
    exact ⟨h.files, .unreadable wrote (hfound ▸ hread), rfl⟩
  | ok old =>
    by_cases has : Gitignore.HasEntry old
    · rw [ensureGitignore_of_hasEntry hread has] at run
      cases run
    · rw [ensureGitignore_of_not_hasEntry hread has] at run
      rcases Action.writeText_error_cases run with ⟨noPlace, -⟩ | ⟨r, u, refused, rfl, -, rfl⟩
      · obtain ⟨v, hv⟩ := Gitignore.writeFile_of_found wrote hread (Gitignore.withEntry old).toUTF8
        exact absurd hv (noPlace v)
      · exact ⟨_, .unwritable wrote (hfound ▸ hread) refused, rfl⟩

/-- What is left where the package's name is known and the project cannot be started. -/
theorem startPackage_fails (run : (startPackage dir package).runOn env h = (.error e, h')) :
    h' = h ∨ ∃ u, HalfStarted env dir h.files e u ∧ h' = { h with files := u } ∧
      ∃ bytes v, h.files.writeFile env.cwd (dir.child Manifest.fileName) bytes = .ok v := by
  unfold startPackage at run
  obtain hinvalid | ⟨_, _, hvalid, run⟩ := Action.runOn_bind_error run
  · exact .inl (congrArg Prod.snd hinvalid).symm
  obtain rfl := congrArg Prod.snd hvalid
  obtain hscanner | ⟨withScanner, _, hscanner, run⟩ := Action.runOn_bind_error run
  · cases hscanner
  obtain rfl := congrArg Prod.snd hscanner
  obtain hwrite | ⟨_, h₁, hwrite, run⟩ := Action.runOn_bind_error run
  · rcases Action.writeText_error_cases hwrite with ⟨-, rfl⟩ | ⟨r, u, refused, rfl, file, rfl⟩
    · exact .inl rfl
    · cases htaken : r.taken with
      | none => exact .inl rfl
      | some n =>
        have hpart := FileTree.writeFile_of_place (FileTree.place_of_writeFile file)
        exact .inr ⟨_, .cut refused htaken (hpart _), rfl, _, _, file⟩
  · obtain ⟨u, hu, rfl⟩ := Action.runOn_writeText_ok hwrite
    obtain hignore | ⟨_, h₂, -, run⟩ := Action.runOn_bind_error run
    · obtain ⟨v, half, rfl⟩ := ensureGitignore_fails hu hignore
      exact .inr ⟨v, half, rfl, _, u, hu⟩
    · cases run

theorem writeFile_of_startPackage {r : InitResult}
    (run : (startPackage dir package).runOn env h = (.ok r, h')) :
    ∃ bytes u, h.files.writeFile env.cwd (dir.child Manifest.fileName) bytes = .ok u := by
  unfold startPackage at run
  obtain ⟨_, _, hvalid, run⟩ := Action.runOn_bind_ok run
  obtain rfl := congrArg Prod.snd hvalid
  obtain ⟨withScanner, _, hscanner, run⟩ := Action.runOn_bind_ok run
  obtain rfl := congrArg Prod.snd hscanner
  obtain ⟨_, _, hwrite, -⟩ := Action.runOn_bind_ok run
  obtain ⟨u, hu, -⟩ := Action.runOn_writeText_ok hwrite
  exact ⟨_, u, hu⟩

/-- Where a manifest is found, no start gets any further. -/
theorem runOn_initProject_again
    (there : h.files.pathExists env.cwd (dir.child Manifest.fileName) = true) (name : Option String) :
    (initProject dir name).runOn env h = (.error (.of (.manifestExists dir)), h) := by
  unfold initProject
  rw [Action.runOn_bind, Action.runOn_ensureDir_of_found Manifest.plainName_fileName there]
  simp only [Action.runOn_bind _ _ (Action.pathExists _), Action.runOn_pathExists, there]
  rfl

theorem runOn_directoryName (dir : Path) (env : Environment) (h : Host) :
    ∃ r, (directoryName dir).runOn env h = (r, h) := by
  have hhost : ((Action.within (.resolving dir) (Action.canonical dir)).runOn env h).2 = h := rfl
  unfold directoryName
  rw [Action.runOn_bind]
  rcases hc : (Action.within (.resolving dir) (Action.canonical dir)).runOn env h with ⟨r, h₁⟩
  obtain rfl : h₁ = h := by
    rw [hc] at hhost
    exact hhost
  cases r with
  | error e => exact ⟨.error e, rfl⟩
  | ok canonical =>
    simp only []
    cases canonical.fileName? with
    | none => exact ⟨_, rfl⟩
    | some name => exact ⟨_, rfl⟩

/-- A start ends before the package's name is known, or with what is left to do then. -/
theorem initProject_cases {name : Option String} {r : Except Failure InitResult}
    (run : (initProject dir name).runOn env h = (r, h')) :
    ∃ t, FileTree.AddsDirs (dir.way env.cwd) h.files t ∧
      ((∃ e, r = .error e) ∧ h' = { h with files := t } ∨
        t.pathExists env.cwd (dir.child Manifest.fileName) = false ∧
          ∃ package, (startPackage dir package).runOn env { h with files := t } = (r, h')) := by
  obtain ⟨made, t, hdir, adds⟩ := Action.ensureDir_cases env h dir
  refine ⟨t, adds, ?_⟩
  unfold initProject at run
  rw [Action.runOn_bind, hdir] at run
  cases made with
  | error e =>
    cases run
    exact .inl ⟨⟨e, rfl⟩, rfl⟩
  | ok _ =>
    simp only [Action.runOn_bind _ _ (Action.pathExists _), Action.runOn_pathExists] at run
    cases there : t.pathExists env.cwd (dir.child Manifest.fileName) with
    | true =>
      rw [there] at run
      cases run
      exact .inl ⟨⟨_, rfl⟩, rfl⟩
    | false =>
      rw [there] at run
      cases name with
      | some package =>
        change (pure package >>= startPackage dir).runOn env { h with files := t } = (r, h') at run
        rw [pure_bind] at run
        exact .inr ⟨rfl, package, run⟩
      | none =>
        obtain ⟨named, hnamed⟩ := runOn_directoryName dir env { h with files := t }
        change (directoryName dir >>= startPackage dir).runOn env { h with files := t } = (r, h') at run
        rw [Action.runOn_bind, hnamed] at run
        cases named with
        | error e =>
          cases run
          exact .inl ⟨⟨e, rfl⟩, rfl⟩
        | ok package => exact .inr ⟨rfl, package, run⟩

/-- **A project that cannot be started is left as it was**, save for directories that were
    made on the way to it, unless it is left half started: then there was no manifest, what
    changed is the manifest and at most a `.gitignore` that the host refuses, and every
    further start is refused because of the manifest, whatever the host takes by then.
    Where a project is started, it had no manifest. -/
theorem failed_start_leaves (dir : Path) (name : Option String) (env : Environment) (h : Host) :
    (∀ r h', (initProject dir name).runOn env h = (.ok r, h') →
      h.files.node? ((dir.child Manifest.fileName).locate env.cwd) = none) ∧
    ∀ e h', (initProject dir name).runOn env h = (.error e, h') →
      ∃ t, FileTree.AddsDirs (dir.way env.cwd) h.files t ∧
        (h' = { h with files := t } ∨ ∃ u, HalfStarted env dir t e u ∧ h' = { h with files := u } ∧
          t.node? ((dir.child Manifest.fileName).locate env.cwd) = none ∧
          (∀ l, l ≠ (dir.child Manifest.fileName).locate env.cwd →
            u.node? l = t.node? l ∨
              l = (dir.child ".gitignore").locate env.cwd ∧ env.refuses l ≠ none) ∧
          ∀ (env' : Environment), env'.cwd = env.cwd → ∀ name,
            (initProject dir name).runOn env' h' = (.error (.of (.manifestExists dir)), h')) := by
  have hmanifest := Manifest.plainName_fileName
  constructor
  · intro r h' run
    obtain ⟨t, adds, ⟨⟨e, hr⟩, -⟩ | ⟨missing, package, run⟩⟩ := initProject_cases run
    · cases hr
    · obtain ⟨bytes, u, hu⟩ := writeFile_of_startPackage run
      exact adds.node?_none (FileTree.node?_of_writeFile_new hmanifest hu missing)
  · intro e h' run
    obtain ⟨t, adds, ⟨-, rfl⟩ | ⟨missing, package, run⟩⟩ := initProject_cases run
    · exact ⟨t, adds, .inl rfl⟩
    · obtain rfl | ⟨u, half, rfl, bytes, v, hv⟩ := startPackage_fails run
      · exact ⟨t, adds, .inl rfl⟩
      · refine ⟨t, adds, .inr ⟨u, half, rfl, FileTree.node?_of_writeFile_new hmanifest hv missing,
          fun l hl => half.elsewhere hl, fun env' cwd name => ?_⟩⟩
        apply runOn_initProject_again
        rw [cwd]
        exact half.pathExists

namespace Sample

/-- A directory without a manifest. -/
def unstarted : FileTree := (∅ : FileTree).set ["p"] .dir

/-- The same directory with a `.gitignore` in it. -/
def unstartedWith (ignore : Node) : FileTree := unstarted.set ["p", ".gitignore"] ignore

/-- A host on which the `.gitignore` cannot be written. -/
def guarding : Environment :=
  { (default : Environment) with
    refuses := fun l => if l = ["p", ".gitignore"] then some ⟨.accessDenied, none⟩ else none }

/-- A file that ignores objects. -/
def ignored : Node := .file "*.o\n".toUTF8 false

/-- The directory with the manifest of a new project. -/
def halfStarted (ignore : Node) : FileTree :=
  (unstartedWith ignore).set ["p", "October.toml"]
    (.file (Manifest.generate "x" "tree_sitter_x" false).toUTF8 false)

/-- The directory is there, so that none is made. -/
theorem addsDirs_unstarted {t : FileTree} (adds : FileTree.AddsDirs ((⟨"/p"⟩ : Path).way []) unstarted t)
    (l : Location) : t.node? l = unstarted.node? l := by
  have hdirs : ∀ l ∈ (⟨"/p"⟩ : Path).way [], (unstarted.node? l).isSome = true := by decide
  rcases adds l with same | ⟨hway, hnone, -⟩
  · exact same
  · have hsome := hdirs l hway
    rw [hnone] at hsome
    cases hsome

end Sample

/-- Three runs where there is no manifest: one with a name that is no module's, which changes
    nothing, one that starts a project, and one that leaves a manifest behind because the
    `.gitignore` cannot be written. -/
theorem failed_start_leaves_directory :
    (∃ e h', (initProject ⟨"/p"⟩ (some "a b")).runOn default { files := Sample.unstarted } =
        (.error e, h') ∧
      ∀ l, h'.files.node? l = Sample.unstarted.node? l) ∧
    (∃ r h', (initProject ⟨"/p"⟩ (some "a-b")).runOn default { files := Sample.unstarted } =
        (.ok r, h') ∧
      Sample.unstarted.node? ["p", "October.toml"] = none) ∧
    (initProject ⟨"/p"⟩ (some "x")).runOn Sample.guarding
        { files := Sample.unstartedWith Sample.ignored } =
      (.error ⟨[.writing ⟨"/p/.gitignore"⟩], .host .accessDenied⟩,
        { files := Sample.halfStarted Sample.ignored }) ∧
    ∀ name, (initProject ⟨"/p"⟩ name).runOn default { files := Sample.halfStarted Sample.ignored } =
      (.error (.of (.manifestExists ⟨"/p"⟩)), { files := Sample.halfStarted Sample.ignored }) := by
  refine ⟨?_, ?_, ?_⟩
  · obtain ⟨e, h', run⟩ : ∃ e h', (initProject ⟨"/p"⟩ (some "a b")).runOn default
        { files := Sample.unstarted } = (.error e, h') := ⟨_, _, rfl⟩
    obtain ⟨t, adds, hleft⟩ := (failed_start_leaves _ _ _ _).2 e h' run
    have same := Sample.addsDirs_unstarted adds
    rcases hleft with rfl | ⟨u, half, rfl, -⟩
    · exact ⟨e, _, run, same⟩
    · cases run
      have missing : Sample.unstarted.pathExists [] ((⟨"/p"⟩ : Path).child Manifest.fileName) = false :=
        by decide
      exact absurd half.pathExists (missing ▸ Bool.false_ne_true)
  · obtain ⟨r, h', run⟩ : ∃ r h', (initProject ⟨"/p"⟩ (some "a-b")).runOn default
        { files := Sample.unstarted } = (.ok r, h') := ⟨_, _, rfl⟩
    have hplace : ((⟨"/p"⟩ : Path).child Manifest.fileName).locate (default : Environment).cwd =
        ["p", "October.toml"] := by decide
    have hnone := (failed_start_leaves _ _ _ _).1 r h' run
    rw [hplace] at hnone
    exact ⟨r, h', run, hnone⟩
  · have run : (initProject ⟨"/p"⟩ (some "x")).runOn Sample.guarding
        { files := Sample.unstartedWith Sample.ignored } =
      (.error ⟨[.writing ⟨"/p/.gitignore"⟩], .host .accessDenied⟩,
        { files := Sample.halfStarted Sample.ignored }) := rfl
    refine ⟨run, ?_⟩
    obtain ⟨t, adds, hleft⟩ := (failed_start_leaves _ _ _ _).2 _ _ run
    rcases hleft with hsame | ⟨-, -, -, -, -, again⟩
    · -- no directory was made in place of the manifest
      obtain rfl : Sample.halfStarted Sample.ignored = t := congrArg Host.files hsame
      have hnode := adds ["p", "October.toml"]
      rcases hnode with hnode | ⟨-, -, hnode⟩
      · cases hnode
      · cases hnode
    · exact again default rfl

/-- Where `.gitignore` is a directory, a start fails and leaves a manifest, and without that
    directory, the next start is refused because of the manifest. -/
theorem failed_start_stays :
    (Sample.unstartedWith .dir).node? ["p", "October.toml"] = none ∧
      (initProject ⟨"/p"⟩ (some "x")).runOn default { files := Sample.unstartedWith .dir } =
        (.error ⟨[.reading ⟨"/p/.gitignore"⟩], .host .isDirectory⟩,
          { files := Sample.halfStarted .dir }) ∧
      ((Sample.halfStarted .dir).node? ["p", "October.toml"]).isSome = true ∧
      (initProject ⟨"/p"⟩ (some "x")).runOn default
          { files := (Sample.halfStarted .dir).remove ["p", ".gitignore"] } =
        (.error (.of (.manifestExists ⟨"/p"⟩)),
          { files := (Sample.halfStarted .dir).remove ["p", ".gitignore"] }) :=
  ⟨rfl, rfl, rfl, rfl⟩

end GrammarBuild
