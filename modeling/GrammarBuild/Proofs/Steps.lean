import GrammarBuild.Build.Execute
import GrammarBuild.Proofs.CacheOnDisk
import GrammarBuild.Proofs.Inputs

/-
  GrammarBuild/Proofs/Steps.lean
  ==============================
  **What a step of a build can come to** — `Compiles` and `Links` list the ways in which
  a compile step and a link step end: what they read cannot be read, their result is
  fresh, the directory for it cannot be made, or a process was started and succeeded or
  failed.  Each says what the files are afterwards and which processes were started.

  `compiles_runOn` and `links_runOn` are the only places where `compile` and `link` are
  opened; what is said of builds elsewhere goes by these cases.
-/

namespace GrammarBuild

/-! ### Freshness -/

namespace FingerprintCache

/-- Whether an object is there and recorded under this fingerprint. -/
def objectFresh (c : FingerprintCache) (t : FileTree) (cwd : Location) (object : Path)
    (now : CompileFingerprint) : Bool :=
  t.pathExists cwd object && (c.compile.get? object).any (·.agrees now)

/-- Whether a module is there and recorded under this fingerprint. -/
def moduleFresh (c : FingerprintCache) (t : FileTree) (cwd : Location) (target : String)
    (module : Path) (now : LinkFingerprint) : Bool :=
  t.pathExists cwd module && (c.link.get? target).any (·.agrees now)

variable {env : Environment} {h : Host}

theorem runOn_needsCompile (c : FingerprintCache) (object : Path) (now : CompileFingerprint) :
    (c.needsCompile object now).runOn env h =
      (.ok (!c.objectFresh h.files env.cwd object now), h) := by
  unfold needsCompile objectFresh
  rw [Action.runOn_bind, Action.runOn_pathExists]
  cases h.files.pathExists env.cwd object with
  | false => rfl
  | true =>
    cases c.compile.get? object with
    | none => rfl
    | some f => rfl

theorem runOn_needsLink (c : FingerprintCache) (target : String) (module : Path)
    (now : LinkFingerprint) :
    (c.needsLink target module now).runOn env h =
      (.ok (!c.moduleFresh h.files env.cwd target module now), h) := by
  unfold needsLink moduleFresh
  rw [Action.runOn_bind, Action.runOn_pathExists]
  cases h.files.pathExists env.cwd module with
  | false => rfl
  | true =>
    cases c.link.get? target with
    | none => rfl
    | some f => rfl

end FingerprintCache

/-! ### The directory around a result -/

/-- The directory around a result made if it is missing, and the tree that this leaves. -/
def FileTree.prepare (t : FileTree) (cwd : Location) (output : Path) :
    Except Failure Unit × FileTree :=
  match output.parent? with
  | none => (.ok (), t)
  | some dir =>
    if t.pathExists cwd dir then (.ok (), t)
    else
      (Failure.within (.creatingDirectory dir) (Failure.lift .host (t.createDirs cwd dir).1),
        (t.createDirs cwd dir).2)

theorem FileTree.prepare_adds (t : FileTree) (cwd : Location) (output : Path) :
    FileTree.AddsDirs (output.dirWay cwd) t (t.prepare cwd output).2 := by
  unfold prepare
  cases hp : output.parent? with
  | none => exact .refl _ t
  | some dir =>
    simp only []
    split
    · exact .refl _ t
    · rw [← Path.way_parent? hp]
      exact createDirs_adds t cwd dir

namespace BuildContext

variable {env : Environment} {h : Host}

theorem runOn_prepareOutput (output : Path) :
    (prepareOutput output).runOn env h =
      ((h.files.prepare env.cwd output).1, { h with files := (h.files.prepare env.cwd output).2 }) := by
  unfold prepareOutput FileTree.prepare
  cases output.parent? with
  | none => rfl
  | some dir =>
    simp only [Action.ensureDir, Action.runOn_bind, Action.runOn_pathExists, Action.runOn_ite,
      Action.runOn_within, Action.runOn_changeWith, Action.runOn_pure]
    cases h.files.pathExists env.cwd dir with
    | true => rfl
    | false => rfl

end BuildContext

/-- A file is written where a result could be made. -/
theorem Action.writeString_eq_prepareOutput (p : Path) (text : String) :
    writeString p text = (BuildContext.prepareOutput p >>= fun _ =>
      within (.writingFile p) (writeText p text)) := by
  unfold writeString BuildContext.prepareOutput
  cases p.parent? with
  | none => rfl
  | some q => rfl

/-! ### Processes -/

/-- Whether a process could be started and exited with 0. -/
def exitsZero : Except HostFault Completed → Bool
  | .ok done => done.succeeded
  | .error _ => false

/-- How a process that must exit with 0 came out. -/
def checked (c : Command) : Except HostFault Completed → Except Failure Completed
  | .ok done =>
    if done.succeeded then .ok done
    else .error (.of (.exitStatus c.text done.code (Text.trimEnd done.stderr)))
  | .error f => .error ((Failure.of (.host f)).inside (.spawning c.program))

theorem checked_of_exitsZero {c : Command} {r : Except HostFault Completed} (h : exitsZero r = true) :
    ∃ done, checked c r = .ok done := by
  cases r with
  | error f => cases h
  | ok done =>
    have hd : done.succeeded = true := h
    exact ⟨done, by simp [checked, hd]⟩

theorem checked_of_not_exitsZero {c : Command} {r : Except HostFault Completed}
    (h : exitsZero r = false) : ∃ e, checked c r = .error e := by
  cases r with
  | error f => exact ⟨_, rfl⟩
  | ok done =>
    have hd : done.succeeded = false := h
    exact ⟨.of (.exitStatus c.text done.code (Text.trimEnd done.stderr)), by simp [checked, hd]⟩

theorem runOn_execAndCheck (c : Command) (dir : Option Path) (env : Environment) (h : Host) :
    (Action.execAndCheck c dir).runOn env h =
      (checked c (env.run h.files ⟨c, dir⟩).1,
        { h with events := h.events ++ [.started ⟨c, dir⟩], files := (env.run h.files ⟨c, dir⟩).2 }) := by
  unfold Action.execAndCheck
  rw [Action.runOn_bind, Action.runOn_exec]
  cases (env.run h.files ⟨c, dir⟩).1 with
  | error f => rfl
  | ok done =>
    simp only [Failure.lift, Failure.within, Except.mapError, checked, Action.runOn_bind,
      Action.runOn_ite, Action.runOn_fail, Action.runOn_pure]
    cases done.succeeded with
    | true => rfl
    | false => rfl

/-! ### Compile steps -/

/-- How a compile step is started. -/
def BuildContext.compileCall (c : BuildContext) (s : CompileStep) : Invocation :=
  ⟨s.command, some c.root⟩

/-- What is written for a compile step whose inputs were read. -/
def BuildContext.compileNow (c : BuildContext) (s : CompileStep) (i : CompileInputs) :
    CompileFingerprint := i.fingerprint s c.toolchain.identity

/-- The ways in which a compile step ends: its result, the files afterwards, and the
    processes that were started. -/
inductive Compiles (env : Environment) (c : BuildContext) (cache : FingerprintCache)
    (s : CompileStep) (t : FileTree) :
    Except Failure Compiled → FileTree → List Invocation → Prop where
  /-- The source or a header cannot be read. -/
  | unreadable {e : Failure}
    (inputs : CompileInputs.ofStep t env.cwd c.root s = .error e) :
    Compiles env c cache s t (.error (e.inside (.readingSource s.source))) t []
  /-- The object is up to date. -/
  | fresh {i : CompileInputs}
    (inputs : CompileInputs.ofStep t env.cwd c.root s = .ok i)
    (fresh : cache.objectFresh t env.cwd s.output (c.compileNow s i) = true) :
    Compiles env c cache s t (.ok ⟨c.compileNow s i, true⟩) t []
  /-- The directory for the object cannot be made. -/
  | blocked {i : CompileInputs} {e : Failure} {t₁ : FileTree}
    (inputs : CompileInputs.ofStep t env.cwd c.root s = .ok i)
    (stale : cache.objectFresh t env.cwd s.output (c.compileNow s i) = false)
    (dir : t.prepare env.cwd s.output = (.error e, t₁)) :
    Compiles env c cache s t (.error e) t₁ []
  /-- The compiler was run and exited with 0. -/
  | succeeded {i : CompileInputs} {t₁ t₂ : FileTree} {r : Except HostFault Completed}
    (inputs : CompileInputs.ofStep t env.cwd c.root s = .ok i)
    (stale : cache.objectFresh t env.cwd s.output (c.compileNow s i) = false)
    (dir : t.prepare env.cwd s.output = (.ok (), t₁))
    (run : env.run t₁ (c.compileCall s) = (r, t₂))
    (exit : exitsZero r = true) :
    Compiles env c cache s t (.ok ⟨c.compileNow s i, false⟩) t₂ [c.compileCall s]
  /-- The compiler was run and did not exit with 0. -/
  | failed {i : CompileInputs} {e : Failure} {t₁ t₂ : FileTree} {r : Except HostFault Completed}
    (inputs : CompileInputs.ofStep t env.cwd c.root s = .ok i)
    (stale : cache.objectFresh t env.cwd s.output (c.compileNow s i) = false)
    (dir : t.prepare env.cwd s.output = (.ok (), t₁))
    (run : env.run t₁ (c.compileCall s) = (r, t₂))
    (exit : exitsZero r = false) :
    Compiles env c cache s t (.error e) t₂ [c.compileCall s]

namespace BuildContext

variable {env : Environment} {h : Host}

theorem runOn_inspect (c : BuildContext) (cache : FingerprintCache) (s : CompileStep) :
    (c.inspect cache s).runOn env h =
      match CompileInputs.ofStep h.files env.cwd c.root s with
      | .ok i => (.ok ⟨c.compileNow s i,
          cache.objectFresh h.files env.cwd s.output (c.compileNow s i)⟩, h)
      | .error e => (.error (e.inside (.readingSource s.source)), h) := by
  unfold inspect
  rw [Action.runOn_bind, Action.runOn_within, CompileFingerprint.runOn_ofStep]
  cases CompileInputs.ofStep h.files env.cwd c.root s with
  | error e => rfl
  | ok i =>
    simp only [Failure.within, Except.mapError, Except.map, Action.runOn_bind,
      FingerprintCache.runOn_needsCompile, Action.runOn_pure, Bool.not_not]
    rfl

theorem runOn_runCompile (c : BuildContext) (s : CompileStep) :
    (c.runCompile s).runOn env h =
      match h.files.prepare env.cwd s.output with
      | (.error e, t₁) => (.error e, { h with files := t₁ })
      | (.ok _, t₁) =>
        ((Failure.within (.compiling s.target s.source)
            (checked s.command (env.run t₁ (c.compileCall s)).1)).map fun _ => (),
          { h with
            events := h.events ++
              [.log .debug ("compiling " ++ s.source.text ++ " -> " ++ s.output.text)] ++
              [.started (c.compileCall s)]
            files := (env.run t₁ (c.compileCall s)).2 }) := by
  simp only [runCompile, Action.runOn_bind, runOn_prepareOutput]
  rcases h.files.prepare env.cwd s.output with ⟨r, t₁⟩
  cases r with
  | error e => rfl
  | ok _ =>
    simp only [Action.runOn_log, Action.runOn_within, runOn_execAndCheck, compileCall]
    cases checked s.command (env.run t₁ ⟨s.command, some c.root⟩).1 with
    | error e => rfl
    | ok done => rfl

theorem runOn_compile (c : BuildContext) (cache : FingerprintCache) (s : CompileStep) :
    (c.compile cache s).runOn env h =
      match CompileInputs.ofStep h.files env.cwd c.root s with
      | .error e => (.error (e.inside (.readingSource s.source)), h)
      | .ok i =>
        if cache.objectFresh h.files env.cwd s.output (c.compileNow s i) then
          (.ok ⟨c.compileNow s i, true⟩,
            { h with
              events := h.events ++ [.log .debug ("fresh: " ++ s.source.text)]
              progress := h.progress.addCompiled })
        else
          match (c.runCompile s).runOn env h with
          | (.error e, h') => (.error e, h')
          | (.ok _, h') =>
            (.ok ⟨c.compileNow s i, false⟩, { h' with progress := h'.progress.addCompiled }) := by
  unfold compile
  rw [Action.runOn_bind, runOn_inspect]
  cases CompileInputs.ofStep h.files env.cwd c.root s with
  | error e => rfl
  | ok i =>
    simp only []
    cases cache.objectFresh h.files env.cwd s.output (c.compileNow s i) with
    | true => rfl
    | false =>
      simp only [Bool.false_eq_true, if_false, Action.runOn_bind]
      rcases (c.runCompile s).runOn env h with ⟨r, h'⟩
      cases r with
      | error e => rfl
      | ok _ => rfl

/-- A compile step ends in one of the ways of `Compiles`. -/
theorem compiles_runOn (c : BuildContext) (env : Environment) (h : Host) (cache : FingerprintCache)
    (s : CompileStep) :
    ∃ procs, Compiles env c cache s h.files ((c.compile cache s).runOn env h).1
        ((c.compile cache s).runOn env h).2.files procs ∧
      ((c.compile cache s).runOn env h).2.started = h.started ++ procs := by
  rw [runOn_compile]
  cases hi : CompileInputs.ofStep h.files env.cwd c.root s with
  | error e => exact ⟨[], .unreadable hi, by simp⟩
  | ok i =>
    simp only []
    split
    · rename_i hf
      exact ⟨[], .fresh hi hf, by simp [Host.started]⟩
    · rename_i hf
      have hf := Bool.eq_false_iff.2 hf
      rw [runOn_runCompile]
      rcases hp : h.files.prepare env.cwd s.output with ⟨r, t₁⟩
      cases r with
      | error e => exact ⟨[], .blocked hi hf hp, by simp⟩
      | ok _ =>
        rcases hr : env.run t₁ (c.compileCall s) with ⟨q, t₂⟩
        refine ⟨[c.compileCall s], ?_⟩
        cases hx : exitsZero q with
        | true =>
          obtain ⟨done, hd⟩ := checked_of_exitsZero (c := s.command) hx
          simp only [hr, hd, Failure.within, Except.mapError, Except.map]
          exact ⟨.succeeded hi hf hp hr hx, by simp [Host.started]⟩
        | false =>
          obtain ⟨e, he⟩ := checked_of_not_exitsZero (c := s.command) hx
          simp only [hr, he, Failure.within, Except.mapError, Except.map]
          exact ⟨.failed hi hf hp hr hx, by simp [Host.started]⟩

end BuildContext

/-! ### Link steps -/

/-- How a link step is started. -/
def BuildContext.linkCall (c : BuildContext) (s : LinkStep) : Invocation :=
  ⟨s.command, some c.root⟩

/-- Whether a link step is fresh: none of its objects was compiled in this build, and
    its module is up to date. -/
def FingerprintCache.linkFresh (cache : FingerprintCache) (t : FileTree) (cwd : Location)
    (rebuilt : Bool) (s : LinkStep) (i : LinkInputs) : Bool :=
  !rebuilt && cache.moduleFresh t cwd s.target s.output (i.fingerprint s)

/-- The module of a link step, and whether nothing was run for it. -/
def LinkStep.artifact (s : LinkStep) (fresh : Bool) : Artifact :=
  { target := s.target, path := s.output, fresh }

/-- The ways in which a link step ends: its result, the files afterwards, and the
    processes that were started. -/
inductive Links (env : Environment) (c : BuildContext) (cache : FingerprintCache) (rebuilt : Bool)
    (s : LinkStep) (t : FileTree) :
    Except Failure (Artifact × FingerprintCache) → FileTree → List Invocation → Prop where
  /-- An object cannot be read. -/
  | unreadable {e : Failure}
    (inputs : LinkInputs.ofStep t env.cwd s = .error e) :
    Links env c cache rebuilt s t (.error e) t []
  /-- The module is up to date. -/
  | fresh {i : LinkInputs}
    (inputs : LinkInputs.ofStep t env.cwd s = .ok i)
    (fresh : cache.linkFresh t env.cwd rebuilt s i = true) :
    Links env c cache rebuilt s t
      (.ok (s.artifact true, cache.recordLink s.target (i.fingerprint s))) t []
  /-- The directory for the module cannot be made. -/
  | blocked {i : LinkInputs} {e : Failure} {t₁ : FileTree}
    (inputs : LinkInputs.ofStep t env.cwd s = .ok i)
    (stale : cache.linkFresh t env.cwd rebuilt s i = false)
    (dir : t.prepare env.cwd s.output = (.error e, t₁)) :
    Links env c cache rebuilt s t (.error e) t₁ []
  /-- The linker was run and exited with 0. -/
  | succeeded {i : LinkInputs} {t₁ t₂ : FileTree} {r : Except HostFault Completed}
    (inputs : LinkInputs.ofStep t env.cwd s = .ok i)
    (stale : cache.linkFresh t env.cwd rebuilt s i = false)
    (dir : t.prepare env.cwd s.output = (.ok (), t₁))
    (run : env.run t₁ (c.linkCall s) = (r, t₂))
    (exit : exitsZero r = true) :
    Links env c cache rebuilt s t
      (.ok (s.artifact false, cache.recordLink s.target (i.fingerprint s))) t₂ [c.linkCall s]
  /-- The linker was run and did not exit with 0. -/
  | failed {i : LinkInputs} {e : Failure} {t₁ t₂ : FileTree} {r : Except HostFault Completed}
    (inputs : LinkInputs.ofStep t env.cwd s = .ok i)
    (stale : cache.linkFresh t env.cwd rebuilt s i = false)
    (dir : t.prepare env.cwd s.output = (.ok (), t₁))
    (run : env.run t₁ (c.linkCall s) = (r, t₂))
    (exit : exitsZero r = false) :
    Links env c cache rebuilt s t (.error e) t₂ [c.linkCall s]

namespace BuildContext

variable {env : Environment} {h : Host}

theorem runOn_link (c : BuildContext) (cache : FingerprintCache) (rebuilt : Bool) (s : LinkStep) :
    (c.link cache rebuilt s).runOn env h =
      match LinkInputs.ofStep h.files env.cwd s with
      | .error e => (.error e, h)
      | .ok i =>
        if cache.linkFresh h.files env.cwd rebuilt s i then
          (.ok (s.artifact true, cache.recordLink s.target (i.fingerprint s)),
            { h with
              events := h.events ++ [.log .debug ("fresh: " ++ s.output.text)]
              progress := h.progress.addLinked })
        else
          match h.files.prepare env.cwd s.output with
          | (.error e, t₁) => (.error e, { h with files := t₁ })
          | (.ok _, t₁) =>
            match Failure.within (.linking s.target)
                (checked s.command (env.run t₁ (c.linkCall s)).1) with
            | .error e =>
              (.error e,
                { h with
                  events := h.events ++ [.log .debug ("linking " ++ s.output.text)] ++
                    [.started (c.linkCall s)]
                  files := (env.run t₁ (c.linkCall s)).2 })
            | .ok _ =>
              (.ok (s.artifact false, cache.recordLink s.target (i.fingerprint s)),
                { h with
                  events := h.events ++ [.log .debug ("linking " ++ s.output.text)] ++
                    [.started (c.linkCall s)]
                  files := (env.run t₁ (c.linkCall s)).2
                  progress := h.progress.addLinked }) := by
  unfold link
  rw [Action.runOn_bind, LinkFingerprint.runOn_ofStep]
  cases LinkInputs.ofStep h.files env.cwd s with
  | error e => rfl
  | ok i =>
    have hstale (k : Bool → Action (Artifact × FingerprintCache)) :
        (if rebuilt = true then pure true >>= k
          else cache.needsLink s.target s.output (i.fingerprint s) >>= k).runOn env h =
        (k (!cache.linkFresh h.files env.cwd rebuilt s i)).runOn env h := by
      cases rebuilt with
      | true => rfl
      | false =>
        simp only [Bool.false_eq_true, if_false, Action.runOn_bind, FingerprintCache.runOn_needsLink]
        rfl
    simp only [Except.map, hstale]
    cases cache.linkFresh h.files env.cwd rebuilt s i with
    | true => rfl
    | false =>
      simp only [Bool.not_false, if_true, Bool.false_eq_true, if_false, Action.runOn_bind,
        runOn_prepareOutput]
      rcases h.files.prepare env.cwd s.output with ⟨r, t₁⟩
      cases r with
      | error e => rfl
      | ok _ =>
        simp only [Action.runOn_log, Action.runOn_within, runOn_execAndCheck, linkCall]
        cases checked s.command (env.run t₁ ⟨s.command, some c.root⟩).1 with
        | error e => rfl
        | ok done => rfl

/-- A link step ends in one of the ways of `Links`. -/
theorem links_runOn (c : BuildContext) (env : Environment) (h : Host) (cache : FingerprintCache)
    (rebuilt : Bool) (s : LinkStep) :
    ∃ procs, Links env c cache rebuilt s h.files ((c.link cache rebuilt s).runOn env h).1
        ((c.link cache rebuilt s).runOn env h).2.files procs ∧
      ((c.link cache rebuilt s).runOn env h).2.started = h.started ++ procs := by
  rw [runOn_link]
  cases hi : LinkInputs.ofStep h.files env.cwd s with
  | error e => exact ⟨[], .unreadable hi, by simp⟩
  | ok i =>
    simp only []
    split
    · rename_i hf
      exact ⟨[], .fresh hi hf, by simp [Host.started]⟩
    · rename_i hf
      have hf := Bool.eq_false_iff.2 hf
      rcases hp : h.files.prepare env.cwd s.output with ⟨r, t₁⟩
      cases r with
      | error e => exact ⟨[], .blocked hi hf hp, by simp⟩
      | ok _ =>
        rcases hr : env.run t₁ (c.linkCall s) with ⟨q, t₂⟩
        refine ⟨[c.linkCall s], ?_⟩
        cases hx : exitsZero q with
        | true =>
          obtain ⟨done, hd⟩ := checked_of_exitsZero (c := s.command) hx
          simp only [hr, hd, Failure.within, Except.mapError]
          exact ⟨.succeeded hi hf hp hr hx, by simp [Host.started]⟩
        | false =>
          obtain ⟨e, he⟩ := checked_of_not_exitsZero (c := s.command) hx
          simp only [hr, he, Failure.within, Except.mapError]
          exact ⟨.failed hi hf hp hr hx, by simp [Host.started]⟩

end BuildContext

end GrammarBuild
