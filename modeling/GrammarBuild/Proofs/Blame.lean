import GrammarBuild.Build.Run
import GrammarBuild.Proofs.Actions

/-
  GrammarBuild/Proofs/Blame.lean
  ==============================
  **Which failures are about a source** — the causes `sourceNotFound` and
  `sourceNotFile`.  They arise nowhere but in the check of the sources: all the rest of
  what a build does fails, if it fails, for another cause (`spares_afterSources`).

  `Action.Spares A` says that of an action, and that each of its results is in `A`.  The
  results matter where a failure is kept as one and thrown later.
-/

namespace GrammarBuild

/-- Whether a source is what is missing, or is no regular file. -/
def Cause.isAboutSource : Cause → Bool
  | .target (.sourceNotFound ..) => true
  | .target (.sourceNotFile ..) => true
  | _ => false

/-- A result in `A`, or a failure that is not about a source. -/
def Spares {α : Type} (A : α → Prop) : Except Failure α → Prop
  | .ok a => A a
  | .error e => e.cause.isAboutSource = false

/-- In every environment and on every host. -/
def Action.Spares {α : Type} (A : α → Prop) (x : Action α) : Prop :=
  ∀ env h, GrammarBuild.Spares A (x.runOn env h).1

/-- No condition on results. -/
abbrev Anything {α : Type} : α → Prop := fun _ => True

section Results

variable {α β : Type} {A : α → Prop} {B : β → Prop}

theorem Spares.imp {A' : α → Prop} {r : Except Failure α} (h : Spares A r) (hA : ∀ a, A a → A' a) :
    Spares A' r := by
  cases r with
  | ok a => exact hA a h
  | error e => exact h

theorem Spares.bind {r : Except Failure α} {f : α → Except Failure β} (hr : Spares A r)
    (hf : ∀ a, A a → Spares B (f a)) : Spares B (r >>= f) := by
  cases r with
  | ok a => exact hf a hr
  | error e => exact hr

theorem Spares.within {r : Except Failure α} (a : Activity) (h : Spares A r) :
    Spares A (Failure.within a r) := by
  cases r with
  | ok a => exact h
  | error e => exact h

theorem spares_lift {ε : Type} {cause : ε → Cause} (hcause : ∀ e, (cause e).isAboutSource = false)
    (r : Except ε α) : Spares Anything (Failure.lift cause r) := by
  cases r with
  | ok a => trivial
  | error e => exact hcause e

theorem spares_mapM {f : α → Except Failure β} (hf : ∀ a, Spares Anything (f a)) (l : List α) :
    Spares Anything (l.mapM f) := by
  induction l with
  | nil => trivial
  | cons a l ih =>
    rw [List.mapM_cons]
    exact (hf a).bind fun _ _ => ih.bind fun _ _ => trivial

end Results

namespace Action

variable {α β : Type} {A : α → Prop} {B : β → Prop} {x y : Action α}

/-! ### Putting actions together -/

theorem Spares.imp {A' : α → Prop} (hx : x.Spares A) (hA : ∀ a, A a → A' a) : x.Spares A' :=
  fun env h => (hx env h).imp hA

theorem Spares.any (hx : x.Spares A) : x.Spares Anything := hx.imp fun _ _ => trivial

theorem spares_pure {a : α} (ha : A a) : (pure a : Action α).Spares A := fun _ _ => ha

theorem spares_throw {e : Failure} (he : e.cause.isAboutSource = false) :
    (throw e : Action α).Spares A := fun _ _ => he

theorem spares_fail {cause : Cause} (hcause : cause.isAboutSource = false) :
    (fail cause : Action α).Spares A := fun _ _ => hcause

theorem spares_ofExcept {r : Except Failure α} (hr : GrammarBuild.Spares A r) :
    (ofExcept r).Spares A := fun _ _ => hr

theorem Spares.bind {f : α → Action β} (hx : x.Spares A) (hf : ∀ a, A a → (f a).Spares B) :
    (x >>= f).Spares B := by
  intro env h
  have hr := hx env h
  rw [runOn_bind]
  rcases hrun : x.runOn env h with ⟨r, h'⟩
  rw [hrun] at hr
  cases r with
  | ok a => exact hf a hr env h'
  | error e => exact hr

/-- Where the result does not matter. -/
theorem Spares.seq {f : α → Action β} (hx : x.Spares Anything) (hf : ∀ a, (f a).Spares B) :
    (x >>= f).Spares B := hx.bind fun a _ => hf a

theorem Spares.ite {p : Prop} [Decidable p] (hx : x.Spares A) (hy : y.Spares A) :
    (if p then x else y).Spares A := by
  split
  · exact hx
  · exact hy

theorem Spares.within (a : Activity) (hx : x.Spares A) : (within a x).Spares A := by
  intro env h
  rw [runOn_within]
  exact (hx env h).within a

/-- A failure that is kept is still not about a source. -/
theorem Spares.attempt (hx : x.Spares A) : (attempt x).Spares (GrammarBuild.Spares A) :=
  fun env h => hx env h

theorem spares_mapM {f : α → Action β} (hf : ∀ a, (f a).Spares B) (l : List α) :
    (l.mapM f).Spares fun bs => ∀ b ∈ bs, B b := by
  induction l with
  | nil => exact spares_pure (by simp)
  | cons a l ih =>
    rw [List.mapM_cons]
    refine (hf a).bind fun b hb => ih.bind fun bs hbs => spares_pure ?_
    intro b' hb'
    rcases List.mem_cons.1 hb' with rfl | hb'
    · exact hb
    · exact hbs b' hb'

theorem spares_foldlM {f : β → α → Action β} (hf : ∀ b a, (f b a).Spares Anything) (l : List α)
    (b : β) : (l.foldlM f b).Spares Anything := by
  induction l generalizing b with
  | nil => exact spares_pure trivial
  | cons a l ih =>
    rw [List.foldlM_cons]
    exact (hf b a).seq ih

/-! ### The host -/

theorem spares_get : (get : Action Host).Spares Anything := fun _ _ => trivial

theorem spares_modify (f : Host → Host) : (modify f : Action Unit).Spares Anything :=
  fun _ _ => trivial

theorem spares_log (level : Level) (text : String) : (log level text).Spares Anything :=
  fun _ _ => trivial

theorem spares_tell (e : Event) : (tell e).Spares Anything := fun _ _ => trivial

theorem spares_look (f : FileTree → Location → α) : (look f).Spares Anything := fun _ _ => trivial

/-- A look at the environment. -/
theorem spares_surroundings : (read : Action Environment).Spares Anything := fun _ _ => trivial

theorem spares_which? (name : Path) : (which? name).Spares Anything := fun _ _ => trivial

theorem spares_ofFault (r : Except HostFault α) : (ofFault r).Spares Anything :=
  spares_ofExcept (spares_lift (fun _ => rfl) r)

theorem spares_readText (p : Path) : (readText p).Spares Anything :=
  (spares_look _).seq fun r => spares_ofFault r

theorem spares_changeWith (f : FileTree → Location → Except HostFault Unit × FileTree) :
    (changeWith f).Spares Anything := fun _ _ => spares_lift (fun _ => rfl) _

theorem spares_writeText (p : Path) (text : String) : (writeText p text).Spares Anything :=
  fun env h => spares_changeWith (fun t cwd => t.writeUnless env.refuses cwd p text.toUTF8) env h

theorem spares_ensureDir (p : Path) : (ensureDir p).Spares Anything :=
  (spares_look _).seq fun _ => .ite ((spares_changeWith _).within _) (spares_pure trivial)

theorem spares_writeString (p : Path) (text : String) : (writeString p text).Spares Anything := by
  have hwrite : (within (.writingFile p) (writeText p text)).Spares Anything :=
    (spares_writeText _ _).within _
  unfold writeString
  split
  · exact (spares_ensureDir _).seq fun _ => hwrite
  · exact hwrite

theorem spares_exec (c : Command) (dir : Option Path) : (exec c dir).Spares Anything :=
  fun _ _ => (spares_lift (fun _ => rfl) _).within _

theorem spares_execAndCheck (c : Command) (dir : Option Path) :
    (execAndCheck c dir).Spares Anything := by
  refine (spares_exec c dir).seq fun done => ?_
  split
  · exact spares_fail rfl
  · exact spares_pure trivial

theorem spares_globFiles (base : Path) (patterns : List String) :
    (globFiles base patterns).Spares Anything := by
  have hfiles (t : FileTree) (cwd : Location) :
      GrammarBuild.Spares Anything (Glob.files t cwd base patterns) := by
    have hpaths (pattern : String) : GrammarBuild.Spares Anything
        (Failure.within (.matching pattern) (Failure.lift (fun p => .pattern p.1 p.2)
          (Glob.paths t cwd (base.child pattern).text))) :=
      (spares_lift (fun _ => rfl) _).within _
    exact (GrammarBuild.spares_mapM hpaths patterns).bind fun _ _ => trivial
  intro env h
  exact hfiles h.files env.cwd

end Action

open GrammarBuild.Action

/-! ### The toolchain and its settings -/

theorem spares_orWarn {α : Type} (p : Path) (default : α) (x : Action α) (hx : x.Spares Anything) :
    (orWarn p default x).Spares Anything := by
  refine (spares_look _).seq fun _ => .ite (spares_pure trivial) (hx.attempt.any.seq fun r => ?_)
  split
  · exact spares_pure trivial
  · exact (spares_log _ _).seq fun _ => spares_pure trivial

theorem ToolchainSettings.spares_load (p : Path) : (load p).Spares Anything :=
  ((spares_readText p).within _).seq fun _ =>
    (spares_ofExcept (spares_lift (fun _ => rfl) _)).within _

theorem ToolchainSettings.spares_loadBoth (user project : Path) :
    (loadBoth user project).Spares Anything :=
  (spares_orWarn _ _ _ (spares_load _)).seq fun _ =>
    (spares_orWarn _ _ _ (spares_load _)).seq fun _ => spares_pure trivial

theorem ToolchainSettings.spares_forWorkspace (w : Workspace) : (forWorkspace w).Spares Anything :=
  spares_surroundings.seq fun _ => (spares_loadBoth _ _).seq fun _ => spares_pure trivial

namespace Toolchain

theorem spares_linkerFor? (cc : Path) : (linkerFor? cc).Spares Anything := by
  have hrest (beside : Option Path) (isThere : Bool) :
      (if isThere then pure beside else which? ⟨"link"⟩ : Action (Option Path)).Spares Anything :=
    .ite (spares_pure trivial) (spares_which? _)
  unfold linkerFor?
  dsimp only
  split
  · exact (spares_look _).seq (hrest _)
  · exact (spares_pure trivial).seq (hrest _)

theorem spares_familyOf (cc : Path) : (familyOf cc).Spares Anything := by
  have hversion := (spares_exec (versionCommand cc) none).attempt.any
  unfold familyOf
  dsimp only
  split
  · exact spares_pure trivial
  · -- seen as any action, or the unifier would carry the command out
    generalize Action.attempt (Action.exec (versionCommand cc) none) = version at hversion ⊢
    refine hversion.seq fun r => ?_
    split
    · exact spares_pure trivial
    · exact spares_pure trivial

theorem spares_ofCompiler (cc : Path) : (ofCompiler cc).Spares Anything := by
  have hlinker := spares_linkerFor? cc
  have hfamily := spares_familyOf cc
  unfold ofCompiler
  split
  · generalize linkerFor? cc = linker at hlinker ⊢
    refine hlinker.seq fun link => ?_
    split
    · exact spares_pure trivial
    · exact spares_fail rfl
  · generalize familyOf cc = family at hfamily ⊢
    exact hfamily.seq fun _ => (spares_log _ _).seq fun _ => spares_pure trivial

theorem spares_firstOf (names : List String) : (firstOf names).Spares Anything := by
  induction names with
  | nil => exact spares_pure trivial
  | cons name names ih =>
    refine (spares_which? _).seq fun p => ?_
    split
    · exact spares_pure trivial
    · exact ih

theorem spares_findCompiler? : findCompiler?.Spares Anything := by
  unfold findCompiler?
  dsimp only
  refine spares_surroundings.seq fun env => ?_
  split
  · exact spares_firstOf _
  · refine (spares_which? _).seq fun p => ?_
    split
    · exact spares_pure trivial
    · exact (spares_log _ _).seq fun _ => spares_firstOf _

theorem spares_configured? (cc : Path) : (configured? cc).Spares Anything :=
  (spares_look _).seq fun _ => .ite (spares_pure trivial) (spares_which? cc)

/-- The toolchain of the compiler that is configured, or else of one that is found. -/
theorem spares_ofConfigured (configured : Option Path) : (match configured with
    | some cc => ofCompiler cc
    | none => do
      match ← findCompiler? with
      | some cc => ofCompiler cc
      | none => Action.fail .noCompiler : Action Toolchain).Spares Anything := by
  cases configured with
  | some cc => exact spares_ofCompiler cc
  | none =>
    refine spares_findCompiler?.seq fun p => ?_
    split
    · exact spares_ofCompiler _
    · exact spares_fail rfl

theorem spares_detect (s : ToolchainSettings) : (detect s).Spares Anything := by
  unfold detect
  dsimp only
  split
  · exact (spares_pure trivial).seq spares_ofConfigured
  · refine Action.Spares.seq (spares_configured? _) fun p => ?_
    split
    · exact (spares_log _ _).seq fun _ => (spares_pure trivial).seq spares_ofConfigured
    · exact (spares_log _ _).seq fun _ => (spares_pure trivial).seq spares_ofConfigured

end Toolchain

theorem BuildContext.spares_detect (w : Workspace) (s : ToolchainSettings) :
    (detect w s).Spares Anything := by
  have hof (toolchain : Toolchain) : Spares Anything (BuildContext.of w toolchain s) := by
    unfold BuildContext.of Workspace.profile Manifest.profile
    split
    · trivial
    · rfl
  exact (Toolchain.spares_detect s).seq fun toolchain => spares_ofExcept (hof toolchain)

/-! ### The plan -/

/-- The checks of a target that need no files. -/
theorem spares_validate (t : Target) : Spares Anything (Failure.lift .target t.validate) := by
  unfold Target.validate Target.validateName
  split
  · rfl
  · show Spares Anything (Failure.lift .target (if t.sources.isEmpty then _ else _))
    split
    · rfl
    · trivial

theorem BuildPlan.spares_ofTargets (c : BuildContext) (ts : List Target) :
    Spares Anything (ofTargets c ts) := by
  have hall : Spares Anything (Failure.lift .target (ts.forM Target.validate)) := by
    induction ts with
    | nil => trivial
    | cons t ts ih =>
      have ht := spares_validate t
      rw [List.forM_eq_forM, List.forM_cons]
      cases hv : t.validate with
      | error e =>
        rw [hv] at ht
        exact ht
      | ok _ => exact ih
  exact hall.bind fun _ _ => trivial

theorem BuildPlan.spares_emit (plan : BuildPlan) (p : Path) :
    (plan.emitCompileCommands p).Spares Anything :=
  ((spares_writeString _ _).within _).seq fun _ => spares_log _ _

/-! ### The steps -/

theorem spares_digestFile (p : Path) : (digestFile p).Spares Anything := by
  refine Action.Spares.seq (((spares_look _).seq fun _ => spares_ofFault _).within _) fun node => ?_
  exact ((spares_ofFault _).within _).seq fun _ => spares_pure trivial

theorem CompileFingerprint.spares_addHeaders (hashes : Table Path String) (dir : Path) :
    (addHeaders hashes dir).Spares Anything := by
  refine (spares_look _).seq fun _ => .ite (spares_pure trivial) ?_
  refine (spares_globFiles _ _).seq fun files => ?_
  exact spares_foldlM (fun t h => (spares_digestFile h).seq fun _ => spares_pure trivial) _ _

theorem CompileFingerprint.spares_ofStep (root : Path) (s : CompileStep) (compiler : String) :
    (ofStep root s compiler).Spares Anything := by
  refine Action.Spares.seq (spares_digestFile _) fun sourceHash => ?_
  refine Action.Spares.seq (spares_foldlM (fun t d => spares_addHeaders t _) _ _) fun headers => ?_
  exact spares_pure trivial

theorem LinkFingerprint.spares_ofStep (s : LinkStep) : (ofStep s).Spares Anything := by
  refine Action.Spares.seq (spares_foldlM (fun t o => ?_) _ _) fun _ => spares_pure trivial
  refine (spares_look _).seq fun _ => .ite ?_ (spares_pure trivial)
  exact (spares_digestFile _).seq fun _ => spares_pure trivial

theorem FingerprintCache.spares_needsCompile (c : FingerprintCache) (object : Path)
    (now : CompileFingerprint) : (c.needsCompile object now).Spares Anything :=
  (spares_look _).seq fun _ => .ite (spares_pure trivial) (spares_pure trivial)

theorem FingerprintCache.spares_needsLink (c : FingerprintCache) (target : String) (module : Path)
    (now : LinkFingerprint) : (c.needsLink target module now).Spares Anything :=
  (spares_look _).seq fun _ => .ite (spares_pure trivial) (spares_pure trivial)

theorem FingerprintCache.spares_load (p : Path) : (load p).Spares Anything := by
  unfold load
  refine (spares_look _).seq fun _ => .ite (spares_pure trivial) ?_
  refine (spares_readText p).attempt.any.seq fun r => ?_
  split
  · exact (spares_log _ _).seq fun _ => spares_pure trivial
  · split
    · exact spares_pure trivial
    · exact (spares_log _ _).seq fun _ => spares_pure trivial

theorem FingerprintCache.spares_save (c : FingerprintCache) (p : Path) :
    (c.save p).Spares Anything := (spares_writeString _ _).within _

namespace BuildContext

variable (c : BuildContext) (cache : FingerprintCache)

theorem spares_prepareOutput (output : Path) : (prepareOutput output).Spares Anything := by
  unfold prepareOutput
  split
  · exact spares_ensureDir _
  · exact spares_pure trivial

theorem spares_compile (s : CompileStep) : (c.compile cache s).Spares Anything := by
  have hinspect : (c.inspect cache s).Spares Anything :=
    Action.Spares.seq ((CompileFingerprint.spares_ofStep _ _ _).within _) fun _ =>
      (cache.spares_needsCompile _ _).seq fun _ => spares_pure trivial
  have hrun : (c.runCompile s).Spares Anything :=
    (spares_prepareOutput _).seq fun _ => (spares_log _ _).seq fun _ =>
      ((spares_execAndCheck _ _).within _).seq fun _ => spares_pure trivial
  have hdone (compiled : Compiled) : (do
      modify fun h => { h with progress := h.progress.addCompiled }
      return compiled : Action Compiled).Spares Anything :=
    (spares_modify _).seq fun _ => spares_pure trivial
  refine hinspect.seq fun compiled => ?_
  dsimp only
  split
  · exact (spares_log _ _).seq fun _ => hdone compiled
  · exact hrun.seq fun _ => hdone compiled

/-- The failures that are kept for later are not about a source either. -/
theorem spares_compileAll (steps : List CompileStep) :
    (c.compileAll cache steps).Spares fun outcomes => ∀ o ∈ outcomes, Spares Anything o.2 := by
  have hstep (s : CompileStep) : (do return (s, ← attempt (c.compile cache s)) :
      Action CompileOutcome).Spares fun o => Spares Anything o.2 :=
    (c.spares_compile cache s).attempt.bind fun _ hr => spares_pure hr
  exact Action.spares_mapM hstep steps

theorem isAboutSource_of_firstFailure? {outcomes : List CompileOutcome} {e : Failure}
    (spares : ∀ o ∈ outcomes, Spares Anything o.2) (first : firstFailure? outcomes = some e) :
    e.cause.isAboutSource = false := by
  obtain ⟨⟨s, r⟩, hmem, hr⟩ := List.exists_of_findSome?_eq_some first
  have hspares := spares _ hmem
  cases r with
  | ok _ => cases hr
  | error f =>
    cases hr
    exact hspares

theorem spares_link (rebuilt : Bool) (s : LinkStep) : (c.link cache rebuilt s).Spares Anything := by
  have hdone (stale : Bool) (fingerprint : LinkFingerprint) : (do
      modify fun h => { h with progress := h.progress.addLinked }
      return ({ target := s.target, path := s.output, fresh := !stale },
        cache.recordLink s.target fingerprint) : Action (Artifact × FingerprintCache)).Spares
        Anything :=
    (spares_modify _).seq fun _ => spares_pure trivial
  have hrest (fingerprint : LinkFingerprint) (stale : Bool) : (do
      if stale then do
        prepareOutput s.output
        Action.log .debug ("linking " ++ s.output.text)
        let _ ← Action.within (.linking s.target) (Action.execAndCheck s.command (some c.root))
      else Action.log .debug ("fresh: " ++ s.output.text)
      modify fun h => { h with progress := h.progress.addLinked }
      return ({ target := s.target, path := s.output, fresh := !stale },
        cache.recordLink s.target fingerprint) : Action (Artifact × FingerprintCache)).Spares
        Anything := by
    dsimp only
    split
    · exact (spares_prepareOutput _).seq fun _ => (spares_log _ _).seq fun _ =>
        ((spares_execAndCheck _ _).within _).seq fun _ => hdone stale fingerprint
    · exact (spares_log _ _).seq fun _ => hdone stale fingerprint
  unfold link
  refine Action.Spares.seq (LinkFingerprint.spares_ofStep s) fun fingerprint => ?_
  dsimp only
  split
  · exact (spares_pure trivial).seq (hrest fingerprint)
  · exact (cache.spares_needsLink _ _ _).seq (hrest fingerprint)

theorem spares_linkAll (rebuilt : List String) (steps : List LinkStep) :
    (c.linkAll rebuilt cache steps).Spares Anything := by
  induction steps generalizing cache with
  | nil => exact spares_pure trivial
  | cons s steps ih =>
    unfold linkAll
    refine (c.spares_link cache _ s).attempt.bind fun r hr => ?_
    split
    · exact (cache.spares_save _).seq fun _ => spares_throw hr
    · exact (ih _).seq fun _ => spares_pure trivial

theorem spares_execute (plan : BuildPlan) : (c.execute plan).Spares Anything := by
  unfold execute
  refine Action.Spares.seq (FingerprintCache.spares_load _) fun cache => ?_
  refine (c.spares_compileAll cache _).bind fun outcomes houtcomes => ?_
  dsimp only
  split
  · rename_i e hfirst
    exact (FingerprintCache.spares_save _ _).seq fun _ =>
      spares_throw (isAboutSource_of_firstFailure? houtcomes hfirst)
  · exact (c.spares_linkAll _ _ _).seq fun _ =>
      (FingerprintCache.spares_save _ _).seq fun _ => spares_pure trivial

theorem spares_executeAndReport (verbose : Bool) (plan : BuildPlan) :
    (c.executeAndReport verbose plan).Spares Anything := by
  have hlast (artifacts : List Artifact) (text : String) : (do
      Action.tell (.status text)
      return artifacts : Action (List Artifact)).Spares Anything :=
    (spares_tell _).seq fun _ => spares_pure trivial
  have hrest (compiles links : String) : (do
      modify fun h => { h with progress := {} }
      let result ← Action.attempt (c.execute plan)
      let done := (← get).progress
      Action.log .debug
        (toString done.compiled ++ "/" ++ compiles ++ " compile and " ++ toString done.linked ++ "/"
          ++ links ++ " link step(s) done")
      let artifacts ← Action.ofExcept result
      let fresh := (artifacts.filter Artifact.fresh).length
      Action.tell (.status
        ("    Finished `" ++ c.profileName ++ "` profile: " ++ toString artifacts.length
          ++ " module(s) (" ++ toString fresh ++ " fresh) in 0.00s"))
      return artifacts : Action (List Artifact)).Spares Anything := by
    refine (spares_modify _).seq fun _ => (c.spares_execute plan).attempt.bind fun r hr => ?_
    refine Action.Spares.seq spares_get fun h => (spares_log _ _).seq fun _ => ?_
    exact (spares_ofExcept hr).seq fun artifacts => hlast artifacts _
  unfold executeAndReport
  dsimp only
  split
  · exact (spares_tell _).seq fun _ => (spares_tell _).seq fun _ => hrest _ _
  · exact hrest _ _

end BuildContext

/-! ### The whole build -/

/-- What a build does once its sources were found. -/
def afterSources (w : Workspace) (settings : BuildSettings) (o : BuildOptions)
    (targets : List Target) : Action BuildResult := do
  let c ← BuildContext.detect w (← ToolchainSettings.forWorkspace w)
  Action.log .debug
    ("using " ++ c.toolchain.platform ++ " (" ++ c.toolchain.compiler.text ++ ") for `"
      ++ c.profileName ++ "` profile")
  let plan ← Action.ofExcept (BuildPlan.ofTargets c targets)
  if o.emitCompileCommands || settings.emitCompileCommands then
    plan.emitCompileCommands w.compileCommandsPath
  if o.planOnly then return { artifacts := [], plan := some plan }
  return { artifacts := ← c.executeAndReport o.verbose plan, plan := none }

/-- A build checks, and then does the rest. -/
theorem build_eq_afterSources (manifestPath : Path) (o : BuildOptions) :
    build manifestPath o = (do
      let (w, settings) ← loadWorkspace manifestPath o
      let targets ← Action.ofExcept (w.manifest.select o.targets)
      targets.forM fun t => do
        let _ ← t.resolveSources w.root
      afterSources w settings o targets) := rfl

theorem spares_afterSources (w : Workspace) (settings : BuildSettings) (o : BuildOptions)
    (targets : List Target) : (afterSources w settings o targets).Spares Anything := by
  unfold afterSources
  refine Action.Spares.seq (ToolchainSettings.spares_forWorkspace w) fun s => ?_
  refine Action.Spares.seq (BuildContext.spares_detect w s) fun c => (spares_log _ _).seq fun _ => ?_
  refine Action.Spares.seq (spares_ofExcept (BuildPlan.spares_ofTargets c targets)) fun plan => ?_
  have hrest : (do
      if o.planOnly then return { artifacts := [], plan := some plan }
      return { artifacts := ← c.executeAndReport o.verbose plan, plan := none } :
        Action BuildResult).Spares Anything :=
    .ite (spares_pure trivial)
      ((c.spares_executeAndReport _ _).seq fun _ => spares_pure trivial)
  dsimp only
  split
  · exact (plan.spares_emit _).seq fun _ => hrest
  · exact hrest

end GrammarBuild
