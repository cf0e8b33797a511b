import GrammarBuild.Proofs.OutOfDate
import GrammarBuild.Proofs.Writers
import Mathlib.Data.List.Perm.Subperm

/-
  GrammarBuild/Proofs/Trust.lean
  ==============================
  **What a result that is found fresh is worth** — over all histories of builds, among
  them builds that are cut short and tools that fail after they have spoiled their
  result.

  A result can be trusted if it is what the last process that wrote it left, that process
  exited with 0, and the result depends on the same things now (`Trusted`).  A build takes
  a result for fresh by the entry of the cache alone, and an entry stays when a later
  process fails, or its build does not come to save the cache.  So `fresh_trusted_iff`: a
  result that is found fresh can be trusted exactly if no directory has taken its place
  and the last process that wrote it was recorded, or at least exited with 0 and depended
  on the same things.  `failed_object_found_fresh` is a history in which it cannot.
-/

namespace GrammarBuild

open FileTree

/-- What is at the place of a result can be trusted for a step that depends on `key`. -/
structure Trusted {κ : Type} (n : Option Node) (w : Writer κ) (key : κ) : Prop where
  left : n = w.left
  exited : w.fate ≠ .failed
  current : w.key = key

/-- What is known of a result that is found fresh: some process wrote it, and exactly when
    it can be trusted. -/
structure FreshFrom {κ : Type} (n : Option Node) (w : Writer κ) (key : κ) : Prop where
  left : n = w.left ∨ n = some .dir
  trusted_iff : Trusted n w key ↔
    n = w.left ∧ (w.fate = .saved ∨ w.fate = .lost ∧ w.key = key)

theorem freshFrom_of_saved {κ : Type} {n : Option Node} {w : Writer κ} {key : κ}
    (left : n = w.left ∨ n = some .dir) (saved : w.fate = .saved → w.key = key) :
    FreshFrom n w key := by
  refine ⟨left, ?_⟩
  constructor
  · intro h
    refine ⟨h.left, ?_⟩
    cases hf : w.fate with
    | failed => exact absurd hf h.exited
    | lost => exact .inr ⟨rfl, h.current⟩
    | saved => exact .inl rfl
  · rintro ⟨hn, hf | ⟨hf, hk⟩⟩
    · exact ⟨hn, by rw [hf]; decide, saved hf⟩
    · exact ⟨hn, by rw [hf]; decide, hk⟩

section

variable (env : Environment) (c : BuildContext)

/-- If the object of a step is found fresh at its turn, this is known of it. -/
def ObjectWorth (W : Writers) (turn : CompileTurn) : Prop :=
  ∀ d, turn.result = .ok d → d.fresh = true → ∃ i w, CompileReads env c turn i ∧
    W.objects (turn.step.output.locate env.cwd) = some w ∧
    FreshFrom (turn.files.node? (turn.step.output.locate env.cwd)) w
      (i.key turn.step c.toolchain.identity)

def ModuleWorth (W : Writers) (turn : LinkTurn) : Prop :=
  ∀ a cache, turn.result = .ok (a, cache) → a.fresh = true → ∃ i w, LinkReads env turn i ∧
    W.modules (turn.step.output.locate env.cwd) = some w ∧
    FreshFrom (turn.files.node? (turn.step.output.locate env.cwd)) w (i.key turn.step)

end

variable {S : Set (List UInt8)} {P : Project} {env : Environment} {c : BuildContext}
  {plan : BuildPlan} {cache now : FingerprintCache} {W : Writers} {t u : FileTree}

theorem node?_ne_none_of_pathExists {p : Path} (h : t.pathExists env.cwd p = true) :
    t.node? (p.locate env.cwd) ≠ none := by
  have hn := node?_of_pathExists h
  intro hnone
  rw [hnone] at hn
  cases hn

theorem Accounts.objectWorth (hS : NoCollision S) (acc : Accounts S P env.cwd t cache W)
    (hP : P.Plans c plan) {s : CompileStep} (hs : s ∈ plan.compileSteps) {r : Except Failure Compiled}
    {procs : List Invocation} (h : Compiles env c now s t r u procs)
    (same : now.compile.get? s.output = cache.compile.get? s.output)
    (within : ∀ i, CompileInputs.ofStep t env.cwd c.root s = .ok i →
      (i.key s c.toolchain.identity).Within S) : ObjectWorth env c W ⟨s, t, r, u⟩ := by
  intro d hr hd
  cases h with
  | unreadable => cases hr
  | @fresh i inputs fresh =>
    obtain ⟨hthere, g, hg, ha⟩ := FingerprintCache.objectFresh_iff.1 fresh
    have a := acc.object hP hs
    rw [← same, hg] at a
    obtain ⟨w, hw, hleft, hkey⟩ := a.of_entry (node?_ne_none_of_pathExists hthere)
      (CompileKey.eq_of_agrees hS (within i inputs) ha) trivial
    exact ⟨i, w, inputs, hw, freshFrom_of_saved hleft hkey⟩
  | blocked => cases hr
  | succeeded =>
    injection hr with hr
    subst hr
    cases hd
  | failed => cases hr

theorem Accounts.moduleWorth (hS : NoCollision S) (acc : Accounts S P env.cwd t now W)
    (hP : P.Plans c plan) {s : LinkStep} (hs : s ∈ plan.linkSteps) {rebuilt : Bool}
    {r : Except Failure (Artifact × FingerprintCache)} {procs : List Invocation}
    (h : Links env c now rebuilt s t r u procs)
    (within : ∀ i, LinkInputs.ofStep t env.cwd s = .ok i → (i.key s).Within S) :
    ModuleWorth env W ⟨s, t, r, u⟩ := by
  intro a cache₁ hr ha
  cases h with
  | unreadable => cases hr
  | @fresh i inputs fresh =>
    obtain ⟨-, hthere, g, hg, hagrees⟩ := FingerprintCache.linkFresh_iff.1 fresh
    have a := acc.module hP hs
    rw [hg] at a
    obtain ⟨w, hw, hleft, hkey⟩ := a.of_entry (node?_ne_none_of_pathExists hthere)
      (LinkKey.eq_of_agrees hS (within i inputs) hagrees) rfl
    exact ⟨i, w, inputs, hw, freshFrom_of_saved hleft hkey⟩
  | blocked => cases hr
  | succeeded =>
    injection hr with hr
    injection hr with hr
    subst hr
    cases ha
  | failed => cases hr

/-! ### The phases of a build -/

/-- Along the compile steps the accounts stay right, and each object that is found fresh is
    worth what they say. -/
theorem Accounts.afterCompiles (hS : NoCollision S) (hP : P.Plans c plan) (own : WritesOwn env c plan)
    {ss : List CompileStep} {turns : List CompileTurn} {procs : List Invocation}
    (acc : Accounts S P env.cwd t cache W) (steps : ∀ s ∈ ss, s ∈ plan.compileSteps)
    (distinct : (ss.map fun s => s.output.components).Nodup)
    (all : CompilesAll env c now t ss turns u procs)
    (same : ∀ s ∈ ss, now.compile.get? s.output = cache.compile.get? s.output)
    (within : ∀ turn ∈ turns, ∀ i, CompileReads env c turn i →
      (i.key turn.step c.toolchain.identity).Within S) :
    Accounts S P env.cwd u (BuildContext.recordOutcomes cache (outcomesOf turns))
        (turns.foldl (Writers.afterCompile env c true) W) ∧
      ∀ pre turn post, turns = pre ++ turn :: post →
        ObjectWorth env c (pre.foldl (Writers.afterCompile env c true) W) turn := by
  induction all generalizing cache W with
  | nil t =>
    refine ⟨acc, ?_⟩
    intro pre turn post h
    cases pre with
    | nil => cases h
    | cons _ _ => cases h
  | @cons s ss t t₁ t₂ r turns procs procs' first rest ih =>
    obtain ⟨hs, hdistinct⟩ := List.nodup_cons.1 distinct
    have hfirst := within _ List.mem_cons_self
    have hstep := steps s List.mem_cons_self
    have hsame := same s List.mem_cons_self
    have acc₁ := acc.afterCompile hS hP hstep own first hsame hfirst
    have hrest : ∀ s' ∈ ss, now.compile.get? s'.output =
        (BuildContext.recordOutcomes cache [(s, r)]).compile.get? s'.output := by
      intro s' hs'
      rw [same s' (List.mem_cons_of_mem s hs')]
      cases r with
      | error e => rfl
      | ok d =>
        have hne : s'.output.components ≠ s.output.components := fun he =>
          hs (List.mem_map.2 ⟨s', hs', he⟩)
        simp [BuildContext.recordOutcomes, FingerprintCache.recordCompile, Table.get?_insert,
          Path.compare_eq_eq_iff, hne]
    obtain ⟨hacc, hworth⟩ := ih acc₁ (fun s' hs' => steps s' (List.mem_cons_of_mem s hs')) hdistinct
      hrest (fun turn ht => within turn (List.mem_cons_of_mem _ ht))
    refine ⟨hacc, ?_⟩
    intro pre turn post h
    cases pre with
    | nil =>
      obtain ⟨rfl, -⟩ := List.cons.inj h
      exact acc.objectWorth hS hP hstep first hsame hfirst
    | cons p pre =>
      obtain ⟨rfl, htail⟩ := List.cons.inj h
      exact hworth pre turn post htail

theorem Accounts.afterLostCompiles (hP : P.Plans c plan) (own : WritesOwn env c plan)
    {ss : List CompileStep} {turns : List CompileTurn} {procs : List Invocation}
    (acc : Accounts S P env.cwd t cache W) (steps : ∀ s ∈ ss, s ∈ plan.compileSteps)
    (all : CompilesAll env c now t ss turns u procs) :
    Accounts S P env.cwd u cache (turns.foldl (Writers.afterCompile env c false) W) := by
  induction all generalizing W with
  | nil t => exact acc
  | @cons s ss t t₁ t₂ r turns procs procs' first rest ih =>
    exact ih (acc.afterLostCompile hP (steps s List.mem_cons_self) own first)
      (fun s' hs' => steps s' (List.mem_cons_of_mem s hs'))

/-- Along the link steps the accounts stay right, and each module that is found fresh is
    worth what they say. -/
theorem Accounts.afterLinks (hS : NoCollision S) (hP : P.Plans c plan) (own : WritesOwn env c plan)
    {rebuilt : List String} {ss : List LinkStep} {links : List LinkTurn} {procs : List Invocation}
    (acc : Accounts S P env.cwd t now W) (steps : ∀ s ∈ ss, s ∈ plan.linkSteps)
    (all : LinksAll env c rebuilt now t ss links u procs)
    (within : ∀ turn ∈ links, ∀ i, LinkReads env turn i → (i.key turn.step).Within S) :
    Accounts S P env.cwd u (cacheAfterLinks now links)
        (links.foldl (Writers.afterLink env true) W) ∧
      ∀ pre turn post, links = pre ++ turn :: post →
        ModuleWorth env (pre.foldl (Writers.afterLink env true) W) turn := by
  induction all generalizing W with
  | nil cache t =>
    refine ⟨acc, ?_⟩
    intro pre turn post h
    cases pre with
    | nil => cases h
    | cons _ _ => cases h
  | @failed now s ss t t₁ e procs first =>
    have hstep := steps s List.mem_cons_self
    have hfirst := within _ List.mem_cons_self
    refine ⟨acc.afterLink hS hP hstep own first hfirst, ?_⟩
    intro pre turn post h
    cases pre with
    | nil =>
      obtain ⟨rfl, -⟩ := List.cons.inj h
      exact acc.moduleWorth hS hP hstep first hfirst
    | cons p pre =>
      obtain ⟨-, htail⟩ := List.cons.inj h
      cases pre with
      | nil => cases htail
      | cons _ _ => cases htail
  | @cons now now₁ s ss t t₁ t₂ a links procs procs' first rest ih =>
    have hstep := steps s List.mem_cons_self
    have hfirst := within _ List.mem_cons_self
    obtain ⟨hacc, hworth⟩ := ih (acc.afterLink hS hP hstep own first hfirst)
      (fun s' hs' => steps s' (List.mem_cons_of_mem s hs'))
      (fun turn ht => within turn (List.mem_cons_of_mem _ ht))
    refine ⟨hacc, ?_⟩
    intro pre turn post h
    cases pre with
    | nil =>
      obtain ⟨rfl, -⟩ := List.cons.inj h
      exact acc.moduleWorth hS hP hstep first hfirst
    | cons p pre =>
      obtain ⟨rfl, htail⟩ := List.cons.inj h
      exact hworth pre turn post htail

theorem Accounts.afterLostLinks (hP : P.Plans c plan) (own : WritesOwn env c plan)
    {rebuilt : List String} {ss : List LinkStep} {links : List LinkTurn} {procs : List Invocation}
    (acc : Accounts S P env.cwd t cache W) (steps : ∀ s ∈ ss, s ∈ plan.linkSteps)
    (all : LinksAll env c rebuilt now t ss links u procs) :
    Accounts S P env.cwd u cache (links.foldl (Writers.afterLink env false) W) := by
  induction all generalizing W with
  | nil now t => exact acc
  | @failed now s ss t t₁ e procs first =>
    exact acc.afterLostLink hP (steps s List.mem_cons_self) own first
  | @cons now now₁ s ss t t₁ t₂ a links procs procs' first rest ih =>
    exact ih (acc.afterLostLink hP (steps s List.mem_cons_self) own first)
      (fun s' hs' => steps s' (List.mem_cons_of_mem s hs'))

/-! ### The cache on disk -/

/-- Places other than a certain one stay as they are or become directories. -/
def ChangesAt (place : Location) (t u : FileTree) : Prop :=
  ∀ l, l ≠ place → u.node? l = t.node? l ∨ u.node? l = some .dir

theorem FingerprintCache.Saves.changesAt {cwd : Location} {p : Path} {r : Except Failure Unit}
    (h : FingerprintCache.Saves cwd p cache t r u) : ChangesAt (p.locate cwd) t u := by
  intro l hl
  rcases h.dirs_or_file with dirs | ⟨t₁, bytes, dirs, file⟩
  · exact dirs.node?_or l
  · obtain ⟨rfl, -, -⟩ := writeFile_ok file
    rw [node?_writeAt, if_neg (fun h => hl h.2)]
    exact dirs.node?_or l

/-- A save that is lost leaves the cache as it was, or a directory is in its place, or what
    was written of it spells none. -/
theorem FingerprintCache.Saves.lost_cases {cwd : Location} {p : Path} {e : Failure}
    (h : FingerprintCache.Saves cwd p cache t (.error e) u)
    (lost : FingerprintCache.keptAt u (p.locate cwd) ≠ cache) :
    (u.node? (p.locate cwd) = t.node? (p.locate cwd) ∨ u.node? (p.locate cwd) = some .dir) ∨
      FingerprintCache.keptAt u (p.locate cwd) = {} := by
  cases h with
  | refused dirs e => exact .inl (dirs.node?_or _)
  | part dirs n file e =>
    rw [FingerprintCache.keptAt, node?_of_writeFile file] at lost ⊢
    exact .inr ((cache.ofBytes_part n).resolve_left lost)

theorem same_or_dir_trans {k m n : Option Node} (h : m = k ∨ m = some .dir)
    (h' : n = m ∨ n = some .dir) : n = k ∨ n = some .dir := by
  rcases h' with rfl | rfl
  · exact h
  · exact .inr rfl

/-- Places of no result of the steps stay as they are or become directories. -/
theorem CompilesAll.elsewhere {ss : List CompileStep} {turns : List CompileTurn}
    {procs : List Invocation} (all : CompilesAll env c now t ss turns u procs)
    (own : WritesOwn env c plan) (steps : ∀ s ∈ ss, s ∈ plan.compileSteps) {l : Location}
    (hl : ∀ s ∈ ss, l ≠ s.output.locate env.cwd) :
    u.node? l = t.node? l ∨ u.node? l = some .dir := by
  induction all with
  | nil t => exact .inl rfl
  | @cons s ss t t₁ t₂ r turns procs procs' first later ih =>
    exact same_or_dir_trans
      (first.elsewhere own (steps s List.mem_cons_self) (hl s List.mem_cons_self))
      (ih (fun s' hs' => steps s' (List.mem_cons_of_mem s hs'))
        fun s' hs' => hl s' (List.mem_cons_of_mem s hs'))

theorem LinksAll.elsewhere {rebuilt : List String} {ss : List LinkStep} {links : List LinkTurn}
    {procs : List Invocation} (all : LinksAll env c rebuilt now t ss links u procs)
    (own : WritesOwn env c plan) (steps : ∀ s ∈ ss, s ∈ plan.linkSteps) {l : Location}
    (hl : ∀ s ∈ ss, l ≠ s.output.locate env.cwd) :
    u.node? l = t.node? l ∨ u.node? l = some .dir := by
  induction all with
  | nil cache t => exact .inl rfl
  | @failed now s ss t t₁ e procs first =>
    exact first.elsewhere own (steps s List.mem_cons_self) (hl s List.mem_cons_self)
  | @cons now now₁ s ss t t₁ t₂ a links procs procs' first later ih =>
    exact same_or_dir_trans
      (first.elsewhere own (steps s List.mem_cons_self) (hl s List.mem_cons_self))
      (ih (fun s' hs' => steps s' (List.mem_cons_of_mem s hs'))
        fun s' hs' => hl s' (List.mem_cons_of_mem s hs'))

theorem CompilesAll.cache_node? {ss : List CompileStep} {turns : List CompileTurn}
    {procs : List Invocation} (all : CompilesAll env c now t ss turns u procs)
    (hP : P.Plans c plan) (own : WritesOwn env c plan) (steps : ∀ s ∈ ss, s ∈ plan.compileSteps) :
    u.node? (P.cachePath.locate env.cwd) = t.node? (P.cachePath.locate env.cwd) ∨
      u.node? (P.cachePath.locate env.cwd) = some .dir :=
  all.elsewhere own steps fun s hs => (Project.object_ne_cache hP (steps s hs)).symm

theorem LinksAll.cache_node? {rebuilt : List String} {ss : List LinkStep} {links : List LinkTurn}
    {procs : List Invocation} (all : LinksAll env c rebuilt now t ss links u procs)
    (hP : P.Plans c plan) (own : WritesOwn env c plan) (steps : ∀ s ∈ ss, s ∈ plan.linkSteps) :
    u.node? (P.cachePath.locate env.cwd) = t.node? (P.cachePath.locate env.cwd) ∨
      u.node? (P.cachePath.locate env.cwd) = some .dir :=
  all.elsewhere own steps fun s hs => (Project.module_ne_cache hP (steps s hs)).symm

namespace Accounts

variable {cwd : Location}

/-- The cache may be lost. -/
theorem forgotten (acc : Accounts S P cwd t cache W) : Accounts S P cwd t {} W where
  object hP hs := by
    have a := (acc.object hP hs).forgotten
    simpa using a
  module hP hs := by
    have a := (acc.module hP hs).forgotten
    simpa using a

theorem changed (acc : Accounts S P cwd t cache W) (h : ChangesAt (P.cachePath.locate cwd) t u) :
    Accounts S P cwd u cache W where
  object hP hs := (acc.object hP hs).elsewhere (h _ (Project.object_ne_cache hP hs))
  module hP hs := (acc.module hP hs).elsewhere (h _ (Project.module_ne_cache hP hs))

/-- What a build loads is what is kept, or nothing. -/
theorem loaded {p : Path} (hp : p = P.cachePath)
    (acc : Accounts S P cwd t (FingerprintCache.keptAt t (P.cachePath.locate cwd)) W) :
    Accounts S P cwd t (.ofFile t cwd p) W := by
  subst hp
  rcases FingerprintCache.ofFile_eq_keptAt_or_empty t cwd P.cachePath with h | h
  · rw [h]
    exact acc
  · rw [h]
    exact acc.forgotten

/-- The cache on disk, where its place is as it was or a directory is there. -/
theorem kept {v : FileTree}
    (acc : Accounts S P cwd u (FingerprintCache.keptAt t (P.cachePath.locate cwd)) W)
    (h : ChangesAt (P.cachePath.locate cwd) u v)
    (hcache : v.node? (P.cachePath.locate cwd) = t.node? (P.cachePath.locate cwd) ∨
      v.node? (P.cachePath.locate cwd) = some .dir) :
    Accounts S P cwd v (FingerprintCache.keptAt v (P.cachePath.locate cwd)) W := by
  have acc := acc.changed h
  rcases hcache with hc | hc
  · rw [FingerprintCache.keptAt, hc]
    exact acc
  · rw [FingerprintCache.keptAt, hc]
    exact acc.forgotten

/-- The cache on disk after a save that was lost. -/
theorem lost {v : FileTree}
    (acc : Accounts S P cwd u (FingerprintCache.keptAt t (P.cachePath.locate cwd)) W)
    (h : ChangesAt (P.cachePath.locate cwd) u v)
    (hcache : u.node? (P.cachePath.locate cwd) = t.node? (P.cachePath.locate cwd) ∨
      u.node? (P.cachePath.locate cwd) = some .dir)
    (hlost : (v.node? (P.cachePath.locate cwd) = u.node? (P.cachePath.locate cwd) ∨
        v.node? (P.cachePath.locate cwd) = some .dir) ∨
      FingerprintCache.keptAt v (P.cachePath.locate cwd) = {}) :
    Accounts S P cwd v (FingerprintCache.keptAt v (P.cachePath.locate cwd)) W := by
  rcases hlost with hnode | hempty
  · exact acc.kept h (same_or_dir_trans hcache hnode)
  · rw [hempty]
    exact (acc.changed h).forgotten

end Accounts

/-! ### Histories -/

/-- A build of the project from `cwd`, no two of whose objects are one, with tools that
    write nothing but their results. -/
structure Project.Builds (P : Project) (cwd : Location) (env : Environment) (c : BuildContext)
    (plan : BuildPlan) : Prop where
  plans : P.Plans c plan
  cwd_eq : env.cwd = cwd
  distinct : (plan.compileSteps.map fun s => s.output.components).Nodup
  own : WritesOwn env c plan

/-- An edit leaves the project's results and its cache alone or removes them.  It may do
    anything elsewhere. -/
structure Project.Edits (P : Project) (cwd : Location) (t u : FileTree) : Prop where
  cache : u.node? (P.cachePath.locate cwd) = t.node? (P.cachePath.locate cwd) ∨
    u.node? (P.cachePath.locate cwd) = none
  object : ∀ {c : BuildContext} {plan : BuildPlan} {s : CompileStep}, P.Plans c plan →
    s ∈ plan.compileSteps → u.node? (s.output.locate cwd) = t.node? (s.output.locate cwd) ∨
      u.node? (s.output.locate cwd) = none
  module : ∀ {c : BuildContext} {plan : BuildPlan} {s : LinkStep}, P.Plans c plan →
    s ∈ plan.linkSteps → u.node? (s.output.locate cwd) = t.node? (s.output.locate cwd) ∨
      u.node? (s.output.locate cwd) = none

/-- The course of a build that is cut short before it saves the cache: some of its compile
    steps in any order, and if all of them have come out well, the first of its link
    steps. -/
structure CutShort (env : Environment) (c : BuildContext) (plan : BuildPlan) (t : FileTree)
    (turns : List CompileTurn) (links : List LinkTurn) (u : FileTree) : Prop where
  course : ∃ (ss : List CompileStep) (ls : List LinkStep) (v : FileTree)
      (procs procs' : List Invocation),
    ss.Subperm plan.compileSteps ∧ ls <+: plan.linkSteps ∧
    CompilesAll env c (.ofFile t env.cwd c.fingerprintPath) t ss turns v procs ∧
    (ls = [] ∨ ss.Perm plan.compileSteps ∧
      BuildContext.firstFailure? (outcomesOf turns) = none) ∧
    LinksAll env c (BuildContext.rebuiltTargets (outcomesOf turns))
      (BuildContext.recordOutcomes (.ofFile t env.cwd c.fingerprintPath) (outcomesOf turns)) v ls
      links u procs'

/-- Histories of a project: builds of any of its targets, whether they come out well or
    not, builds that are cut short, and edits.  Of a build, what it recorded is on disk
    afterwards (`recorded`) or not. -/
inductive Ran (S : Set (List UInt8)) (P : Project) (cwd : Location) : FileTree → Writers → Prop where
  | start {t : FileTree} (empty : FingerprintCache.keptAt t (P.cachePath.locate cwd) = {}) :
    Ran S P cwd t .none
  | build {W : Writers} (env : Environment) (c : BuildContext) (plan : BuildPlan) (h : Host)
    (recorded : Bool) (before : Ran S P cwd h.files W) (builds : P.Builds cwd env c plan)
    (within : DigestsWithin env c S (c.planCompileTurns plan env h) (c.planLinkTurns plan env h))
    (kept : recorded = true ↔ FingerprintCache.keptAt ((c.execute plan).runOn env h).2.files
      (P.cachePath.locate cwd) = c.cacheRecorded plan env h) :
    Ran S P cwd ((c.execute plan).runOn env h).2.files
      (W.afterTurns env c recorded (c.planCompileTurns plan env h) (c.planLinkTurns plan env h))
  | cut {W : Writers} {t u : FileTree} {turns : List CompileTurn} {links : List LinkTurn}
    (env : Environment) (c : BuildContext) (plan : BuildPlan) (before : Ran S P cwd t W)
    (builds : P.Builds cwd env c plan) (course : CutShort env c plan t turns links u) :
    Ran S P cwd u (W.afterTurns env c false turns links)
  | edit {W : Writers} {t u : FileTree} (before : Ran S P cwd t W) (edits : P.Edits cwd t u) :
    Ran S P cwd u W

/-- After a build whose cache is on disk the accounts of the cache are right, and each
    result that it found fresh is worth what they say. -/
theorem Accounts.afterBuild (hS : NoCollision S) (builds : P.Builds env.cwd env c plan)
    {turns : List CompileTurn} {links : List LinkTurn} {r : Except Failure (List Artifact)}
    {procs : List Invocation}
    (acc : Accounts S P env.cwd t (FingerprintCache.keptAt t (P.cachePath.locate env.cwd)) W)
    (ex : Executes env c plan t turns links r u procs) (within : DigestsWithin env c S turns links) :
    Accounts S P env.cwd u (cacheAfterTurns (.ofFile t env.cwd c.fingerprintPath) turns links)
        (W.afterTurns env c true turns links) ∧
      (∀ pre turn post, turns = pre ++ turn :: post →
        ObjectWorth env c (W.afterTurns env c true pre []) turn) ∧
      ∀ pre turn post, links = pre ++ turn :: post →
        ModuleWorth env (W.afterTurns env c true turns pre) turn := by
  have hpath := builds.plans.holds.fingerprintPath
  cases ex with
  | @mk t₁ t₂ t₃ r saved procs procs' compiles finishes saves =>
    obtain ⟨acc₁, hobjects⟩ := (acc.loaded hpath).afterCompiles hS builds.plans builds.own
      (fun s hs => hs) builds.distinct compiles (fun s _ => rfl) within.compile
    have hsaves := saves.changesAt
    rw [hpath] at hsaves
    cases finishes with
    | stopped first =>
      refine ⟨acc₁.changed hsaves, hobjects, ?_⟩
      intro pre turn post h
      cases pre with
      | nil => cases h
      | cons _ _ => cases h
    | linked first all =>
      obtain ⟨acc₂, hmodules⟩ := acc₁.afterLinks hS builds.plans builds.own (fun s hs => hs) all
        within.link
      exact ⟨acc₂.changed hsaves, hobjects, hmodules⟩

/-- After a build whose cache is not on disk the accounts of the old cache are right. -/
theorem Accounts.afterLostBuild (builds : P.Builds env.cwd env c plan) {turns : List CompileTurn}
    {links : List LinkTurn} {r : Except Failure (List Artifact)} {procs : List Invocation}
    (acc : Accounts S P env.cwd t (FingerprintCache.keptAt t (P.cachePath.locate env.cwd)) W)
    (ex : Executes env c plan t turns links r u procs)
    (lost : FingerprintCache.keptAt u (P.cachePath.locate env.cwd) ≠
      cacheAfterTurns (.ofFile t env.cwd c.fingerprintPath) turns links) :
    Accounts S P env.cwd u (FingerprintCache.keptAt u (P.cachePath.locate env.cwd))
      (W.afterTurns env c false turns links) := by
  have hpath := builds.plans.holds.fingerprintPath
  cases ex with
  | @mk t₁ t₂ t₃ r saved procs procs' compiles finishes saves =>
    have acc₁ := acc.afterLostCompiles builds.plans builds.own (fun s hs => hs) compiles
    have hnode₁ := compiles.cache_node? builds.plans builds.own (fun s hs => hs)
    have hsaves := saves.changesAt
    rw [hpath] at hsaves saves lost
    cases saved with
    | ok _ => exact absurd saves.keptAt_eq lost
    | error e =>
      have hlost := saves.lost_cases lost
      cases finishes with
      | stopped first => exact acc₁.lost hsaves hnode₁ hlost
      | linked first all =>
        have acc₂ := acc₁.afterLostLinks builds.plans builds.own (fun s hs => hs) all
        have hnode₂ := all.cache_node? builds.plans builds.own (fun s hs => hs)
        exact acc₂.lost hsaves (same_or_dir_trans hnode₁ hnode₂) hlost

theorem Accounts.afterCutShort (builds : P.Builds env.cwd env c plan) {turns : List CompileTurn}
    {links : List LinkTurn}
    (acc : Accounts S P env.cwd t (FingerprintCache.keptAt t (P.cachePath.locate env.cwd)) W)
    (cut : CutShort env c plan t turns links u) :
    Accounts S P env.cwd u (FingerprintCache.keptAt u (P.cachePath.locate env.cwd))
      (W.afterTurns env c false turns links) := by
  obtain ⟨ss, ls, v, procs, procs', hss, hls, compiles, -, all⟩ := cut.course
  have hsteps : ∀ s ∈ ss, s ∈ plan.compileSteps := fun s hs => hss.subset hs
  have hlinks : ∀ s ∈ ls, s ∈ plan.linkSteps := fun s hs => hls.subset hs
  have acc₁ := acc.afterLostCompiles builds.plans builds.own hsteps compiles
  have acc₂ := acc₁.afterLostLinks builds.plans builds.own hlinks all
  have hnode₁ := compiles.cache_node? builds.plans builds.own hsteps
  have hnode₂ := all.cache_node? builds.plans builds.own hlinks
  exact acc₂.kept (fun l _ => .inl rfl) (same_or_dir_trans hnode₁ hnode₂)

theorem Accounts.afterEdit {cwd : Location}
    (acc : Accounts S P cwd t (FingerprintCache.keptAt t (P.cachePath.locate cwd)) W)
    (edits : P.Edits cwd t u) :
    Accounts S P cwd u (FingerprintCache.keptAt u (P.cachePath.locate cwd)) W := by
  have acc₁ : Accounts S P cwd u (FingerprintCache.keptAt t (P.cachePath.locate cwd)) W := by
    constructor
    · intro c plan s hP hs
      rcases edits.object hP hs with h | h
      · exact (acc.object hP hs).elsewhere (.inl h)
      · rw [h]
        exact (acc.object hP hs).removed
    · intro c plan s hP hs
      rcases edits.module hP hs with h | h
      · exact (acc.module hP hs).elsewhere (.inl h)
      · rw [h]
        exact (acc.module hP hs).removed
  rcases edits.cache with h | h
  · rw [FingerprintCache.keptAt, h]
    exact acc₁
  · rw [FingerprintCache.keptAt, h]
    exact acc₁.forgotten

/-- Along every history the accounts of the cache on disk are right. -/
theorem Ran.accounts {cwd : Location} (hS : NoCollision S) (ran : Ran S P cwd t W) :
    Accounts S P cwd t (FingerprintCache.keptAt t (P.cachePath.locate cwd)) W := by
  induction ran with
  | start empty =>
    rw [empty]
    constructor
    · intro c plan s hP hs
      rw [Table.get?_empty]
      exact .blank _
    · intro c plan s hP hs
      rw [Table.get?_empty]
      exact .blank _
  | build env c plan h recorded before builds within kept ih =>
    obtain ⟨procs, ex, -⟩ := c.executes_runOn plan env h
    obtain rfl := builds.cwd_eq
    cases recorded with
    | true =>
      rw [kept.1 rfl]
      exact (ih.afterBuild hS builds ex within).1
    | false =>
      refine ih.afterLostBuild builds ex ?_
      intro heq
      exact absurd (kept.2 heq) (by decide)
  | cut env c plan before builds course ih =>
    obtain rfl := builds.cwd_eq
    exact ih.afterCutShort builds course
  | edit before edits ih => exact ih.afterEdit edits

/-- **When a result that is found fresh can be trusted**, in the next build after any
    history. -/
theorem fresh_trusted_iff {cwd : Location} (hS : NoCollision S) (env : Environment)
    (c : BuildContext) (plan : BuildPlan) (h : Host) (ran : Ran S P cwd h.files W)
    (builds : P.Builds cwd env c plan)
    (within : DigestsWithin env c S (c.planCompileTurns plan env h) (c.planLinkTurns plan env h)) :
    (∀ pre turn post, c.planCompileTurns plan env h = pre ++ turn :: post →
      ObjectWorth env c (W.afterTurns env c true pre []) turn) ∧
    ∀ pre turn post, c.planLinkTurns plan env h = pre ++ turn :: post →
      ModuleWorth env (W.afterTurns env c true (c.planCompileTurns plan env h) pre) turn := by
  obtain ⟨procs, ex, -⟩ := c.executes_runOn plan env h
  obtain rfl := builds.cwd_eq
  exact ((ran.accounts hS).afterBuild hS builds ex within).2

/-! ### An object that was spoiled -/

namespace Sample

def project : Project := ⟨⟨"/p"⟩, ⟨"/p/out"⟩⟩

def targetWith (flag : String) : Target :=
  { name := "a", sources := [⟨"a.c"⟩], compileArgs := [flag] }

def planWith (flag : String) : BuildPlan where
  profile := "debug"
  root := ⟨"/p"⟩
  compileSteps := context.compileSteps (targetWith flag)
  linkSteps := [context.linkStep (targetWith flag)]

theorem plans_planWith (flag : String) : project.Plans context (planWith flag) where
  holds := ⟨rfl, rfl, by decide⟩
  targets := by
    refine ⟨[targetWith flag], ?_⟩
    have hv : (targetWith flag).validate = .ok () := by
      simp [Target.validate, Target.validateName, targetWith]
      rfl
    unfold BuildPlan.ofTargets
    rw [List.forM_eq_forM, List.forM_cons, hv]
    rfl

def objectPlace : Location := ["p", "out", "obj", "a", "a-4d1e93e6.o"]

def modulePlace : Location := ["p", "out", "a.so"]

/-- Told `-bad`, the compiler fails after it has spoiled the object. -/
def spoilingRun : Runner := fun t i =>
  if "-bad" ∈ i.command.args then
    (.ok ⟨some 1, "", ""⟩, t.writeAt objectPlace "broken".toUTF8)
  else if i.command.args.head? = some "-c" then
    (.ok ⟨some 0, "", ""⟩, t.writeAt objectPlace "object".toUTF8)
  else (.ok ⟨some 0, "", ""⟩, t.writeAt modulePlace "module".toUTF8)

def spoilingEnvironment : Environment := { (default : Environment) with run := spoilingRun }

theorem objectPlace_eq (flag : String) :
    (context.objectPath (targetWith flag) ⟨"a.c"⟩).locate [] = objectPlace := by
  have hflag : context.objectPath (targetWith flag) = context.objectPath (targetWith "") := rfl
  rw [hflag]
  decide +kernel

theorem modulePlace_eq (flag : String) :
    (context.modulePath (targetWith flag)).locate [] = modulePlace := by
  have hflag : context.modulePath (targetWith flag) = context.modulePath (targetWith "") := rfl
  rw [hflag]
  decide

theorem cwd_spoiling : spoilingEnvironment.cwd = [] := rfl

theorem run_spoiling : spoilingEnvironment.run = spoilingRun := rfl

theorem spoilingRun_compile (t : FileTree) {i : Invocation} (h : i.command.args.head? = some "-c") :
    ∃ bytes, (spoilingRun t i).2 = t.writeAt objectPlace bytes := by
  unfold spoilingRun
  split
  · exact ⟨_, rfl⟩
  · exact ⟨_, rfl⟩

theorem spoilingRun_link (t : FileTree) {i : Invocation} (hbad : "-bad" ∉ i.command.args)
    (h : i.command.args.head? ≠ some "-c") :
    (spoilingRun t i).2 = t.writeAt modulePlace "module".toUTF8 := by
  unfold spoilingRun
  rw [if_neg hbad, if_neg h]

theorem compileSteps_planWith (flag : String) :
    (planWith flag).compileSteps = [context.compileStep (targetWith flag) ⟨"a.c"⟩] := rfl

theorem linkSteps_planWith (flag : String) :
    (planWith flag).linkSteps = [context.linkStep (targetWith flag)] := rfl

theorem compile_writesOwn (flag : String) (v : FileTree) {l : Location} (hl : l ≠ objectPlace) :
    (spoilingRun v (context.compileCall (context.compileStep (targetWith flag) ⟨"a.c"⟩))).2.node? l =
      v.node? l := by
  obtain ⟨bytes, hrun⟩ := spoilingRun_compile v
    (i := context.compileCall (context.compileStep (targetWith flag) ⟨"a.c"⟩)) rfl
  rw [hrun, node?_writeAt, if_neg (fun h => hl h.2)]

theorem link_writesOwn (flag : String) (v : FileTree) {l : Location} (hl : l ≠ modulePlace) :
    (spoilingRun v (context.linkCall (context.linkStep (targetWith flag)))).2.node? l = v.node? l := by
  have hflag : context.linkStep (targetWith flag) = context.linkStep (targetWith "") := rfl
  have hargs : "-bad" ∉ (context.linkStep (targetWith "")).command.args := by
    decide +kernel
  rw [hflag, spoilingRun_link v hargs (by decide), node?_writeAt, if_neg (fun h => hl h.2)]

theorem builds_spoiling (flag : String) :
    project.Builds [] spoilingEnvironment context (planWith flag) := by
  refine ⟨plans_planWith flag, rfl, ?_, ?_, ?_⟩
  · rw [compileSteps_planWith]
    exact List.nodup_singleton _
  · intro s hs v l hl
    rw [compileSteps_planWith, List.mem_singleton] at hs
    subst hs
    rw [BuildContext.output_compileStep, cwd_spoiling, objectPlace_eq] at hl
    rw [run_spoiling]
    exact compile_writesOwn flag v hl
  · intro s hs v l hl
    rw [linkSteps_planWith, List.mem_singleton] at hs
    subst hs
    rw [BuildContext.output_linkStep, cwd_spoiling, modulePlace_eq] at hl
    rw [run_spoiling]
    exact link_writesOwn flag v hl

/-! A good build, one that fails, and the beginning of another good one.  Each starts from
    the files that the last one left, with the cache that it saved. -/

def first : Host where
  files := directories.set ["p", "a.c"] (.file "int x;".toUTF8 false)

@[irreducible] def second : Host where
  files := ((context.execute (planWith "-good")).runOn spoilingEnvironment first).2.files

@[irreducible] def firstTurns : List CompileTurn :=
  context.planCompileTurns (planWith "-good") spoilingEnvironment first

@[irreducible] def firstLinks : List LinkTurn :=
  context.planLinkTurns (planWith "-good") spoilingEnvironment first

@[irreducible] def firstCache : FingerprintCache :=
  context.cacheRecorded (planWith "-good") spoilingEnvironment first

@[irreducible] def secondTurns : List CompileTurn :=
  context.compileTurns firstCache spoilingEnvironment second (planWith "-bad").compileSteps

@[irreducible] def secondLinks : List LinkTurn :=
  context.linkTurnsWith firstCache (planWith "-bad") spoilingEnvironment second

@[irreducible] def third : Host where
  files := ((context.proceed firstCache (planWith "-bad")).runOn spoilingEnvironment second).2.files

@[irreducible] def secondCache : FingerprintCache := cacheAfterTurns firstCache secondTurns secondLinks

@[irreducible] def thirdTurns : List CompileTurn :=
  context.compileTurns secondCache spoilingEnvironment third (planWith "-good").compileSteps

@[irreducible] def thirdLinks : List LinkTurn :=
  context.linkTurnsWith secondCache (planWith "-good") spoilingEnvironment third

/-- What is digested in these builds. -/
@[irreducible] def digests : List (List UInt8) :=
  (digestedBy spoilingEnvironment context firstTurns firstLinks ++
    (digestedBy spoilingEnvironment context secondTurns secondLinks ++
      digestedBy spoilingEnvironment context thirdTurns thirdLinks)).dedup

/-- The last writers after the two builds. -/
@[irreducible] def writers : Writers :=
  (Writers.none.afterTurns spoilingEnvironment context true firstTurns firstLinks).afterTurns
    spoilingEnvironment context true secondTurns secondLinks

theorem files_second : second.files =
    ((context.execute (planWith "-good")).runOn spoilingEnvironment first).2.files :=
  Host.files_of_eq <| by
    unfold second
    rfl

theorem files_third : third.files =
    ((context.proceed firstCache (planWith "-bad")).runOn spoilingEnvironment second).2.files :=
  Host.files_of_eq <| by
    unfold third
    rfl

/-- Both builds save their cache, the third finds the object fresh, and it was a failed
    process that wrote it last. -/
theorem course_of_builds :
    failedToSave ((context.execute (planWith "-good")).runOn spoilingEnvironment first).1 = false ∧
    failedToSave ((context.proceed firstCache (planWith "-bad")).runOn spoilingEnvironment second).1
      = false ∧
    (thirdTurns.map fun turn => turn.result.toOption.map Compiled.fresh) = [some true] ∧
    (digests.map Sha256.hexDigest).Nodup ∧
    (writers.objects objectPlace).map Writer.fate = some .failed ∧
    (∀ turn ∈ firstTurns ++ (secondTurns ++ thirdTurns), Digest.ZeroFree turn.step.command.argv) ∧
    (∀ turn ∈ firstLinks ++ (secondLinks ++ thirdLinks), Digest.ZeroFree turn.step.command.argv) := by
  unfold Digest.ZeroFree
  decide +kernel

theorem load_second :
    (FingerprintCache.load context.fingerprintPath).runOn spoilingEnvironment second =
      (.ok firstCache, second) := by
  rw [firstCache]
  apply context.runOn_load_of_saved (planWith "-good") spoilingEnvironment first
  · rw [cacheSaved_iff]
    exact course_of_builds.1
  · exact files_second

theorem execute_second :
    (context.execute (planWith "-bad")).runOn spoilingEnvironment second =
      (context.proceed firstCache (planWith "-bad")).runOn spoilingEnvironment second :=
  context.runOn_execute_of_load (planWith "-bad") load_second

theorem saved_second :
    CacheSaved ((context.execute (planWith "-bad")).runOn spoilingEnvironment second).1 := by
  rw [execute_second, cacheSaved_iff]
  exact course_of_builds.2.1

theorem turns_second :
    context.planCompileTurns (planWith "-bad") spoilingEnvironment second = secondTurns ∧
      context.planLinkTurns (planWith "-bad") spoilingEnvironment second = secondLinks := by
  rw [secondTurns, secondLinks]
  exact ⟨context.planCompileTurns_of_load _ load_second, context.planLinkTurns_of_load _ load_second⟩

theorem cacheRecorded_second :
    context.cacheRecorded (planWith "-bad") spoilingEnvironment second = secondCache := by
  rw [BuildContext.cacheRecorded, turns_second.1, turns_second.2,
    context.cacheBefore_of_load load_second, secondCache]

theorem load_third :
    (FingerprintCache.load context.fingerprintPath).runOn spoilingEnvironment third =
      (.ok secondCache, third) := by
  rw [← cacheRecorded_second]
  apply context.runOn_load_of_saved (planWith "-bad") spoilingEnvironment second saved_second
  rw [execute_second, files_third]

theorem turns_third :
    context.planCompileTurns (planWith "-good") spoilingEnvironment third = thirdTurns ∧
      context.planLinkTurns (planWith "-good") spoilingEnvironment third = thirdLinks := by
  rw [thirdTurns, thirdLinks]
  exact ⟨context.planCompileTurns_of_load _ load_third, context.planLinkTurns_of_load _ load_third⟩

def Digested : Set (List UInt8) := { b | b ∈ digests }

theorem noCollision_digested : NoCollision Digested := by
  obtain ⟨-, -, -, hnodup, -⟩ := course_of_builds
  intro a ha b hb
  exact List.inj_on_of_nodup_map hnodup ha hb

theorem within_first : DigestsWithin spoilingEnvironment context Digested firstTurns firstLinks := by
  obtain ⟨-, -, -, -, -, hcompile, hlink⟩ := course_of_builds
  rw [Digested, digests]
  exact .of_subset (List.subset_append_left _ _) (List.subset_append_left _ _)
    (List.subset_append_left _ _) hcompile hlink

theorem within_second :
    DigestsWithin spoilingEnvironment context Digested secondTurns secondLinks := by
  obtain ⟨-, -, -, -, -, hcompile, hlink⟩ := course_of_builds
  rw [Digested, digests]
  exact .of_subset (List.subset_append_of_subset_right _ (List.subset_append_left _ _))
    (List.subset_append_of_subset_right _ (List.subset_append_left _ _))
    (List.subset_append_of_subset_right _ (List.subset_append_left _ _)) hcompile hlink

theorem within_third : DigestsWithin spoilingEnvironment context Digested thirdTurns thirdLinks := by
  obtain ⟨-, -, -, -, -, hcompile, hlink⟩ := course_of_builds
  rw [Digested, digests]
  exact .of_subset (List.subset_append_of_subset_right _ (List.subset_append_right _ _))
    (List.subset_append_of_subset_right _ (List.subset_append_right _ _))
    (List.subset_append_of_subset_right _ (List.subset_append_right _ _)) hcompile hlink

theorem ran_second : Ran Digested project [] second.files
    (Writers.none.afterTurns spoilingEnvironment context true firstTurns firstLinks) := by
  have hsaved : CacheSaved ((context.execute (planWith "-good")).runOn spoilingEnvironment first).1 := by
    rw [cacheSaved_iff]
    exact course_of_builds.1
  have hwithin := within_first
  have start : Ran Digested project [] first.files .none := .start (by decide)
  rw [firstTurns, firstLinks] at hwithin ⊢
  rw [files_second]
  exact Ran.build spoilingEnvironment context (planWith "-good") first true start
    (builds_spoiling "-good") hwithin (iff_of_true rfl (context.keptAt_of_saved _ _ _ hsaved))

theorem ran_third : Ran Digested project [] third.files writers := by
  have hwithin := within_second
  rw [← turns_second.1, ← turns_second.2] at hwithin
  have bad := Ran.build spoilingEnvironment context (planWith "-bad") second true ran_second
    (builds_spoiling "-bad") hwithin
    (iff_of_true rfl (context.keptAt_of_saved _ _ _ saved_second))
  have hfiles : ((context.execute (planWith "-bad")).runOn spoilingEnvironment second).2.files =
      third.files := by rw [execute_second, files_third]
  rw [hfiles, turns_second.1, turns_second.2] at bad
  rw [writers]
  exact bad

/-- The third build finds the object fresh that the failed compiler has spoiled. -/
theorem third_finds_fresh :
    ∃ turn d w, context.planCompileTurns (planWith "-good") spoilingEnvironment third = [turn] ∧
      turn.result = .ok d ∧ d.fresh = true ∧
      writers.objects (turn.step.output.locate []) = some w ∧ w.fate = .failed := by
  obtain ⟨-, -, hfresh, -, hfate, -, -⟩ := course_of_builds
  obtain ⟨turn, hturns, hstep⟩ : ∃ turn, thirdTurns = [turn] ∧
      turn.step = context.compileStep (targetWith "-good") ⟨"a.c"⟩ := by
    rw [thirdTurns, compileSteps_planWith]
    exact BuildContext.compileTurns_singleton ..
  rw [hturns, List.map_singleton, List.singleton_inj] at hfresh
  obtain ⟨w, hw, hfailed⟩ := Option.map_eq_some_iff.1 hfate
  have hplace : turn.step.output.locate [] = objectPlace := by
    rw [hstep, BuildContext.output_compileStep, objectPlace_eq]
  cases hr : turn.result with
  | error e => simp [hr, Except.toOption] at hfresh
  | ok d =>
    refine ⟨turn, d, w, ?_, hr, ?_, ?_, hfailed⟩
    · rw [turns_third.1, hturns]
    · simpa [hr, Except.toOption] using hfresh
    · rw [hplace]
      exact hw

end Sample

/-- A good build, a failing one with another flag, and the first build once more: it finds
    the object fresh, which the failing compiler was the last to write. -/
theorem failed_object_found_fresh :
    ∃ (S : Set (List UInt8)) (W : Writers) (h : Host) (turn : CompileTurn) (d : Compiled)
      (w : Writer CompileKey), NoCollision S ∧ Ran S Sample.project [] h.files W ∧
      Sample.project.Builds [] Sample.spoilingEnvironment Sample.context (Sample.planWith "-good") ∧
      Sample.context.planCompileTurns (Sample.planWith "-good") Sample.spoilingEnvironment h = [turn] ∧
      turn.result = .ok d ∧ d.fresh = true ∧
      W.objects (turn.step.output.locate []) = some w ∧ w.fate = .failed := by
  obtain ⟨turn, d, w, hturns, hd, hfresh, hw, hfailed⟩ := Sample.third_finds_fresh
  exact ⟨_, _, _, turn, d, w, Sample.noCollision_digested, Sample.ran_third,
    Sample.builds_spoiling "-good", hturns, hd, hfresh, hw, hfailed⟩

/-- What the theorem says of that object: it is what a failed process left. -/
theorem spoiled_object_worth :
    ∃ (turn : CompileTurn) (w : Writer CompileKey) (i : CompileInputs),
      Sample.context.planCompileTurns (Sample.planWith "-good") Sample.spoilingEnvironment
        Sample.third = [turn] ∧
      Sample.writers.objects (turn.step.output.locate []) = some w ∧
      FreshFrom (turn.files.node? (turn.step.output.locate [])) w
        (i.key turn.step Sample.context.toolchain.identity) ∧
      ¬ Trusted (turn.files.node? (turn.step.output.locate [])) w
        (i.key turn.step Sample.context.toolchain.identity) := by
  have hwithin := Sample.within_third
  rw [← Sample.turns_third.1, ← Sample.turns_third.2] at hwithin
  have hworth := (fresh_trusted_iff Sample.noCollision_digested Sample.spoilingEnvironment
    Sample.context (Sample.planWith "-good") Sample.third Sample.ran_third
    (Sample.builds_spoiling "-good") hwithin).1
  obtain ⟨turn, d, w, hturns, hd, hfresh, hw, hfailed⟩ := Sample.third_finds_fresh
  rw [hturns] at hworth
  obtain ⟨i, w', -, hw', hfrom⟩ := hworth [] turn [] rfl d hd hfresh
  rw [Sample.cwd_spoiling, Writers.afterTurns_nil] at hw'
  rw [Sample.cwd_spoiling] at hfrom
  obtain rfl := Option.some.inj (hw.symm.trans hw')
  refine ⟨turn, w, i, hturns, hw, hfrom, ?_⟩
  intro trusted
  exact trusted.exited hfailed

end GrammarBuild
