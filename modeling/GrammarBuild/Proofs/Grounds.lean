import GrammarBuild.Proofs.HeaderTrees
import GrammarBuild.Proofs.TargetDir
import GrammarBuild.Proofs.Tools

/-
  GrammarBuild/Proofs/Grounds.lean
  ================================
  **Builds on a ground** — what a build comes to if the tools are functions, said without
  its history: by what the steps read on the ground, that is, where there are no results
  (`Executes.comes`).

  It takes that no result is where another one needs a directory.  A result that lies
  strictly below the output directory does so only if it is above the other one, since
  the way to the output directory is there already (`ClearSite.apart`).
-/

namespace GrammarBuild

open FileTree

/-! ### Where results are made -/

theorem Component.foldl_normal (l : Location) (names : List String) :
    (names.map Component.normal).foldl Component.from l = l ++ names := by
  induction names generalizing l with
  | nil => exact (List.append_nil l).symm
  | cons name names ih =>
    rw [List.map_cons, List.foldl_cons, ih]
    exact List.append_assoc l [name] names

namespace Project.Makes

variable {P : Project} {K : BuildContext → BuildPlan → Prop} {o o' : Path} {cwd : Location}

/-- A result is some names down from the output directory. -/
theorem components_eq (made : P.Makes K o) (plans : ∀ c plan, K c plan → P.Plans c plan) :
    ∃ names, names ≠ [] ∧ o.components = P.outputDir.components ++ names.map .normal := by
  cases made with
  | @object c plan s known mem =>
    obtain ⟨g, named, source, rfl⟩ := (plans c plan known).compileStep mem
    rw [BuildContext.output_compileStep, ← (plans c plan known).holds.outputDir]
    exact ⟨_, by simp [BuildContext.objectNames], BuildContext.components_objectPath_names named source⟩
  | @module c plan s known mem =>
    obtain ⟨g, named, rfl⟩ := (plans c plan known).linkStep mem
    rw [BuildContext.output_linkStep, ← (plans c plan known).holds.outputDir]
    exact ⟨_, by simp [BuildContext.moduleNames], c.components_modulePath named⟩
  | cache =>
    have hplain : PlainName ".fingerprints.json" := ⟨by decide, by decide, by decide, by decide⟩
    exact ⟨[".fingerprints.json"], by simp, Path.components_child hplain P.outputDir⟩

theorem below (made : P.Makes K o) (plans : ∀ c plan, K c plan → P.Plans c plan) :
    Location.Below (o.locate cwd) (P.outputDir.locate cwd) := by
  obtain ⟨names, hne, hcomponents⟩ := made.components_eq plans
  refine ⟨names, hne, ?_⟩
  rw [Path.locate, hcomponents, List.foldl_append, Component.foldl_normal, Path.locate]

/-- A result that is where another one needs a directory is above it, or the way to the
    output directory leads through it. -/
theorem isAbove_of_mem (made : P.Makes K o) (made' : P.Makes K o')
    (plans : ∀ c plan, K c plan → P.Plans c plan) (h : o.locate cwd ∈ o'.dirWay cwd) :
    o.locate cwd ∈ P.outputDir.way cwd ∨ o.IsAbove o' := by
  obtain ⟨names, hne, hcomponents⟩ := made.components_eq plans
  obtain ⟨names', hne', hcomponents'⟩ := made'.components_eq plans
  have hdirs : o'.components.dropLast =
      P.outputDir.components ++ names'.dropLast.map Component.normal := by
    rw [hcomponents', List.dropLast_append_of_ne_nil (by simpa using hne'), List.map_dropLast]
  rw [Path.dirWay, hdirs] at h
  refine (Component.mem_wayFrom_names h).imp_right ?_
  rintro ⟨x, hx, heq⟩
  rw [Path.locate, hcomponents, List.foldl_append, Component.foldl_normal] at heq
  obtain rfl := List.append_cancel_left heq
  rw [Path.isAbove_iff hcomponents hcomponents']
  refine ⟨hx.trans (List.dropLast_prefix names'), ?_⟩
  rintro rfl
  have hlen := hx.length_le
  have hpos := List.length_pos_of_ne_nil hne
  rw [List.length_dropLast] at hlen
  omega

end Project.Makes

/-! ### Grounds -/

/-- A plan that is carried out by tools where there are no results. -/
structure Project.Site (P : Project) (K : BuildContext → BuildPlan → Prop) (T : Tools)
    (env : Environment) (c : BuildContext) (plan : BuildPlan) (z : FileTree) (base : Location)
    (rest : List String) : Prop where
  plans : ∀ c plan, K c plan → P.Plans c plan
  known : K c plan
  builds : P.Builds env.cwd env c plan
  unique : (plan.linkSteps.map LinkStep.target).Nodup
  govern : T.Govern env c plan
  closed : z.Closed
  here : z.isDirAt env.cwd = true
  straight : z.Straight env.cwd P.outputDir base rest
  bare : ∀ l : Location, l.Below (P.outputDir.locate env.cwd) → z.node? l = none
  /-- No result is a source or a header, and none is found by way of a directory that is
      made for results. -/
  reads : ∀ s ∈ plan.compileSteps, ∀ u, P.Filled env.cwd K z u →
    CompileInputs.ofStep u env.cwd c.root s = CompileInputs.ofStep z env.cwd c.root s

/-- No result is a proper ancestor of another. -/
structure Project.ClearSite (P : Project) (K : BuildContext → BuildPlan → Prop) (T : Tools)
    (env : Environment) (c : BuildContext) (plan : BuildPlan) (z : FileTree) (base : Location)
    (rest : List String) : Prop extends P.Site K T env c plan z base rest where
  free : ∀ o o', P.Makes K o → P.Makes K o' → ¬ o.IsAbove o'

namespace Project.ClearSite

variable {P : Project} {K : BuildContext → BuildPlan → Prop} {T : Tools} {env : Environment}
  {c : BuildContext} {plan : BuildPlan} {z : FileTree} {base : Location} {rest : List String}

theorem apart (site : P.ClearSite K T env c plan z base rest) : P.Apart env.cwd K := by
  intro o o' made made' hmem
  rcases made.isAbove_of_mem made' site.plans hmem with hway | habove
  · obtain ⟨names, hne, hbelow⟩ : Location.Below (o.locate env.cwd) (P.outputDir.locate env.cwd) :=
      made.below site.plans
    rcases site.straight.mem_way site.here hway with hdir | ⟨x, hx, heq⟩
    · rw [FileTree.isDirAt, site.bare _ ⟨names, hne, hbelow⟩] at hdir
      cases hdir
    · -- the way ends in the output directory, and a result is below it
      rw [site.straight.locate_eq, heq, List.append_assoc] at hbelow
      have hlen := hx.length_le
      rw [List.append_cancel_left hbelow, List.length_append] at hlen
      have hpos := List.length_pos_of_ne_nil hne
      omega
  · exact site.free o o' made made' habove

theorem ground (site : P.ClearSite K T env c plan z base rest) : P.Ground env.cwd K z :=
  ⟨site.apart, fun _ made => site.bare _ (made.below site.plans)⟩

theorem objectWay (site : P.ClearSite K T env c plan z base rest) {s : CompileStep}
    (hs : s ∈ plan.compileSteps) :
    (∃ n, z.Straight env.cwd s.output base (rest ++ ["obj", s.target] ++ [n])) ∧
      z.node? (base ++ (rest ++ ["obj", s.target])) = none := by
  have hdir := site.builds.plans.holds.outputDir
  obtain ⟨g, named, source, rfl⟩ := site.builds.plans.compileStep hs
  have straight := site.straight
  rw [← hdir] at straight
  refine ⟨⟨_, straight.objectPath named source⟩, ?_⟩
  apply site.bare
  rw [← hdir, straight.locate_eq]
  exact ⟨["obj", g.name], by simp, by simp [BuildContext.compileStep]⟩

theorem moduleWay (site : P.ClearSite K T env c plan z base rest) {s : LinkStep}
    (hs : s ∈ plan.linkSteps) : ∃ names n, z.Straight env.cwd s.output base (names ++ [n]) := by
  obtain ⟨g, named, rfl⟩ := site.builds.plans.linkStep hs
  have straight := site.straight
  rw [← site.builds.plans.holds.outputDir] at straight
  exact ⟨_, _, straight.modulePath named⟩

end Project.ClearSite

/-! ### The compile steps on a ground -/

section

variable {S : Set (List UInt8)} {P : Project} {K : BuildContext → BuildPlan → Prop} {T : Tools}
  {env : Environment} {c : BuildContext} {plan : BuildPlan} {z t u : FileTree} {base : Location}
  {rest : List String} {now : FingerprintCache} {W : Writers}

/-- All objects of a plan are there as the tools make them. -/
structure Project.Stocked (P : Project) (K : BuildContext → BuildPlan → Prop) (T : Tools)
    (env : Environment) (c : BuildContext) (plan : BuildPlan) (z : FileTree) (base : Location)
    (rest : List String) (u : FileTree) : Prop where
  filled : P.Filled env.cwd K z u
  objects : ∀ s ∈ plan.compileSteps, Stands T env c z base (rest ++ ["obj", s.target]) s u

/-- At the place of a result that is left alone or becomes a directory there is what there
    was. -/
theorem Project.Filled.same_place {cwd : Location} {o : Path} (f : P.Filled cwd K z u)
    (g : P.Ground cwd K z) (made : P.Makes K o)
    (h : u.node? (o.locate cwd) = t.node? (o.locate cwd) ∨ u.node? (o.locate cwd) = some .dir) :
    u.node? (o.locate cwd) = t.node? (o.locate cwd) := by
  rcases h with h | h
  · exact h
  · have hnot := f.notDir g made
    rw [(isDirAt_node? u _).2 h] at hnot
    cases hnot

theorem Project.Filled.withMade {cwd : Location} (f : P.Filled cwd K z u) :
    WithMade (P.Makes K) cwd z u :=
  fun l => (f l).imp_right (.imp_left And.right)

theorem CompilesAll.filled {ss : List CompileStep} {turns : List CompileTurn}
    {procs : List Invocation} (all : CompilesAll env c now t ss turns u procs)
    (f : P.Filled env.cwd K z t) (g : P.Ground env.cwd K z) (known : K c plan)
    (steps : ∀ s ∈ ss, s ∈ plan.compileSteps) (govern : T.Govern env c plan)
    (own : WritesOwn env c plan) : P.Filled env.cwd K z u ∧ Keeps t u := by
  induction all with
  | nil t => exact ⟨f, fun _ h => h, fun _ h => h⟩
  | @cons s ss t t₁ t₂ r turns procs procs' first later ih =>
    obtain ⟨hf, hk⟩ := first.filled f g known (steps s List.mem_cons_self) govern own
    obtain ⟨hf', hk'⟩ := ih hf fun s' hs' => steps s' (List.mem_cons_of_mem s hs')
    exact ⟨hf', hk.trans hk'⟩

theorem CompilesAll.honest {ss : List CompileStep} {turns : List CompileTurn}
    {procs : List Invocation} (all : CompilesAll env c now t ss turns u procs)
    (f : P.Filled env.cwd K z t) (honest : T.Honest W) (g : P.Ground env.cwd K z) (known : K c plan)
    (steps : ∀ s ∈ ss, s ∈ plan.compileSteps) (govern : T.Govern env c plan)
    (own : WritesOwn env c plan) : T.Honest (turns.foldl (Writers.afterCompile env c true) W) := by
  induction all generalizing W with
  | nil t => exact honest
  | @cons s ss t t₁ t₂ r turns procs procs' first later ih =>
    have hs := steps s List.mem_cons_self
    exact ih (first.filled f g known hs govern own).1 (honest.afterCompile first f g known hs govern)
      fun s' hs' => steps s' (List.mem_cons_of_mem s hs')

/-- On a ground every compile step comes to what it can, and leaves what the tools make. -/
theorem CompilesAll.outcome (site : P.ClearSite K T env c plan z base rest) {ss : List CompileStep}
    {turns : List CompileTurn} {procs : List Invocation}
    (all : CompilesAll env c now t ss turns u procs) (f : P.Filled env.cwd K z t)
    (honest : T.Honest W) (steps : ∀ s ∈ ss, s ∈ plan.compileSteps)
    (distinct : (ss.map fun s => s.output.components).Nodup)
    (worth : ∀ pre turn post, turns = pre ++ turn :: post →
      ObjectWorth env c (pre.foldl (Writers.afterCompile env c true) W) turn) :
    ∀ turn ∈ turns, ((∃ d, turn.result = .ok d) ↔ CanCompile T env c z turn.step) ∧
      ((∃ d, turn.result = .ok d) →
        Stands T env c z base (rest ++ ["obj", turn.step.target]) turn.step u) := by
  induction all generalizing W with
  | nil t =>
    intro turn ht
    cases ht
  | @cons s ss t t₁ t₂ r turns procs procs' first later ih =>
    have hs := steps s List.mem_cons_self
    have hrest : ∀ s' ∈ ss, s' ∈ plan.compileSteps := fun s' hs' => steps s' (List.mem_cons_of_mem s hs')
    obtain ⟨hnew, hdistinct⟩ := List.nodup_cons.1 distinct
    obtain ⟨⟨n, straight⟩, bare⟩ := site.objectWay hs
    have hreads := site.reads s hs t f
    have hworth := worth [] _ turns rfl
    obtain ⟨hf, -⟩ := first.filled f site.ground site.known hs site.govern site.builds.own
    intro turn ht
    rcases List.mem_cons.1 ht with rfl | ht
    · refine ⟨first.ok_iff f site.ground site.closed site.known hs site.govern straight hreads honest
        hworth, ?_⟩
      rintro ⟨d, hd⟩
      have hstood := first.stands f site.ground site.closed site.known hs site.govern
        site.builds.own straight bare (by simp) hreads honest hworth hd
      obtain ⟨hf₂, hk⟩ := later.filled hf site.ground site.known hrest site.govern site.builds.own
      apply hstood.kept hk
      apply hf₂.same_place site.ground (.object site.known hs)
      apply later.elsewhere site.builds.own hrest
      intro s' hs' hl
      have hout := Project.object_eq_of_location site.builds.plans site.builds.plans hs (hrest s' hs') hl
      exact hnew (List.mem_map.2 ⟨s', hs', (congrArg Path.components hout).symm⟩)
    · exact ih hf (honest.afterCompile first f site.ground site.known hs site.govern) hrest hdistinct
        (fun pre turn post h => worth (_ :: pre) turn post (congrArg (_ :: ·) h)) turn ht

/-! ### The link steps on a ground -/

/-- Where all objects are as the tools make them, a link step reads the same. -/
theorem Project.Stocked.ofStep_eq (site : P.ClearSite K T env c plan z base rest)
    (ht : P.Stocked K T env c plan z base rest t) (hu : P.Stocked K T env c plan z base rest u)
    {s : LinkStep} (hs : s ∈ plan.linkSteps) :
    LinkInputs.ofStep t env.cwd s = LinkInputs.ofStep u env.cwd s := by
  apply LinkInputs.ofStep_congr
  intro o ho i
  obtain ⟨s', hs', rfl⟩ := site.builds.plans.exists_compileStep hs ho
  obtain ⟨⟨n, straight⟩, -⟩ := site.objectWay hs'
  have made : P.Makes K s'.output := .object site.known hs'
  have stood := ht.objects s' hs'
  have stood' := hu.objects s' hs'
  obtain ⟨j, bytes, x, hj, hmake, hx⟩ := stood.object
  obtain ⟨j', bytes', x', hj', hmake', hx'⟩ := stood'.object
  obtain rfl := Except.ok.inj (hj.symm.trans hj')
  obtain rfl := Option.some.inj (hmake.symm.trans hmake')
  have hexists : t.pathExists env.cwd s'.output = u.pathExists env.cwd s'.output := by
    rw [Bool.eq_iff_iff,
      stood.reached.pathExists_iff (straight.kept (ht.filled.onWay site.ground made)) hx,
      stood'.reached.pathExists_iff (straight.kept (hu.filled.onWay site.ground made)) hx']
  unfold LinkInputs.addObject
  rw [← hexists]
  cases hfound : t.pathExists env.cwd s'.output with
  | false => rfl
  | true => rw [readToDigest_of_file hfound hx, readToDigest_of_file (hexists ▸ hfound) hx']

theorem LinksAll.filled {rebuilt : List String} {ss : List LinkStep} {links : List LinkTurn}
    {procs : List Invocation} (all : LinksAll env c rebuilt now t ss links u procs)
    (f : P.Filled env.cwd K z t) (g : P.Ground env.cwd K z) (known : K c plan)
    (steps : ∀ s ∈ ss, s ∈ plan.linkSteps) (govern : T.Govern env c plan)
    (own : WritesOwn env c plan) : P.Filled env.cwd K z u ∧ Keeps t u := by
  induction all with
  | nil cache t => exact ⟨f, fun _ h => h, fun _ h => h⟩
  | @failed now s ss t t₁ e procs first =>
    exact first.filled f g known (steps s List.mem_cons_self) govern own
  | @cons now now₁ s ss t t₁ t₂ a links procs procs' first later ih =>
    obtain ⟨hf, hk⟩ := first.filled f g known (steps s List.mem_cons_self) govern own
    obtain ⟨hf', hk'⟩ := ih hf fun s' hs' => steps s' (List.mem_cons_of_mem s hs')
    exact ⟨hf', hk.trans hk'⟩

theorem LinksAll.honest {rebuilt : List String} {ss : List LinkStep} {links : List LinkTurn}
    {procs : List Invocation} (all : LinksAll env c rebuilt now t ss links u procs)
    (f : P.Filled env.cwd K z t) (honest : T.Honest W) (g : P.Ground env.cwd K z) (known : K c plan)
    (steps : ∀ s ∈ ss, s ∈ plan.linkSteps) (govern : T.Govern env c plan)
    (own : WritesOwn env c plan) : T.Honest (links.foldl (Writers.afterLink env true) W) := by
  induction all generalizing W with
  | nil cache t => exact honest
  | @failed now s ss t t₁ e procs first =>
    exact honest.afterLink first f g known (steps s List.mem_cons_self) govern
  | @cons now now₁ s ss t t₁ t₂ a links procs procs' first later ih =>
    have hs := steps s List.mem_cons_self
    exact ih (first.filled f g known hs govern own).1 (honest.afterLink first f g known hs govern)
      fun s' hs' => steps s' (List.mem_cons_of_mem s hs')

/-- Link steps leave the objects as they are. -/
theorem LinksAll.stocked (site : P.ClearSite K T env c plan z base rest) {rebuilt : List String}
    {ss : List LinkStep} {links : List LinkTurn} {procs : List Invocation}
    (all : LinksAll env c rebuilt now t ss links u procs)
    (stock : P.Stocked K T env c plan z base rest t) (steps : ∀ s ∈ ss, s ∈ plan.linkSteps) :
    P.Stocked K T env c plan z base rest u := by
  obtain ⟨hf, hk⟩ := all.filled stock.filled site.ground site.known steps site.govern site.builds.own
  refine ⟨hf, ?_⟩
  intro s hs
  apply (stock.objects s hs).kept hk
  apply hf.same_place site.ground (.object site.known hs)
  apply all.elsewhere site.builds.own steps
  intro s' hs'
  exact Project.object_ne_module site.builds.plans site.builds.plans hs (steps s' hs')

/-- On a ground every link step comes to what it can where the objects are as the tools
    make them, and leaves what the tools make of them. -/
theorem LinksAll.outcome (site : P.ClearSite K T env c plan z base rest) {rebuilt : List String}
    {ss : List LinkStep} {links : List LinkTurn} {procs : List Invocation} {v : FileTree}
    (all : LinksAll env c rebuilt now t ss links u procs)
    (stock : P.Stocked K T env c plan z base rest t) (hv : P.Stocked K T env c plan z base rest v)
    (honest : T.Honest W) (steps : ∀ s ∈ ss, s ∈ plan.linkSteps)
    (unique : (ss.map LinkStep.target).Nodup)
    (worth : ∀ pre turn post, links = pre ++ turn :: post →
      ModuleWorth env (pre.foldl (Writers.afterLink env true) W) turn) :
    ∀ turn ∈ links, ((∃ a, turn.result = .ok a) ↔ CanLink T env z v turn.step) ∧
      ((∃ a, turn.result = .ok a) → StandsFrom T env v turn.step u) := by
  have hfirst {now : FingerprintCache} {W : Writers} {t u : FileTree} {rebuilt : Bool} {s : LinkStep}
      {r : Except Failure (Artifact × FingerprintCache)} {procs : List Invocation}
      (first : Links env c now rebuilt s t r u procs) (stock : P.Stocked K T env c plan z base rest t)
      (honest : T.Honest W) (hs : s ∈ plan.linkSteps) (worth : ModuleWorth env W ⟨s, t, r, u⟩) :
      ((∃ a, r = .ok a) ↔ CanLink T env z v s) ∧ ((∃ a, r = .ok a) → StandsFrom T env v s u) := by
    obtain ⟨names, n, straight⟩ := site.moduleWay hs
    have hiff := first.ok_iff stock.filled site.ground site.closed site.known hs site.govern straight
      honest worth
    unfold CanLink StandsFrom at hiff ⊢
    rwa [stock.ofStep_eq site hv hs] at hiff
  induction all generalizing W with
  | nil cache t =>
    intro turn ht
    cases ht
  | @failed now s ss t t₁ e procs first =>
    intro turn ht
    obtain rfl := List.mem_singleton.1 ht
    exact hfirst first stock honest (steps s List.mem_cons_self) (worth [] _ [] rfl)
  | @cons now now₁ s ss t t₁ t₂ a links procs procs' first later ih =>
    have hs := steps s List.mem_cons_self
    have hrest : ∀ s' ∈ ss, s' ∈ plan.linkSteps := fun s' hs' => steps s' (List.mem_cons_of_mem s hs')
    obtain ⟨hnew, hunique⟩ := List.nodup_cons.1 unique
    have hall : LinksAll env c rebuilt now t [s] [⟨s, t, .ok (a, now₁), t₁⟩] t₁ (procs ++ []) :=
      .cons first (.nil _ _)
    have hstock := hall.stocked site stock fun s' hs' => List.mem_singleton.1 hs' ▸ hs
    intro turn ht
    rcases List.mem_cons.1 ht with rfl | ht
    · obtain ⟨hiff, hstood⟩ := hfirst first stock honest hs (worth [] _ links rfl)
      refine ⟨hiff, ?_⟩
      intro hok
      obtain ⟨i, bytes, x, hi, hmake, hx⟩ := hstood hok
      obtain ⟨hf₂, -⟩ := later.filled hstock.filled site.ground site.known hrest site.govern site.builds.own
      refine ⟨i, bytes, x, hi, hmake, Eq.trans ?_ hx⟩
      apply hf₂.same_place site.ground (.module site.known hs)
      apply later.elsewhere site.builds.own hrest
      intro s' hs' hl
      have htarget := Project.target_eq_of_location site.builds.plans site.builds.plans hs (hrest s' hs') hl
      exact hnew (List.mem_map.2 ⟨s', hs', htarget.symm⟩)
    · exact ih hstock (honest.afterLink first stock.filled site.ground site.known hs site.govern) hrest
        hunique (fun pre turn post h => worth (_ :: pre) turn post (congrArg (_ :: ·) h)) turn ht

/-! ### A build on a ground -/

section

variable {q : Except Failure Unit} (saves : FingerprintCache.Saves env.cwd P.cachePath now t q u)

include saves

theorem FingerprintCache.Saves.filled (f : P.Filled env.cwd K z t) (g : P.Ground env.cwd K z) :
    P.Filled env.cwd K z u ∧ Keeps t u := by
  rcases saves.dirs_or_file with dirs | ⟨t₁, bytes, dirs, file⟩
  · exact ⟨f.dirs g .cache dirs, dirs.keeps⟩
  · obtain ⟨rfl, hne, hnot⟩ := writeFile_ok file
    refine ⟨(f.dirs g .cache dirs).file .cache ?_ ?_, dirs.keeps.trans (keeps_writeAt hnot)⟩
    · intro l hl
      rw [node?_writeAt, if_neg (fun h => hl h.2)]
    · rw [FileTree.isDirAt, node?_writeAt, if_pos ⟨hne, rfl⟩]
      rfl

/-- Saving the cache leaves the objects as they are. -/
theorem FingerprintCache.Saves.stands (site : P.ClearSite K T env c plan z base rest)
    (f : P.Filled env.cwd K z t) {s : CompileStep} (hs : s ∈ plan.compileSteps) {names : List String}
    (stood : Stands T env c z base names s t) : Stands T env c z base names s u := by
  obtain ⟨hf, hk⟩ := saves.filled f site.ground
  apply stood.kept hk
  apply hf.same_place site.ground (.object site.known hs)
  exact saves.changesAt _ (Project.object_ne_cache site.builds.plans hs)

/-- It leaves the modules as they are, too. -/
theorem FingerprintCache.Saves.standsFrom (site : P.ClearSite K T env c plan z base rest)
    (f : P.Filled env.cwd K z t) {s : LinkStep} (hs : s ∈ plan.linkSteps) {v : FileTree}
    (stood : StandsFrom T env v s t) : StandsFrom T env v s u := by
  obtain ⟨i, bytes, x, hi, hmake, hx⟩ := stood
  refine ⟨i, bytes, x, hi, hmake, Eq.trans ?_ hx⟩
  apply (saves.filled f site.ground).1.same_place site.ground (.module site.known hs)
  exact saves.changesAt _ (Project.module_ne_cache site.builds.plans hs)

end

section

variable {turns : List CompileTurn} {links : List LinkTurn} {r : Except Failure (List Artifact)}
  {procs : List Invocation}

theorem Executes.filled (ex : Executes env c plan t turns links r u procs)
    (f : P.Filled env.cwd K z t) (g : P.Ground env.cwd K z) (known : K c plan)
    (builds : P.Builds env.cwd env c plan) (govern : T.Govern env c plan) :
    P.Filled env.cwd K z u := by
  have hpath := builds.plans.holds.fingerprintPath
  cases ex with
  | @mk t₁ t₂ t₃ r q procs procs' compiles finishes saves =>
    rw [hpath] at saves
    obtain ⟨hf₁, -⟩ := compiles.filled f g known (fun s hs => hs) govern builds.own
    cases finishes with
    | stopped first => exact (saves.filled hf₁ g).1
    | linked first all =>
      obtain ⟨hf₂, -⟩ := all.filled hf₁ g known (fun s hs => hs) govern builds.own
      exact (saves.filled hf₂ g).1

theorem Executes.honest (ex : Executes env c plan t turns links r u procs)
    (f : P.Filled env.cwd K z t) (honest : T.Honest W) (g : P.Ground env.cwd K z) (known : K c plan)
    (builds : P.Builds env.cwd env c plan) (govern : T.Govern env c plan) :
    T.Honest (W.afterTurns env c true turns links) := by
  cases ex with
  | @mk t₁ t₂ t₃ r q procs procs' compiles finishes saves =>
    obtain ⟨hf₁, -⟩ := compiles.filled f g known (fun s hs => hs) govern builds.own
    have hhonest := compiles.honest f honest g known (fun s hs => hs) govern builds.own
    cases finishes with
    | stopped first => exact hhonest
    | linked first all => exact all.honest hf₁ hhonest g known (fun s hs => hs) govern builds.own

/-- What a build on a ground comes to. -/
structure Project.Comes (P : Project) (K : BuildContext → BuildPlan → Prop) (T : Tools)
    (env : Environment) (c : BuildContext) (plan : BuildPlan) (z : FileTree) (base : Location)
    (rest : List String) (turns : List CompileTurn) (links : List LinkTurn)
    (r : Except Failure (List Artifact)) (u : FileTree) : Prop where
  steps : turns.map Turn.step = plan.compileSteps
  compiles : ∀ turn ∈ turns, ((∃ d, turn.result = .ok d) ↔ CanCompile T env c z turn.step) ∧
    ((∃ d, turn.result = .ok d) →
      Stands T env c z base (rest ++ ["obj", turn.step.target]) turn.step u)
  stopped : (¬ ∀ turn ∈ turns, ∃ d, turn.result = .ok d) → links = [] ∧ ¬ ∃ as, r = .ok as
  linked : (∀ turn ∈ turns, ∃ d, turn.result = .ok d) → r = artifactsOf links ∧
    P.Stocked K T env c plan z base rest u ∧
    ∃ rebuilt now v w procs, LinksAll env c rebuilt now v plan.linkSteps links w procs
  modules : ∀ v, P.Stocked K T env c plan z base rest v → ∀ turn ∈ links,
    ((∃ a, turn.result = .ok a) ↔ CanLink T env z v turn.step) ∧
      ((∃ a, turn.result = .ok a) → StandsFrom T env v turn.step u)

/-- A build whose cache is saved, after a history that the accounts tell, comes to what it
    can on the ground. -/
theorem Executes.comes (hS : NoCollision S) (site : P.ClearSite K T env c plan z base rest)
    (ex : Executes env c plan t turns links r u procs)
    (acc : Accounts S P env.cwd t (FingerprintCache.keptAt t (P.cachePath.locate env.cwd)) W)
    (f : P.Filled env.cwd K z t) (honest : T.Honest W) (within : DigestsWithin env c S turns links)
    (saved : CacheSaved r) : P.Comes K T env c plan z base rest turns links r u := by
  obtain ⟨-, hobjects, hmodules⟩ := acc.afterBuild hS site.builds ex within
  have hpath := site.builds.plans.holds.fingerprintPath
  have own := site.builds.own
  cases ex with
  | @mk t₁ t₂ t₃ r q procs procs' compiles finishes saves =>
    have hresult : afterSaving q r = r := by
      cases q with
      | ok _ => rfl
      | error e => exact absurd saves.error_cases (saved _ rfl c.fingerprintPath)
    rw [hresult]
    rw [hpath] at saves
    obtain ⟨hf₁, -⟩ := compiles.filled f site.ground site.known (fun s hs => hs) site.govern own
    have honest₁ := compiles.honest f honest site.ground site.known (fun s hs => hs) site.govern own
    have hsteps := compiles.steps
    have hmem {turn : CompileTurn} (ht : turn ∈ turns) : turn.step ∈ plan.compileSteps :=
      hsteps ▸ List.mem_map.2 ⟨turn, ht, rfl⟩
    have houtcome := compiles.outcome site f honest (fun s hs => hs) site.builds.distinct hobjects
    cases finishes with
    | stopped first =>
      refine ⟨hsteps, ?_, ?_, ?_, ?_⟩
      · intro turn ht
        obtain ⟨hiff, hstood⟩ := houtcome turn ht
        exact ⟨hiff, fun hok => saves.stands site hf₁ (hmem ht) (hstood hok)⟩
      · intro _
        refine ⟨rfl, ?_⟩
        rintro ⟨as, has⟩
        cases has
      · intro hall
        obtain ⟨turn, ht, hturn⟩ := exists_of_firstFailure? first
        obtain ⟨d, hd⟩ := hall turn ht
        rw [hturn] at hd
        cases hd
      · intro v _ turn ht
        cases ht
    | @linked links _ procs' first all =>
      have hall : ∀ turn ∈ turns, ∃ d, turn.result = .ok d := fun turn ht => ok_of_firstFailure? first ht
      have stock₁ : P.Stocked K T env c plan z base rest t₁ := by
        refine ⟨hf₁, ?_⟩
        intro s hs
        rw [← hsteps] at hs
        obtain ⟨turn, ht, rfl⟩ := List.mem_map.1 hs
        exact (houtcome turn ht).2 (hall turn ht)
      have stock₂ := all.stocked site stock₁ fun s hs => hs
      have stock₃ : P.Stocked K T env c plan z base rest u :=
        ⟨(saves.filled stock₂.filled site.ground).1, fun s hs =>
          saves.stands site stock₂.filled hs (stock₂.objects s hs)⟩
      refine ⟨hsteps, ?_, ?_, ?_, ?_⟩
      · intro turn ht
        exact ⟨(houtcome turn ht).1, fun _ => stock₃.objects turn.step (hmem ht)⟩
      · intro hfailed
        exact absurd hall hfailed
      · intro _
        exact ⟨rfl, stock₃, _, _, _, _, _, all⟩
      · intro v hv turn ht
        obtain ⟨hiff, hstood⟩ := all.outcome site stock₁ hv honest₁ (fun s hs => hs) site.unique
          hmodules turn ht
        exact ⟨hiff, fun hok => saves.standsFrom site stock₂.filled (all.step_mem ht) (hstood hok)⟩

end

end

end GrammarBuild
