import GrammarBuild.Proofs.Grounds
import GrammarBuild.Proofs.TreeLists

/-
  GrammarBuild/Proofs/CleanBuilds.lean
  ====================================
  **Incremental builds and clean builds** — if the tools are functions (`Tools.Govern`), then
  after any history of builds, edits and deletions of results a build comes to what it
  comes to in an empty output directory (`incremental_eq_clean`): the same steps come out
  well, and their results have the same bytes.

  Both builds stand on the same ground, the files without the results.  A history leaves
  results on it and nothing else (`Project.History.told`), and then a build comes to what
  it can on the ground (`Executes.comes`), fresh results or not.
-/

namespace GrammarBuild

open FileTree

/-! ### Histories -/

/-- Nothing is below the output directory, and elsewhere everything is as in `t`. -/
structure Project.Emptied (P : Project) (cwd : Location) (t z : FileTree) : Prop where
  below : ∀ l : Location, l.Below (P.outputDir.locate cwd) → z.node? l = none
  elsewhere : ∀ l : Location, ¬ l.Below (P.outputDir.locate cwd) → z.node? l = t.node? l

/-- What a build digests is in `S`, and its cache is saved. -/
structure Recorded (S : Set (List UInt8)) (env : Environment) (c : BuildContext) (plan : BuildPlan)
    (h : Host) : Prop where
  within : DigestsWithin env c S (c.planCompileTurns plan env h) (c.planLinkTurns plan env h)
  saved : CacheSaved ((c.execute plan).runOn env h).1

/-- Histories that begin without results: builds of known plans by the tools, whether they
    come out well or not, and edits, which below the output directory only delete. -/
inductive Project.History (P : Project) (S : Set (List UInt8)) (K : BuildContext → BuildPlan → Prop)
    (T : Tools) (cwd : Location) : FileTree → Prop where
  | start {t : FileTree} (bare : ∀ l : Location, l.Below (P.outputDir.locate cwd) → t.node? l = none) :
    P.History S K T cwd t
  | build (env : Environment) (c : BuildContext) (plan : BuildPlan) (h : Host)
    (before : P.History S K T cwd h.files) (known : K c plan) (builds : P.Builds cwd env c plan)
    (govern : T.Govern env c plan) (recorded : Recorded S env c plan h) :
    P.History S K T cwd ((c.execute plan).runOn env h).2.files
  | edit {t u : FileTree} (before : P.History S K T cwd t)
    (below : ∀ l : Location, l.Below (P.outputDir.locate cwd) →
      u.node? l = t.node? l ∨ u.node? l = none) : P.History S K T cwd u

section

variable {S : Set (List UInt8)} {P : Project} {K : BuildContext → BuildPlan → Prop} {T : Tools}
  {cwd : Location} {t u z z' : FileTree}

theorem Project.exists_emptied (P : Project) (cwd : Location) (t : FileTree) :
    ∃ z, P.Emptied cwd t z := by
  refine ⟨t.clear (P.outputDir.locate cwd), ?_, ?_⟩
  · rintro l ⟨names, hne, rfl⟩
    exact node?_clear_append t _ hne
  · intro l hl
    unfold node? clear
    split
    · rfl
    by_cases hprefix : P.outputDir.locate cwd <+: l
    · obtain ⟨names, rfl⟩ := hprefix
      have hnil : names = [] := Classical.not_not.1 fun hne => hl ⟨names, hne, rfl⟩
      subst hnil
      rw [subtree_alter_append, List.append_nil]
      rfl
    · exact here_subtree_alter _ _ _ _ hprefix

/-- A filled ground stays one when results are deleted and other files are edited. -/
theorem Project.Filled.emptied (f : P.Filled cwd K z t)
    (bare : ∀ l : Location, l.Below (P.outputDir.locate cwd) → z.node? l = none)
    (below : ∀ l : Location, l.Below (P.outputDir.locate cwd) →
      u.node? l = t.node? l ∨ u.node? l = none) (h : P.Emptied cwd u z') : P.Filled cwd K z' u := by
  intro l
  by_cases hl : l.Below (P.outputDir.locate cwd)
  · have hz := bare l hl
    have hz' := h.below l hl
    rcases below l hl with heq | hnone
    · have hd : u.isDirAt l = t.isDirAt l := by rw [FileTree.isDirAt, heq, FileTree.isDirAt]
      have hl := f l
      rw [Gains, hz] at hl
      rwa [Gains, hz', hd, heq]
    · exact .inl (hnone.trans hz'.symm)
  · exact .inl (h.elsewhere l hl).symm

theorem Tools.honest_none (T : Tools) : T.Honest .none := by
  constructor
  · intro l w hw
    cases hw
  · intro l w hw
    cases hw

theorem Ran.start_of_bare
    (bare : ∀ l : Location, l.Below (P.outputDir.locate cwd) → t.node? l = none) :
    Ran S P cwd t .none := by
  apply Ran.start
  rw [FingerprintCache.keptAt, bare _ ⟨_, by simp, P.locate_cachePath cwd⟩]

/-- What is known of the files after a history: who wrote the results, that these are as
    the tools make them, and that there is nothing else where the results are. -/
theorem Project.History.told (history : P.History S K T cwd t) (apart : P.Apart cwd K)
    (plans : ∀ c plan, K c plan → P.Plans c plan) :
    ∃ W, Ran S P cwd t W ∧ T.Honest W ∧ ∀ z, P.Emptied cwd t z → P.Filled cwd K z t := by
  induction history with
  | @start t bare =>
    refine ⟨.none, .start_of_bare bare, T.honest_none, ?_⟩
    intro z hz
    exact (Project.Filled.refl t).emptied bare (fun _ _ => .inl rfl) hz
  | build env c plan h before known builds govern recorded ih =>
    obtain ⟨W, ran, honest, filled⟩ := ih
    obtain rfl := builds.cwd_eq
    obtain ⟨z, hz⟩ := P.exists_emptied env.cwd h.files
    obtain ⟨procs, ex, -⟩ := c.executes_runOn plan env h
    have f := filled z hz
    have ground : P.Ground env.cwd K z := ⟨apart, fun _ made => hz.below _ (made.below plans)⟩
    have kept := c.keptAt_of_saved plan env h recorded.saved
    rw [builds.plans.holds.fingerprintPath] at kept
    refine ⟨_, .build env c plan h true ran builds recorded.within (iff_of_true rfl kept),
      ex.honest f honest ground known builds govern, ?_⟩
    intro z' hz'
    exact (ex.filled f ground known builds govern).emptied hz.below (fun _ _ => .inl rfl) hz'
  | @edit t u before below ih =>
    obtain ⟨W, ran, honest, filled⟩ := ih
    obtain ⟨z, hz⟩ := P.exists_emptied cwd t
    refine ⟨W, .edit ran ?_, honest, ?_⟩
    · constructor
      · exact below _ ⟨_, by simp, P.locate_cachePath cwd⟩
      · intro c plan s hP hs
        have hbelow := hP.output_below (List.mem_append_left _ (List.mem_map.2 ⟨s, hs, rfl⟩)) cwd
        rw [hP.holds.outputDir] at hbelow
        exact below _ hbelow
      · intro c plan s hP hs
        have hbelow := hP.output_below (List.mem_append_right _ (List.mem_map.2 ⟨s, hs, rfl⟩)) cwd
        rw [hP.holds.outputDir] at hbelow
        exact below _ hbelow
    · intro z' hz'
      exact (filled z hz).emptied hz.below below hz'

end

/-! ### Builds that come to the same -/

/-- The step of a turn, and whether it came out well. -/
def Turn.outcome {σ ρ : Type} (turn : Turn σ ρ) : σ × Bool := (turn.step, turn.result.isOk)

/-- At a place there are files with the same bytes. -/
def SameBytes (t u : FileTree) (l : Location) : Prop :=
  ∃ bytes x x', t.node? l = some (.file bytes x) ∧ u.node? l = some (.file bytes x')

/-- The modules of a build that came out well, by their targets. -/
def modulesOf (r : Except Failure (List Artifact)) : Option (List (String × Path)) :=
  r.toOption.map fun as => as.map fun a => (a.target, a.path)

/-- Two builds of a plan come to the same. -/
structure SameBuilds (env : Environment) (c : BuildContext) (plan : BuildPlan) (h h' : Host) :
    Prop where
  compiles : (c.planCompileTurns plan env h).map Turn.outcome =
    (c.planCompileTurns plan env h').map Turn.outcome
  links : (c.planLinkTurns plan env h).map Turn.outcome =
    (c.planLinkTurns plan env h').map Turn.outcome
  modules : modulesOf ((c.execute plan).runOn env h).1 = modulesOf ((c.execute plan).runOn env h').1
  objectBytes : ∀ turn ∈ c.planCompileTurns plan env h, turn.result.isOk = true →
    SameBytes ((c.execute plan).runOn env h).2.files ((c.execute plan).runOn env h').2.files
      (turn.step.output.locate env.cwd)
  moduleBytes : ∀ turn ∈ c.planLinkTurns plan env h, turn.result.isOk = true →
    SameBytes ((c.execute plan).runOn env h).2.files ((c.execute plan).runOn env h').2.files
      (turn.step.output.locate env.cwd)

section

variable {env : Environment} {c : BuildContext} {now now' : FingerprintCache}
  {rebuilt rebuilt' : List String} {t t' u u' : FileTree} {ss : List LinkStep}
  {links links' : List LinkTurn} {procs procs' : List Invocation}

/-- Link steps that come out alike are the same up to the first that fails. -/
theorem LinksAll.outcomes_eq (all : LinksAll env c rebuilt now t ss links u procs)
    (all' : LinksAll env c rebuilt' now' t' ss links' u' procs')
    (alike : ∀ turn ∈ links, ∀ turn' ∈ links', turn.step = turn'.step →
      turn.result.isOk = turn'.result.isOk) :
    links.map Turn.outcome = links'.map Turn.outcome := by
  induction all generalizing now' t' links' procs' with
  | nil cache t =>
    cases all'
    rfl
  | failed first =>
    have hhead := alike _ List.mem_cons_self
    cases all' with
    | failed first' => rfl
    | cons first' later' => cases hhead _ List.mem_cons_self rfl
  | cons first later ih =>
    have hhead := alike _ List.mem_cons_self
    cases all' with
    | failed first' => cases hhead _ List.mem_cons_self rfl
    | cons first' later' =>
      have hrest := ih later' fun turn ht turn' ht' =>
        alike turn (List.mem_cons_of_mem _ ht) turn' (List.mem_cons_of_mem _ ht')
      rw [List.map_cons, List.map_cons, hrest]
      rfl

/-- The modules of a build are told by how its link steps came out. -/
theorem LinksAll.modulesOf_eq (all : LinksAll env c rebuilt now t ss links u procs) :
    modulesOf (artifactsOf links) =
      if (links.map Turn.outcome).all Prod.snd then
        some ((links.map Turn.outcome).map fun o => (o.1.target, o.1.output))
      else none := by
  induction all with
  | nil cache t => rfl
  | failed first => rfl
  | @cons now now₁ s ss t t₁ t₂ a links procs procs' first later ih =>
    have ha : (a.target, a.path) = (s.target, s.output) := by
      cases first with
      | fresh => rfl
      | succeeded => rfl
    have hartifacts : artifactsOf (⟨s, t, .ok (a, now₁), t₁⟩ :: links) =
        (artifactsOf links).map (a :: ·) := rfl
    have hmodules : modulesOf ((artifactsOf links).map (a :: ·)) =
        (modulesOf (artifactsOf links)).map ((s.target, s.output) :: ·) := by
      rw [← ha]
      cases artifactsOf links with
      | ok as => rfl
      | error e => rfl
    have houtcome : (Turn.outcome ⟨s, t, Except.ok (a, now₁), t₁⟩ : LinkStep × Bool) = (s, true) := rfl
    rw [hartifacts, hmodules, ih, List.map_cons, houtcome, List.all_cons, Bool.true_and]
    split
    · rfl
    · rfl

end

namespace Project.Comes

variable {P : Project} {K : BuildContext → BuildPlan → Prop} {T : Tools} {env : Environment}
  {c : BuildContext} {plan : BuildPlan} {z u u' : FileTree} {base : Location} {rest : List String}
  {turns turns' : List CompileTurn} {links links' : List LinkTurn}
  {r r' : Except Failure (List Artifact)}

open Classical in
theorem outcomes (a : P.Comes K T env c plan z base rest turns links r u) :
    turns.map Turn.outcome = plan.compileSteps.map fun s => (s, decide (CanCompile T env c z s)) := by
  rw [← a.steps, List.map_map]
  apply List.map_congr_left
  intro turn ht
  have hok : turn.result.isOk = decide (CanCompile T env c z turn.step) := by
    rw [Bool.eq_iff_iff, isOk_iff, (a.compiles turn ht).1, decide_eq_true_iff]
  rw [Turn.outcome, hok]
  rfl

variable (a : P.Comes K T env c plan z base rest turns links r u)
  (b : P.Comes K T env c plan z base rest turns' links' r' u')

include a b

theorem outcomes_eq : turns.map Turn.outcome = turns'.map Turn.outcome := by
  rw [a.outcomes, b.outcomes]

/-- If all compile steps come out well in one build, they do in the other. -/
theorem all_ok (h : ∀ turn ∈ turns, ∃ d, turn.result = .ok d) :
    ∀ turn' ∈ turns', ∃ d, turn'.result = .ok d := by
  intro turn' ht'
  have hmem : turn'.outcome ∈ turns.map Turn.outcome := by
    rw [a.outcomes_eq b]
    exact List.mem_map.2 ⟨turn', ht', rfl⟩
  obtain ⟨turn, ht, houtcome⟩ := List.mem_map.1 hmem
  rw [← isOk_iff, ← show turn.result.isOk = turn'.result.isOk from congrArg Prod.snd houtcome, isOk_iff]
  exact h turn ht

/-- The link steps and the modules are the same. -/
theorem links_eq : links.map Turn.outcome = links'.map Turn.outcome ∧ modulesOf r = modulesOf r' := by
  by_cases h : ∀ turn ∈ turns, ∃ d, turn.result = .ok d
  · obtain ⟨rfl, stock, rebuilt, now, v, w, procs, all⟩ := a.linked h
    obtain ⟨rfl, -, rebuilt', now', v', w', procs', all'⟩ := b.linked (a.all_ok b h)
    have hlinks := all.outcomes_eq all' fun turn ht turn' ht' hstep => by
      rw [Bool.eq_iff_iff, isOk_iff, isOk_iff, (a.modules u stock turn ht).1,
        (b.modules u stock turn' ht').1, hstep]
    refine ⟨hlinks, ?_⟩
    rw [all.modulesOf_eq, all'.modulesOf_eq, hlinks]
  · have hnone {r : Except Failure (List Artifact)} (hr : ¬ ∃ as, r = .ok as) : modulesOf r = none := by
      cases r with
      | ok as => exact absurd ⟨as, rfl⟩ hr
      | error e => rfl
    obtain ⟨rfl, hr⟩ := a.stopped h
    obtain ⟨rfl, hr'⟩ := b.stopped fun h' => h (b.all_ok a h')
    exact ⟨rfl, (hnone hr).trans (hnone hr').symm⟩

theorem object_sameBytes {turn : CompileTurn} (ht : turn ∈ turns) (ok : turn.result.isOk = true) :
    SameBytes u u' (turn.step.output.locate env.cwd) := by
  have hmem : turn.outcome ∈ turns'.map Turn.outcome := by
    rw [← a.outcomes_eq b]
    exact List.mem_map.2 ⟨turn, ht, rfl⟩
  obtain ⟨turn', ht', houtcome⟩ := List.mem_map.1 hmem
  obtain ⟨hstep, hok⟩ := Prod.mk.inj houtcome
  rw [ok] at hok
  obtain ⟨i, bytes, x, hi, hmake, hx⟩ := ((a.compiles turn ht).2 (isOk_iff.1 ok)).object
  obtain ⟨i', bytes', x', hi', hmake', hx'⟩ := ((b.compiles turn' ht').2 (isOk_iff.1 hok)).object
  rw [hstep] at hi' hmake' hx'
  obtain rfl := Except.ok.inj (hi.symm.trans hi')
  obtain rfl := Option.some.inj (hmake.symm.trans hmake')
  exact ⟨bytes, x, x', hx, hx'⟩

theorem module_sameBytes {turn : LinkTurn} (ht : turn ∈ links) (ok : turn.result.isOk = true) :
    SameBytes u u' (turn.step.output.locate env.cwd) := by
  have hmem : turn.outcome ∈ links'.map Turn.outcome := by
    rw [← (a.links_eq b).1]
    exact List.mem_map.2 ⟨turn, ht, rfl⟩
  obtain ⟨turn', ht', houtcome⟩ := List.mem_map.1 hmem
  obtain ⟨hstep, hok⟩ := Prod.mk.inj houtcome
  rw [ok] at hok
  have hall : ∀ turn ∈ turns, ∃ d, turn.result = .ok d := by
    refine Classical.not_not.1 fun hnot => ?_
    obtain ⟨rfl, -⟩ := a.stopped hnot
    cases ht
  obtain ⟨-, stock, -⟩ := a.linked hall
  obtain ⟨i, bytes, x, hi, hmake, hx⟩ := (a.modules u stock turn ht).2 (isOk_iff.1 ok)
  obtain ⟨i', bytes', x', hi', hmake', hx'⟩ := (b.modules u stock turn' ht').2 (isOk_iff.1 hok)
  rw [hstep] at hi' hmake' hx'
  obtain rfl := Except.ok.inj (hi.symm.trans hi')
  obtain rfl := Option.some.inj (hmake.symm.trans hmake')
  exact ⟨bytes, x, x', hx, hx'⟩

end Project.Comes

/-- **An incremental build comes to what a clean one comes to**, after any history. -/
theorem incremental_eq_clean {S : Set (List UInt8)} (hS : NoCollision S) {P : Project}
    {K : BuildContext → BuildPlan → Prop} {T : Tools} {env : Environment} {c : BuildContext}
    {plan : BuildPlan} {base : Location} {rest : List String} {h clean : Host}
    (history : P.History S K T env.cwd h.files) (emptied : P.Emptied env.cwd h.files clean.files)
    (site : P.Site K T env c plan clean.files base rest)
    (free : ∀ o o', P.Makes K o → P.Makes K o' → ¬ o.IsAbove o')
    (recorded : Recorded S env c plan h) (recorded_clean : Recorded S env c plan clean) :
    SameBuilds env c plan h clean := by
  have site : P.ClearSite K T env c plan clean.files base rest := ⟨site, free⟩
  obtain ⟨W, ran, honest, filled⟩ := history.told site.apart site.plans
  obtain ⟨procs, ex, -⟩ := c.executes_runOn plan env h
  obtain ⟨procs', ex', -⟩ := c.executes_runOn plan env clean
  have a := ex.comes hS site (ran.accounts hS) (filled _ emptied) honest recorded.within recorded.saved
  have b := ex'.comes hS site ((Ran.start_of_bare emptied.below).accounts hS) (.refl _) T.honest_none
    recorded_clean.within recorded_clean.saved
  obtain ⟨hlinks, hmodules⟩ := a.links_eq b
  exact ⟨a.outcomes_eq b, hlinks, hmodules, fun turn ht ok => a.object_sameBytes b ht ok,
    fun turn ht ok => a.module_sameBytes b ht ok⟩

/-! ### Trees that are given by their lists -/

/-- Of two given trees it can be decided whether one is the other without what is below
    the output directory. -/
theorem Project.Emptied.of_toList {P : Project} {cwd : Location} {t z : FileTree}
    (below : ∀ e ∈ z.toList, ¬ e.1.Below (P.outputDir.locate cwd) ∧ t.node? e.1 = z.node? e.1)
    (elsewhere : ∀ e ∈ t.toList, e.1.Below (P.outputDir.locate cwd) ∨ t.node? e.1 = z.node? e.1) :
    P.Emptied cwd t z := by
  constructor
  · rintro l ⟨names, hne, rfl⟩
    have hl : P.outputDir.locate cwd ++ names ≠ [] := fun h => hne (List.append_eq_nil_iff.1 h).2
    cases hn : z.node? (P.outputDir.locate cwd ++ names) with
    | none => rfl
    | some n => exact absurd ⟨names, hne, rfl⟩ (below _ (mem_toList hl hn)).1
  · intro l hl
    by_cases hroot : l = []
    · rw [hroot]
      rfl
    cases hn : t.node? l with
    | some n =>
      rw [← (elsewhere _ (mem_toList hroot hn)).resolve_left hl]
      exact hn
    | none =>
      cases hz : z.node? l with
      | none => rfl
      | some n =>
        rw [← hn, (below _ (mem_toList hroot hz)).2]
        exact hz.symm

/-- Elsewhere nothing changes when a file is deleted. -/
theorem FileTree.node?_remove_elsewhere (t : FileTree) {l l' : Location}
    (h : l.isPrefixOf l' = false) : (t.remove l).node? l' = t.node? l' := by
  by_cases hroot : l' = []
  · rw [hroot]
    rfl
  · rw [node?_remove _ _ _ hroot, h]
    rfl

/-! ### Builds whose cache is known -/

section

variable {S : Set (List UInt8)} {env : Environment} {c : BuildContext} {plan : BuildPlan}
  {h : Host} {cache : FingerprintCache}

theorem Recorded.of_load (load : (FingerprintCache.load c.fingerprintPath).runOn env h = (.ok cache, h))
    (saved : failedToSave ((c.proceed cache plan).runOn env h).1 = false)
    (within : DigestsWithin env c S (c.compileTurns cache env h plan.compileSteps)
      (c.linkTurnsWith cache plan env h)) : Recorded S env c plan h where
  within := by
    rw [c.planCompileTurns_of_load plan load, c.planLinkTurns_of_load plan load]
    exact within
  saved := by
    rw [c.runOn_execute_of_load plan load, cacheSaved_iff]
    exact saved

end

/-! ### Two targets in each other's way -/

namespace Sample

/-- What is written: the source by a compiler, always the same by a linker. -/
def contentFor (t : FileTree) (args : List String) : ByteArray :=
  if args.head? = some "-c" then
    match t.node? ["p", "a.c"] with
    | some (.file bytes _) => bytes
    | _ => .empty
  else "module".toUTF8

/-- A compiler that copies its source, and a linker. -/
def copyingRun : Runner := fun t i =>
  match resultOf i.command.args with
  | some p => (.ok ⟨some 0, "", ""⟩, t.set (p.locate []) (.file (contentFor t i.command.args) false))
  | none => (.ok ⟨some 1, "", ""⟩, t)

def copyingEnvironment : Environment := { (default : Environment) with run := copyingRun }

def copyingTools : Tools := ⟨fun k => some k.source, fun _ => some "module".toUTF8⟩

/-- A plan for a target with one source. -/
def planTo (target object module : String) : BuildPlan where
  profile := "debug"
  root := ⟨"/p"⟩
  compileSteps :=
    [{ target, source := ⟨"a.c"⟩, output := ⟨object⟩, includeDirs := []
       command := ⟨⟨"/bin/cc"⟩, ["-c", "-fPIC", "-O0", "-g", "a.c", "-o", object]⟩ }]
  linkSteps :=
    [{ target, objects := [⟨object⟩], output := ⟨module⟩
       command := ⟨⟨"/bin/cc"⟩, ["-shared", "-o", module, object]⟩ }]

def planObjA : BuildPlan := planTo "obj.a" "/p/out/obj/obj.a/a-4d1e93e6.o" "/p/out/obj/a.so"

/-- The module of `obj.a` is where the objects of this target have their directory. -/
def planNested : BuildPlan := planTo "a.so" "/p/out/obj/a.so/a-4d1e93e6.o" "/p/out/a/so.so"

theorem plans_planTo {t : Target} {plan : BuildPlan} (valid : t.validate = .ok ())
    (planned : context.planFor t = plan) : project.Plans context plan where
  holds := ⟨rfl, rfl, by decide⟩
  targets := ⟨[t], by rw [BuildPlan.ofTargets_singleton context valid, planned]⟩

theorem plans_planObjA : project.Plans context planObjA :=
  plans_planTo (t := targetObjA) rfl (by decide +kernel)

theorem plans_planNested : project.Plans context planNested :=
  plans_planTo (t := { targetObjA with name := "a.so" }) rfl
    (by decide +kernel)

/-- What is to be known of the steps of the two plans. -/
structure Plain (plan : BuildPlan) : Prop where
  plans : project.Plans context plan
  distinct : (plan.compileSteps.map fun s => s.output.components).Nodup
  compiles : ∀ s ∈ plan.compileSteps, s.source = ⟨"a.c"⟩ ∧ s.includeDirs = [] ∧
    resultOf s.command.args = some s.output ∧ s.command.args.head? = some "-c" ∧
    s.output.locate [] ≠ []
  links : ∀ s ∈ plan.linkSteps, resultOf s.command.args = some s.output ∧
    s.command.args.head? ≠ some "-c" ∧ s.output.locate [] ≠ []

theorem plain_planObjA : Plain planObjA :=
  ⟨plans_planObjA, by decide, by decide, by decide⟩

theorem plain_planNested : Plain planNested :=
  ⟨plans_planNested, by decide, by decide, by decide⟩

theorem copyingRun_of_result {t : FileTree} {i : Invocation} {p : Path}
    (h : resultOf i.command.args = some p) :
    copyingRun t i =
      (.ok ⟨some 0, "", ""⟩, t.set (p.locate []) (.file (contentFor t i.command.args) false)) := by
  unfold copyingRun
  rw [h]

theorem builds_copying {plan : BuildPlan} (plain : Plain plan) :
    project.Builds [] copyingEnvironment context plan where
  plans := plain.plans
  cwd_eq := rfl
  distinct := plain.distinct
  own := by
    constructor
    · intro s hs v l hl
      show (copyingRun v (context.compileCall s)).2.node? l = v.node? l
      obtain ⟨-, -, hresult, -⟩ := plain.compiles s hs
      rw [copyingRun_of_result (i := context.compileCall s) hresult, node?_set,
        if_neg (fun h => hl h.2)]
    · intro s hs v l hl
      show (copyingRun v (context.linkCall s)).2.node? l = v.node? l
      obtain ⟨hresult, -⟩ := plain.links s hs
      rw [copyingRun_of_result (i := context.linkCall s) hresult, node?_set, if_neg (fun h => hl h.2)]

theorem govern_copying {plan : BuildPlan} (plain : Plain plan) :
    copyingTools.Govern copyingEnvironment context plan where
  compile := by
    intro s hs t u i inputs dir hnot
    obtain ⟨hsource, -, hresult, hflag, hplace⟩ := plain.compiles s hs
    have hread := CompileInputs.readToDigest_source inputs
    rw [hsource] at hread
    obtain ⟨x, hx⟩ : ∃ x, t.node? ["p", "a.c"] = some (.file i.source x) := readToDigest_ok hread
    have hu : u.node? ["p", "a.c"] = some (.file i.source x) := by
      have adds := t.prepare_adds [] s.output
      rw [show t.prepare [] s.output = (.ok (), u) from dir] at adds
      rw [adds.node?_eq (by rw [hx]; rfl), hx]
    have hcontent : contentFor u (context.compileCall s).command.args = i.source := by
      have hhead : (context.compileCall s).command.args.head? = some "-c" := hflag
      simp only [contentFor, hhead, if_true, hu]
    show CameOut (some i.source) (s.output.locate []) u (copyingRun u (context.compileCall s))
    rw [copyingRun_of_result (i := context.compileCall s) hresult, hcontent]
    exact ⟨rfl, false, node?_set_same u _ hplace⟩
  link := by
    intro s hs t u i inputs dir hnot
    obtain ⟨hresult, hflag, hplace⟩ := plain.links s hs
    have hcontent : contentFor u (context.linkCall s).command.args = "module".toUTF8 := by
      have hhead : (context.linkCall s).command.args.head? ≠ some "-c" := hflag
      simp only [contentFor, hhead, if_false]
    show CameOut (some "module".toUTF8) (s.output.locate []) u (copyingRun u (context.linkCall s))
    rw [copyingRun_of_result (i := context.linkCall s) hresult, hcontent]
    exact ⟨rfl, false, node?_set_same u _ hplace⟩

theorem bare_first (l : Location) (hl : l.Below (project.outputDir.locate [])) :
    first.files.node? l = none := by
  cases hn : first.files.node? l with
  | none => rfl
  | some n =>
    exfalso
    obtain ⟨names, hne, rfl⟩ := hl
    have hmem := mem_toList (fun h => hne (List.append_eq_nil_iff.1 h).2) hn
    have hlist : ∀ e ∈ first.files.toList, ¬ e.1.Below (project.outputDir.locate []) := by decide
    exact hlist _ hmem ⟨names, hne, rfl⟩

def ObjAOrNested (c : BuildContext) (plan : BuildPlan) : Prop :=
  c = context ∧ (plan = planObjA ∨ plan = planNested)

def OnlyObjA (c : BuildContext) (plan : BuildPlan) : Prop := c = context ∧ plan = planObjA

theorem plans_objAOrNested {c : BuildContext} {plan : BuildPlan} (known : ObjAOrNested c plan) :
    project.Plans c plan := by
  obtain ⟨rfl, rfl | rfl⟩ := known
  · exact plans_planObjA
  · exact plans_planNested

/-- What builds of the two plans write. -/
theorem mem_of_makes {o : Path} (made : project.Makes ObjAOrNested o) :
    o ∈ project.cachePath :: (planObjA.outputs ++ planNested.outputs) := by
  have hplan {c : BuildContext} {plan : BuildPlan} (known : ObjAOrNested c plan) :
      plan.outputs ⊆ planObjA.outputs ++ planNested.outputs := by
    obtain ⟨-, rfl | rfl⟩ := known
    · exact List.subset_append_left _ _
    · exact List.subset_append_right _ _
  cases made with
  | object known mem => exact List.mem_cons_of_mem _ (hplan known (BuildPlan.object_mem_outputs mem))
  | module known mem => exact List.mem_cons_of_mem _ (hplan known (BuildPlan.module_mem_outputs mem))
  | cache => exact List.mem_cons_self

/-- The source is there, and apart from all that builds write. -/
theorem readsThere_planObjA {s : CompileStep} (hs : s ∈ planObjA.compileSteps) :
    s.ReadsThere first.files [] ⟨"/p"⟩ (project.Makes ObjAOrNested) := by
  obtain ⟨hsource, hdirs, -⟩ := plain_planObjA.compiles s hs
  have hoff : ∀ o ∈ project.cachePath :: (planObjA.outputs ++ planNested.outputs),
      o.locate [] ∉ ((⟨"/p"⟩ : Path).join ⟨"a.c"⟩).way [] := by decide
  refine ⟨?_, fun o made => ?_, by simp [hdirs], by simp [hdirs]⟩
  · rw [hsource]
    decide
  · rw [hsource]
    exact hoff o (mem_of_makes made)

theorem site_planObjA {K : BuildContext → BuildPlan → Prop} (sub : ∀ c plan, K c plan → ObjAOrNested c plan)
    (known : K context planObjA) :
    project.Site K copyingTools copyingEnvironment context planObjA first.files ["p", "out"] [] where
  plans c plan h := plans_objAOrNested (sub c plan h)
  known := known
  builds := builds_copying plain_planObjA
  unique := by decide
  govern := govern_copying plain_planObjA
  closed := .of_toList (by decide)
  here := rfl
  straight := ⟨⟨["p", "out"], by decide, rfl⟩, rfl, by decide⟩
  bare := bare_first
  reads s hs u f := by
    have hmakes (o : Path) (made : project.Makes K o) : project.Makes ObjAOrNested o := by
      cases made with
      | object known mem => exact .object (sub _ _ known) mem
      | module known mem => exact .module (sub _ _ known) mem
      | cache => exact .cache
    exact f.withMade.ofStep_eq ((readsThere_planObjA hs).mono hmakes)

/-! Three builds, and what is between them: `obj.a` is built, its module is deleted, the
    nested target is built, and `obj.a` once more. -/

@[irreducible] def turnsObjA : List CompileTurn :=
  context.compileTurns {} copyingEnvironment first planObjA.compileSteps

@[irreducible] def linksObjA : List LinkTurn :=
  context.linkTurnsWith {} planObjA copyingEnvironment first

@[irreducible] def cacheObjA : FingerprintCache := cacheAfterTurns {} turnsObjA linksObjA

def nestedPlace : Location := ["p", "out", "obj", "a.so"]

/-- The module is deleted. -/
@[irreducible] def deleted : Host where
  files := ((context.proceed {} planObjA).runOn copyingEnvironment first).2.files.remove nestedPlace

@[irreducible] def turnsAgain : List CompileTurn :=
  context.compileTurns cacheObjA copyingEnvironment deleted planObjA.compileSteps

@[irreducible] def linksAgain : List LinkTurn :=
  context.linkTurnsWith cacheObjA planObjA copyingEnvironment deleted

@[irreducible] def turnsNested : List CompileTurn :=
  context.compileTurns cacheObjA copyingEnvironment deleted planNested.compileSteps

@[irreducible] def linksNested : List LinkTurn :=
  context.linkTurnsWith cacheObjA planNested copyingEnvironment deleted

@[irreducible] def cacheNested : FingerprintCache := cacheAfterTurns cacheObjA turnsNested linksNested

@[irreducible] def nested : Host where
  files := ((context.proceed cacheObjA planNested).runOn copyingEnvironment deleted).2.files

@[irreducible] def turnsLast : List CompileTurn :=
  context.compileTurns cacheNested copyingEnvironment nested planObjA.compileSteps

@[irreducible] def linksLast : List LinkTurn :=
  context.linkTurnsWith cacheNested planObjA copyingEnvironment nested

@[irreducible] def filesLast : FileTree :=
  ((context.proceed cacheNested planObjA).runOn copyingEnvironment nested).2.files

/-- What is digested in these builds. -/
@[irreducible] def copyingDigests : List (List UInt8) :=
  (digestedBy copyingEnvironment context turnsObjA linksObjA ++
    (digestedBy copyingEnvironment context turnsAgain linksAgain ++
      (digestedBy copyingEnvironment context turnsNested linksNested ++
        digestedBy copyingEnvironment context turnsLast linksLast))).dedup

/-- Every build saves its cache, the last finds the module fresh, and at its place there
    is a directory. -/
theorem course_of_copying :
    failedToSave ((context.proceed {} planObjA).runOn copyingEnvironment first).1 = false ∧
    failedToSave ((context.proceed cacheObjA planObjA).runOn copyingEnvironment deleted).1 = false ∧
    failedToSave ((context.proceed cacheObjA planNested).runOn copyingEnvironment deleted).1 = false ∧
    failedToSave ((context.proceed cacheNested planObjA).runOn copyingEnvironment nested).1 = false ∧
    (linksLast.map fun turn => (turn.step.output.locate [], turn.result.isOk)) =
      [(nestedPlace, true)] ∧ filesLast.isDirAt nestedPlace = true ∧
    (copyingDigests.map Sha256.hexDigest).Nodup ∧
    (∀ turn ∈ turnsObjA ++ (turnsAgain ++ (turnsNested ++ turnsLast)),
      Digest.ZeroFree turn.step.command.argv) ∧
    (∀ turn ∈ linksObjA ++ (linksAgain ++ (linksNested ++ linksLast)),
      Digest.ZeroFree turn.step.command.argv) := by
  unfold Digest.ZeroFree
  decide +kernel

/-- Both hosts are the first one but for what is below the output directory. -/
theorem emptied_copying :
    (∀ h ∈ [deleted, nested], (∀ e ∈ first.files.toList, ¬ e.1.Below (project.outputDir.locate []) ∧
        h.files.node? e.1 = first.files.node? e.1) ∧
      ∀ e ∈ h.files.toList, e.1.Below (project.outputDir.locate []) ∨
        h.files.node? e.1 = first.files.node? e.1) := by
  decide +kernel

theorem load_first : (FingerprintCache.load context.fingerprintPath).runOn copyingEnvironment first =
    (.ok {}, first) := rfl

theorem saved_first : CacheSaved ((context.execute planObjA).runOn copyingEnvironment first).1 := by
  rw [context.runOn_execute_of_load planObjA load_first, cacheSaved_iff]
  exact course_of_copying.1

theorem files_deleted : deleted.files =
    ((context.execute planObjA).runOn copyingEnvironment first).2.files.remove nestedPlace := by
  rw [deleted, context.runOn_execute_of_load planObjA load_first]

theorem load_deleted : (FingerprintCache.load context.fingerprintPath).runOn copyingEnvironment deleted =
    (.ok cacheObjA, deleted) := by
  have hcache : context.cacheRecorded planObjA copyingEnvironment first = cacheObjA := by
    rw [context.cacheRecorded_of_load planObjA load_first, cacheObjA, turnsObjA, linksObjA]
  rw [← hcache]
  refine context.runOn_load_of_kept planObjA copyingEnvironment first saved_first fun l hl => ?_
  have hway : ∀ l ∈ context.fingerprintPath.way [], nestedPlace.isPrefixOf l = false := by decide
  rw [files_deleted]
  exact node?_remove_elsewhere _ (hway l hl)

theorem files_nested : nested.files =
    ((context.execute planNested).runOn copyingEnvironment deleted).2.files :=
  Host.files_of_eq (by rw [nested, context.runOn_execute_of_load planNested load_deleted])

theorem load_nested : (FingerprintCache.load context.fingerprintPath).runOn copyingEnvironment nested =
    (.ok cacheNested, nested) := by
  have hcache : context.cacheRecorded planNested copyingEnvironment deleted = cacheNested := by
    rw [context.cacheRecorded_of_load planNested load_deleted, cacheNested, turnsNested, linksNested]
  have hsaved : CacheSaved ((context.execute planNested).runOn copyingEnvironment deleted).1 := by
    rw [context.runOn_execute_of_load planNested load_deleted, cacheSaved_iff]
    exact course_of_copying.2.2.1
  rw [← hcache]
  exact context.runOn_load_of_saved planNested copyingEnvironment deleted hsaved files_nested

def CopyingDigested : Set (List UInt8) := { b | b ∈ copyingDigests }

theorem noCollision_copying : NoCollision CopyingDigested := by
  obtain ⟨-, -, -, -, -, -, hnodup, -⟩ := course_of_copying
  intro a ha b hb
  exact List.inj_on_of_nodup_map hnodup ha hb

theorem within_copying {turns : List CompileTurn} {links : List LinkTurn}
    (digested : digestedBy copyingEnvironment context turns links ⊆
      digestedBy copyingEnvironment context turnsObjA linksObjA ++
        (digestedBy copyingEnvironment context turnsAgain linksAgain ++
          (digestedBy copyingEnvironment context turnsNested linksNested ++
            digestedBy copyingEnvironment context turnsLast linksLast)))
    (compiles : turns ⊆ turnsObjA ++ (turnsAgain ++ (turnsNested ++ turnsLast)))
    (hlinks : links ⊆ linksObjA ++ (linksAgain ++ (linksNested ++ linksLast))) :
    DigestsWithin copyingEnvironment context CopyingDigested turns links := by
  obtain ⟨-, -, -, -, -, -, -, hcompile, hlink⟩ := course_of_copying
  rw [CopyingDigested, copyingDigests]
  exact .of_subset digested compiles hlinks hcompile hlink

theorem recorded_first : Recorded CopyingDigested copyingEnvironment context planObjA first := by
  have hwithin : DigestsWithin copyingEnvironment context CopyingDigested turnsObjA linksObjA :=
    within_copying (fun b hb => by simp [hb]) (fun b hb => by simp [hb]) (fun b hb => by simp [hb])
  rw [turnsObjA, linksObjA] at hwithin
  exact .of_load load_first course_of_copying.1 hwithin

theorem recorded_again : Recorded CopyingDigested copyingEnvironment context planObjA deleted := by
  have hwithin : DigestsWithin copyingEnvironment context CopyingDigested turnsAgain linksAgain :=
    within_copying (fun b hb => by simp [hb]) (fun b hb => by simp [hb]) (fun b hb => by simp [hb])
  rw [turnsAgain, linksAgain] at hwithin
  exact .of_load load_deleted course_of_copying.2.1 hwithin

theorem recorded_nested : Recorded CopyingDigested copyingEnvironment context planNested deleted := by
  have hwithin : DigestsWithin copyingEnvironment context CopyingDigested turnsNested linksNested :=
    within_copying (fun b hb => by simp [hb]) (fun b hb => by simp [hb]) (fun b hb => by simp [hb])
  rw [turnsNested, linksNested] at hwithin
  exact .of_load load_deleted course_of_copying.2.2.1 hwithin

theorem recorded_last : Recorded CopyingDigested copyingEnvironment context planObjA nested := by
  have hwithin : DigestsWithin copyingEnvironment context CopyingDigested turnsLast linksLast :=
    within_copying (fun b hb => by simp [hb]) (fun b hb => by simp [hb]) (fun b hb => by simp [hb])
  rw [turnsLast, linksLast] at hwithin
  exact .of_load load_nested course_of_copying.2.2.2.1 hwithin

theorem history_deleted {K : BuildContext → BuildPlan → Prop} (known : K context planObjA) :
    project.History CopyingDigested K copyingTools [] deleted.files := by
  rw [files_deleted]
  refine .edit (.build copyingEnvironment context planObjA first (.start bare_first) known
    (builds_copying plain_planObjA) (govern_copying plain_planObjA) recorded_first) ?_
  rintro l ⟨names, hne, rfl⟩
  rw [node?_remove _ _ _ (fun h => hne (List.append_eq_nil_iff.1 h).2)]
  split
  · exact .inr rfl
  · exact .inl rfl

theorem history_nested : project.History CopyingDigested ObjAOrNested copyingTools [] nested.files := by
  rw [files_nested]
  exact .build copyingEnvironment context planNested deleted (history_deleted ⟨rfl, .inl rfl⟩)
    ⟨rfl, .inr rfl⟩ (builds_copying plain_planNested) (govern_copying plain_planNested) recorded_nested

theorem free_onlyObjA (o o' : Path) (made : project.Makes OnlyObjA o)
    (made' : project.Makes OnlyObjA o') : ¬ o.IsAbove o' := by
  have hmem {o : Path} (made : project.Makes OnlyObjA o) :
      o ∈ project.cachePath :: planObjA.outputs := by
    cases made with
    | @object c plan s known mem =>
      obtain ⟨rfl, rfl⟩ := known
      exact List.mem_cons_of_mem _ (List.mem_append_left _ (List.mem_map.2 ⟨s, mem, rfl⟩))
    | @module c plan s known mem =>
      obtain ⟨rfl, rfl⟩ := known
      exact List.mem_cons_of_mem _ (List.mem_append_right _ (List.mem_map.2 ⟨s, mem, rfl⟩))
    | cache => exact List.mem_cons_self
  have hfree : ∀ o ∈ project.cachePath :: planObjA.outputs, ∀ o' ∈ project.cachePath :: planObjA.outputs,
      ¬ o.IsAbove o' := by
    decide
  exact hfree o (hmem made) o' (hmem made')

end Sample

/-- A target is built again whose module was deleted. -/
theorem incremental_eq_clean_deleted :
    Sample.project.History Sample.CopyingDigested Sample.OnlyObjA Sample.copyingTools []
        Sample.deleted.files ∧
      SameBuilds Sample.copyingEnvironment Sample.context Sample.planObjA Sample.deleted Sample.first := by
  have history : Sample.project.History Sample.CopyingDigested Sample.OnlyObjA Sample.copyingTools []
      Sample.deleted.files := Sample.history_deleted ⟨rfl, rfl⟩
  obtain ⟨hbelow, helsewhere⟩ := Sample.emptied_copying Sample.deleted List.mem_cons_self
  refine ⟨history, incremental_eq_clean Sample.noCollision_copying history
    (.of_toList hbelow helsewhere) (Sample.site_planObjA ?_ ⟨rfl, rfl⟩) Sample.free_onlyObjA
    Sample.recorded_again Sample.recorded_first⟩
  exact fun c plan known => ⟨known.1, .inl known.2⟩

/-- Where a nested target was built in between, a directory is taken for the deleted
    module, while a clean build makes the module. -/
theorem directory_found_fresh :
    ∃ (S : Set (List UInt8)) (K : BuildContext → BuildPlan → Prop), NoCollision S ∧
      Sample.project.History S K Sample.copyingTools [] Sample.nested.files ∧
      Sample.project.Emptied [] Sample.nested.files Sample.first.files ∧
      Sample.project.Site K Sample.copyingTools Sample.copyingEnvironment Sample.context
        Sample.planObjA Sample.first.files ["p", "out"] [] ∧
      Recorded S Sample.copyingEnvironment Sample.context Sample.planObjA Sample.nested ∧
      Recorded S Sample.copyingEnvironment Sample.context Sample.planObjA Sample.first ∧
      ¬ SameBuilds Sample.copyingEnvironment Sample.context Sample.planObjA Sample.nested
        Sample.first := by
  obtain ⟨hbelow, helsewhere⟩ := Sample.emptied_copying Sample.nested (by simp)
  refine ⟨_, _, Sample.noCollision_copying, Sample.history_nested, .of_toList hbelow helsewhere,
    Sample.site_planObjA (fun c plan known => known) ⟨rfl, .inl rfl⟩, Sample.recorded_last,
    Sample.recorded_first, ?_⟩
  · intro same
    obtain ⟨-, -, -, -, hlinks, hdir, -⟩ := Sample.course_of_copying
    obtain ⟨turn, hturns, hturn⟩ := List.map_eq_singleton_iff.1 hlinks
    obtain ⟨hplace, hok⟩ := Prod.mk.inj hturn
    have hmem : turn ∈ Sample.context.planLinkTurns Sample.planObjA Sample.copyingEnvironment
        Sample.nested := by
      rw [Sample.context.planLinkTurns_of_load _ Sample.load_nested, ← Sample.linksLast, hturns]
      exact List.mem_singleton_self turn
    obtain ⟨bytes, x, -, hx, -⟩ := same.moduleBytes turn hmem hok
    rw [Sample.context.runOn_execute_of_load _ Sample.load_nested, ← Sample.filesLast] at hx
    rw [show turn.step.output.locate Sample.copyingEnvironment.cwd = Sample.nestedPlace from hplace] at hx
    rw [FileTree.isDirAt, hx] at hdir
    cases hdir

end GrammarBuild
