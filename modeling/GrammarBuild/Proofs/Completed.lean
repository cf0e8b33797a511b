import GrammarBuild.Proofs.Growth

/-
  GrammarBuild/Proofs/Completed.lean
  ==================================
  **Builds that succeed** — every step had its turn and came out well, and the cache was
  saved (`Executes.succeeded`).  Then all objects and modules are there, and what the link
  steps have read of them is what is there in the end (`Executes.linkInputs_kept`): objects
  are written before the first link step, modules at other places, and the cache at
  another one still.
-/

namespace GrammarBuild

open FileTree

section

variable {env : Environment} {c : BuildContext} {plan : BuildPlan} {cache : FingerprintCache}
  {t u : FileTree} {turns : List CompileTurn} {links : List LinkTurn} {artifacts : List Artifact}
  {procs : List Invocation}

/-! ### The course of a build that succeeds -/

/-- The artifact of a link step tells what was linked and where it is. -/
theorem Links.artifact_eq {now : FingerprintCache} {rebuilt : Bool} {s : LinkStep} {a : Artifact}
    (h : Links env c cache rebuilt s t (.ok (a, now)) u procs) : a = s.artifact a.fresh := by
  cases h with
  | fresh => rfl
  | succeeded => rfl

/-- Link steps that give artifacts have all been carried out. -/
theorem LinksAll.of_artifacts {names : List String} {ss : List LinkStep}
    (all : LinksAll env c names cache t ss links u procs)
    (given : artifactsOf links = .ok artifacts) :
    links.map Turn.step = ss ∧ (∀ turn ∈ links, ∃ a, turn.result = .ok a) ∧
      artifacts.map (fun a => { a with fresh := true }) = ss.map (·.artifact true) := by
  induction all generalizing artifacts with
  | nil cache t =>
    cases given
    exact ⟨rfl, fun _ h => (List.not_mem_nil h).elim, rfl⟩
  | failed first => cases given
  | @cons cache cache₁ s ss t t₁ t₂ a links procs procs' first later ih =>
    simp only [artifactsOf] at given
    cases hrest : artifactsOf links with
    | error e =>
      rw [hrest] at given
      cases given
    | ok as =>
      rw [hrest] at given
      cases given
      obtain ⟨hsteps, hok, has⟩ := ih hrest
      refine ⟨by rw [List.map_cons, hsteps], fun turn ht => ?_, ?_⟩
      · rcases List.mem_cons.1 ht with rfl | ht
        · exact ⟨_, rfl⟩
        · exact hok turn ht
      · rw [List.map_cons, List.map_cons, has, first.artifact_eq]
        rfl

/-- Artifacts of link steps, of which it is known whether a process was run. -/
theorem artifactsOf_eq {ran : LinkStep → Bool}
    (h : ∀ turn ∈ links, ∃ now, turn.result = .ok (turn.step.artifact (!ran turn.step), now)) :
    artifactsOf links = .ok ((links.map Turn.step).map fun s => s.artifact (!ran s)) := by
  induction links with
  | nil => rfl
  | cons turn links ih =>
    obtain ⟨now, hnow⟩ := h turn List.mem_cons_self
    rw [artifactsOf, hnow]
    simp only [ih fun turn' ht => h turn' (List.mem_cons_of_mem turn ht)]
    rfl

/-- A build that gives artifacts has taken its course to the end. -/
theorem Executes.succeeded (ex : Executes env c plan t turns links (.ok artifacts) u procs) :
    ∃ t₁ t₂ q q', procs = q ++ q' ∧
      CompilesAll env c (.ofFile t env.cwd c.fingerprintPath) t plan.compileSteps turns t₁ q ∧
      BuildContext.firstFailure? (outcomesOf turns) = none ∧
      LinksAll env c (BuildContext.rebuiltTargets (outcomesOf turns))
        (BuildContext.recordOutcomes (.ofFile t env.cwd c.fingerprintPath) (outcomesOf turns)) t₁
        plan.linkSteps links t₂ q' ∧
      artifactsOf links = .ok artifacts ∧
      FingerprintCache.Saves env.cwd c.fingerprintPath
        (cacheAfterTurns (.ofFile t env.cwd c.fingerprintPath) turns links) t₂ (.ok ()) u := by
  generalize hr : Except.ok artifacts = result at ex
  cases ex with
  | @mk t₁ t₂ t₃ r saved q q' compiles finishes saves =>
    cases saved with
    | error e => cases hr
    | ok _ =>
      cases finishes with
      | stopped first => cases hr
      | linked first all => exact ⟨t₁, t₂, q, q', rfl, compiles, first, all, rfl, saves⟩

/-- Every step of a build that succeeded came out well. -/
theorem Executes.steps_succeeded (ex : Executes env c plan t turns links (.ok artifacts) u procs) :
    (∀ turn ∈ turns, ∃ d, turn.result = .ok d) ∧ links.map Turn.step = plan.linkSteps ∧
      ∀ turn ∈ links, ∃ a, turn.result = .ok a := by
  obtain ⟨t₁, t₂, q, q', -, -, first, all, given, -⟩ := ex.succeeded
  obtain ⟨hsteps, hok, -⟩ := all.of_artifacts given
  exact ⟨fun turn ht => ok_of_firstFailure? first ht, hsteps, hok⟩

/-- The turns of a build that succeeded are in order if its processes write their outputs
    and nothing else. -/
theorem Executes.inOrder_of_writes
    (ex : Executes env c plan t turns links (.ok artifacts) u procs)
    (compile : ∀ s ∈ plan.compileSteps, ∀ v, exitsZero (env.run v (c.compileCall s)).1 = true →
      WroteOutput env.cwd s.output v (env.run v (c.compileCall s)).2)
    (link : ∀ s ∈ plan.linkSteps, ∀ v, exitsZero (env.run v (c.linkCall s)).1 = true →
      WroteOutput env.cwd s.output v (env.run v (c.linkCall s)).2) :
    InOrder env.cwd turns links := by
  obtain ⟨hturns, -, hlinks⟩ := ex.steps_succeeded
  obtain ⟨t₁, t₂, q, q', -, compiles, -, all, -, -⟩ := ex.succeeded
  refine ⟨?_, ?_, ?_, ?_⟩
  · intro turn ht d hd hran
    obtain ⟨procs₁, hturn⟩ := compiles.turn ht
    rw [hd] at hturn
    exact hturn.wrote (compile _ (compiles.step_mem ht)) hran
  · intro turn ht e he
    obtain ⟨d, hd⟩ := hturns turn ht
    rw [he] at hd
    cases hd
  · intro turn ht a now ha hran
    obtain ⟨now', procs₁, hturn, -⟩ := all.turn ht
    rw [ha] at hturn
    exact hturn.wrote (link _ (all.step_mem ht)) hran
  · intro turn ht e he
    obtain ⟨a, ha⟩ := hlinks turn ht
    rw [he] at ha
    cases ha

/-! ### What is there in the end -/

/-- After compile steps in order that came out well, their objects are there. -/
theorem CompilesAll.objects_found {ss : List CompileStep}
    (all : CompilesAll env c cache t ss turns u procs) (ord : InOrder env.cwd turns links)
    (compiled : ∀ turn ∈ turns, ∃ d, turn.result = .ok d) {s : CompileStep} (hs : s ∈ ss) :
    u.pathExists env.cwd s.output = true := by
  obtain ⟨-, heach⟩ := all.extends ord fun s hs => List.mem_map_of_mem (f := CompileStep.output) hs
  rw [← all.steps] at hs
  obtain ⟨turn, ht, rfl⟩ := List.mem_map.1 hs
  obtain ⟨d, hd⟩ := compiled turn ht
  obtain ⟨procs₁, hturn⟩ := all.turn ht
  rw [hd] at hturn
  exact (heach turn ht).2.2.keeps.pathExists
    (hturn.found fun hran => ord.compiled turn ht d hd hran).1

/-- After link steps in order that came out well, their modules are there. -/
theorem LinksAll.modules_found {ss : List LinkStep} {names : List String}
    (all : LinksAll env c names cache t ss links u procs) (ord : InOrder env.cwd turns links)
    (steps : links.map Turn.step = ss) (linked : ∀ turn ∈ links, ∃ a, turn.result = .ok a)
    {s : LinkStep} (hs : s ∈ ss) : u.pathExists env.cwd s.output = true := by
  obtain ⟨-, heach⟩ := all.extends ord fun s hs => List.mem_map_of_mem (f := LinkStep.output) hs
  rw [← steps] at hs
  obtain ⟨turn, ht, rfl⟩ := List.mem_map.1 hs
  obtain ⟨⟨a, now⟩, ha⟩ := linked turn ht
  obtain ⟨now', procs₁, hturn, -⟩ := all.turn ht
  rw [ha] at hturn
  exact (heach turn ht).2.2.keeps.pathExists
    (hturn.found fun hran => ord.linked turn ht a now ha hran).1

/-- After a build that succeeded, whatever it writes is there. -/
theorem Executes.writes_found (ex : Executes env c plan t turns links (.ok artifacts) u procs)
    (ord : InOrder env.cwd turns links) {o : Path} (ho : o ∈ c.writes plan) :
    u.pathExists env.cwd o = true := by
  obtain ⟨t₁, t₂, q, q', -, compiles, first, all, given, saves⟩ := ex.succeeded
  obtain ⟨hsteps, hok, -⟩ := all.of_artifacts given
  have hsaved := saves.extends.keeps
  have hlinked := (all.extends ord fun s hs => List.mem_map_of_mem (f := LinkStep.output) hs).1.keeps
  simp only [BuildContext.mem_writes, BuildPlan.mem_outputs] at ho
  rcases ho with (⟨s, hs, rfl⟩ | ⟨s, hs, rfl⟩) | rfl
  · exact hsaved.pathExists (hlinked.pathExists (compiles.objects_found ord
      (fun turn ht => ok_of_firstFailure? first ht) hs))
  · exact hsaved.pathExists (all.modules_found ord hsteps hok hs)
  · exact pathExists_of_readFile saves.readFile_eq

/-! ### What steps read -/

/-- A compile step that reads no output has read what there was to begin with. -/
theorem Executes.compile_reads {r : Except Failure (List Artifact)}
    (ex : Executes env c plan t turns links r u procs) (ord : InOrder env.cwd turns links)
    (apart : c.ReadsApart plan env.cwd t) {turn : CompileTurn} (ht : turn ∈ turns) {d : Compiled}
    (hd : turn.result = .ok d) : ∃ i, CompileInputs.ofStep t env.cwd c.root turn.step = .ok i ∧
      d.fingerprint = c.compileNow turn.step i := by
  have ext := ex.extending ord
  obtain ⟨compiles, -, -⟩ := ex
  obtain ⟨procs₁, hturn⟩ := compiles.turn ht
  rw [hd] at hturn
  obtain ⟨i, hi, hf⟩ := hturn.reads
  rw [apart _ (compiles.step_mem ht) _ (ext.compile turn ht).1] at hi
  exact ⟨i, hi, hf⟩

/-- Objects that are there are read alike where the same is at their places. -/
theorem LinkInputs.ofStep_of_found {cwd : Location} {s : LinkStep}
    (found : ∀ o ∈ s.objects, t.pathExists cwd o = true)
    (found' : ∀ o ∈ s.objects, u.pathExists cwd o = true)
    (same : ∀ o ∈ s.objects, u.node? (o.locate cwd) = t.node? (o.locate cwd)) :
    LinkInputs.ofStep u cwd s = LinkInputs.ofStep t cwd s := by
  refine LinkInputs.ofStep_congr fun o ho i => ?_
  unfold addObject readToDigest
  rw [found o ho, found' o ho, openRead_of_found (found o ho) (found' o ho) (same o ho)]

variable {P : Project}

/-- When a link step has its turn, its objects are there. -/
theorem Executes.objects_at_link (plans : P.Plans c plan)
    (ex : Executes env c plan t turns links (.ok artifacts) u procs)
    (ord : InOrder env.cwd turns links) {turn : LinkTurn} (ht : turn ∈ links) {o : Path}
    (ho : o ∈ turn.step.objects) : turn.files.pathExists env.cwd o = true := by
  obtain ⟨t₁, t₂, q, q', -, compiles, first, all, -, -⟩ := ex.succeeded
  obtain ⟨-, heach⟩ := all.extends ord fun s hs => List.mem_map_of_mem (f := LinkStep.output) hs
  obtain ⟨s, hs, rfl⟩ := plans.exists_compileStep (all.step_mem ht) ho
  exact (heach turn ht).1.keeps.pathExists (compiles.objects_found ord
    (fun turn ht => ok_of_firstFailure? first ht) hs)

/-- What a link step has read of the objects is what is there in the end. -/
theorem Executes.linkInputs_kept (plans : P.Plans c plan)
    (ex : Executes env c plan t turns links (.ok artifacts) u procs)
    (ord : InOrder env.cwd turns links) {turn : LinkTurn} (ht : turn ∈ links) :
    LinkInputs.ofStep turn.files env.cwd turn.step = LinkInputs.ofStep u env.cwd turn.step := by
  have hfound := fun o ho => ex.objects_at_link plans ord ht (o := o) ho
  obtain ⟨t₁, t₂, q, q', -, compiles, first, all, given, saves⟩ := ex.succeeded
  obtain ⟨-, heach⟩ := all.extends ord fun s hs => List.mem_map_of_mem (f := LinkStep.output) hs
  obtain ⟨-, hturn, hafter⟩ := heach turn ht
  have hrest := hturn.trans hafter
  refine (LinkInputs.ofStep_of_found hfound ?_ ?_).symm
  · intro o ho
    exact saves.extends.keeps.pathExists (hrest.keeps.pathExists (hfound o ho))
  · intro o ho
    have hthere := hfound o ho
    obtain ⟨s, hs, rfl⟩ := plans.exists_compileStep (all.step_mem ht) ho
    have hlinked := hrest.node?_eq (node?_of_pathExists hthere) fun o' ho' => by
      obtain ⟨s', hs', rfl⟩ := List.mem_map.1 ho'
      exact Project.object_ne_module plans plans hs hs'
    rw [saves.extends.node?_eq ?_ ?_, hlinked]
    · rw [hlinked]
      exact node?_of_pathExists hthere
    · intro o' ho'
      rw [List.mem_singleton.1 ho', plans.holds.fingerprintPath]
      exact Project.object_ne_cache plans hs

end

end GrammarBuild
