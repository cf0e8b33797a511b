import GrammarBuild.Proofs.HeaderTrees
import GrammarBuild.Proofs.OutOfDate
import GrammarBuild.Proofs.Ways

/-
  GrammarBuild/Proofs/Growth.lean
  ===============================
  **What builds leave** — while processes write their outputs and nothing else, a build
  only extends the files it finds: there come files at the places of outputs and
  directories on the ways to them (`Extends`).  Nothing is lost, so what was found is
  found from then on, and a step that came out well can be found up to date later.

  A run is followed from turn to turn (`Chained`); what each turn does in any way that
  composes, the whole run does.
-/

namespace GrammarBuild

/-! ### Files that were added to -/

namespace FileTree

variable {cwd l : Location} {o : Path} {outs outs' : List Path} {t u v : FileTree}

/-- `u` is `t` with files written at the places of some outputs, where no directories
    were, and with directories made on the ways to them, where nothing was. -/
def Extends (outs : List Path) (cwd : Location) (t u : FileTree) : Prop :=
  ∀ l, u.node? l = t.node? l ∨
    (Gains t u l ∧ ∃ o ∈ outs, l ∈ o.dirWay cwd) ∨
    (t.isDirAt l = false ∧ (∃ bytes x, u.node? l = some (.file bytes x)) ∧
      ∃ o ∈ outs, l = o.locate cwd)

namespace Extends

theorem refl (outs : List Path) (cwd : Location) (t : FileTree) : Extends outs cwd t t :=
  fun _ => .inl rfl

theorem trans (a : Extends outs cwd t u) (b : Extends outs cwd u v) : Extends outs cwd t v := by
  intro l
  rcases a l with ha | ⟨ha, ho⟩ | ⟨hfree, ⟨bytes, x, ha⟩, ho⟩
  · rcases b l with hb | ⟨⟨hnone, hb⟩, ho⟩ | ⟨hfree, hb, ho⟩
    · exact .inl (hb.trans ha)
    · exact .inr (.inl ⟨⟨ha ▸ hnone, hb⟩, ho⟩)
    · rw [isDirAt, ha] at hfree
      exact .inr (.inr ⟨hfree, hb, ho⟩)
  · rcases b l with hb | ⟨⟨hnone, -⟩, -⟩ | ⟨hfree, -, -⟩
    · exact .inr (.inl ⟨⟨ha.1, hb.trans ha.2⟩, ho⟩)
    · rw [ha.2] at hnone
      cases hnone
    · rw [(isDirAt_node? u l).2 ha.2] at hfree
      cases hfree
  · rcases b l with hb | ⟨⟨hnone, -⟩, -⟩ | ⟨-, hb, ho'⟩
    · exact .inr (.inr ⟨hfree, ⟨bytes, x, hb.trans ha⟩, ho⟩)
    · rw [ha] at hnone
      cases hnone
    · exact .inr (.inr ⟨hfree, hb, ho'⟩)

theorem mono (a : Extends outs cwd t u) (h : outs ⊆ outs') : Extends outs' cwd t u := by
  intro l
  rcases a l with ha | ⟨ha, o, ho, hl⟩ | ⟨hfree, ha, o, ho, hl⟩
  · exact .inl ha
  · exact .inr (.inl ⟨ha, o, h ho, hl⟩)
  · exact .inr (.inr ⟨hfree, ha, o, h ho, hl⟩)

/-- Nothing is lost. -/
theorem keeps (a : Extends outs cwd t u) : Keeps t u where
  dirs l hd := by
    rcases a l with ha | ⟨ha, -⟩ | ⟨hfree, -⟩
    · rw [isDirAt, ha]
      exact hd
    · exact (isDirAt_node? u l).2 ha.2
    · rw [hd] at hfree
      cases hfree
  nodes l hn := by
    rcases a l with ha | ⟨ha, -⟩ | ⟨-, ⟨bytes, x, ha⟩, -⟩
    · rwa [ha]
    · rw [ha.2]
      rfl
    · rw [ha]
      rfl

/-- Where something stands and no output belongs, all is as it was. -/
theorem node?_eq (a : Extends outs cwd t u) (there : (t.node? l).isSome = true)
    (off : ∀ o ∈ outs, l ≠ o.locate cwd) : u.node? l = t.node? l := by
  rcases a l with ha | ⟨⟨hnone, -⟩, -⟩ | ⟨-, -, o, ho, hl⟩
  · exact ha
  · rw [hnone] at there
    cases there
  · exact absurd hl (off o ho)

/-- Off the places of outputs and the ways to them all is as it was. -/
theorem node?_same (a : Extends outs cwd t u) (off : ∀ o ∈ outs, l ≠ o.locate cwd)
    (off_way : ∀ o ∈ outs, l ∉ o.dirWay cwd) : u.node? l = t.node? l := by
  rcases a l with ha | ⟨-, o, ho, hl⟩ | ⟨-, -, o, ho, hl⟩
  · exact ha
  · exact absurd hl (off_way o ho)
  · exact absurd hl (off o ho)

/-- What is written somewhere is a file from then on. -/
theorem file (a : Extends outs cwd t u) (h : (∃ bytes x, t.node? l = some (.file bytes x))) :
    ∃ bytes x, u.node? l = some (.file bytes x) := by
  obtain ⟨bytes, x, h⟩ := h
  rcases a l with ha | ⟨⟨hnone, -⟩, -⟩ | ⟨-, ha, -⟩
  · exact ⟨bytes, x, ha.trans h⟩
  · rw [hnone] at h
    cases h
  · exact ha

/-- Where there is a directory in the end, there was one, or nothing. -/
theorem same_or_gains (a : Extends outs cwd t u) (b : Extends outs cwd u v)
    (dir : v.isDirAt l = true) : u.node? l = t.node? l ∨ Gains t u l := by
  rcases a l with ha | ⟨ha, -⟩ | ⟨-, ha, -⟩
  · exact .inl ha
  · exact .inr ha
  · obtain ⟨bytes, x, hb⟩ := b.file ha
    rw [isDirAt_node?, hb] at dir
    cases dir

end Extends

theorem AddsDirs.extends (a : AddsDirs (o.dirWay cwd) t u) : Extends [o] cwd t u := by
  intro l
  rcases a l with ha | ⟨hl, ha⟩
  · exact .inl ha
  · exact .inr (.inl ⟨ha, o, List.mem_singleton.2 rfl, hl⟩)

/-- From `t` to `u` an output was written, and nothing else was changed. -/
structure WroteOutput (cwd : Location) (o : Path) (t u : FileTree) : Prop where
  file : u.isFile cwd o = true
  /-- No file can be written where a directory is. -/
  free : t.isDirAt (o.locate cwd) = false
  elsewhere : ∀ l, l ≠ o.locate cwd → u.node? l = t.node? l

theorem node?_of_isFile (h : u.isFile cwd o = true) :
    ∃ bytes x, u.node? (o.locate cwd) = some (.file bytes x) := by
  unfold isFile at h
  cases ha : u.at? cwd o with
  | none => simp [ha] at h
  | some n =>
    rw [at?_some ha]
    cases n with
    | dir => simp [ha, Node.isFile] at h
    | file bytes x => exact ⟨bytes, x, rfl⟩

theorem WroteOutput.of_writeFile {bytes : ByteArray} (h : t.writeFile cwd o bytes = .ok u) :
    WroteOutput cwd o t u := by
  obtain ⟨hu, -, hfree⟩ := writeFile_ok h
  refine ⟨?_, hfree, fun l hl => ?_⟩
  · unfold isFile at?
    simp only [resolve_of_writeFile h, node?_of_writeFile h]
    rfl
  · rw [hu, node?_writeAt, if_neg fun h => hl h.2]

theorem WroteOutput.extends (w : WroteOutput cwd o t u) : Extends [o] cwd t u := by
  intro l
  by_cases hl : l = o.locate cwd
  · subst hl
    exact .inr (.inr ⟨w.free, node?_of_isFile w.file, o, List.mem_singleton.2 rfl, rfl⟩)
  · exact .inl (w.elsewhere l hl)

end FileTree

open FileTree

/-- Saving the cache, be it that it fails, adds its file and directories at most. -/
theorem FingerprintCache.Saves.extends {cwd : Location} {p : Path} {cache : FingerprintCache}
    {t u : FileTree} {r : Except Failure Unit} (s : FingerprintCache.Saves cwd p cache t r u) :
    Extends [p] cwd t u := by
  rcases s.dirs_or_file with dirs | ⟨t₁, bytes, dirs, file⟩
  · exact dirs.extends
  · exact dirs.extends.trans (WroteOutput.of_writeFile file).extends

/-! ### Processes in order -/

/-- A process that was started on the files `v` has written its output, and nothing else,
    if it exited with 0, and has changed nothing if not. -/
def TidyRun (cwd : Location) (o : Path) (v : FileTree)
    (r : Except HostFault Completed × FileTree) : Prop :=
  (exitsZero r.1 = true → WroteOutput cwd o v r.2) ∧
    (exitsZero r.1 = false → ∀ l, r.2.node? l = v.node? l)

theorem TidyRun.elsewhere {cwd : Location} {o : Path} {v : FileTree}
    {r : Except HostFault Completed × FileTree} (tidy : TidyRun cwd o v r) {l : Location}
    (hl : l ≠ o.locate cwd) : r.2.node? l = v.node? l := by
  cases hexit : exitsZero r.1 with
  | true => exact (tidy.1 hexit).elsewhere l hl
  | false => exact tidy.2 hexit l

/-- The processes of a plan are in order, whatever files they are started on. -/
structure TidyTools (env : Environment) (c : BuildContext) (plan : BuildPlan) : Prop where
  compile : ∀ s ∈ plan.compileSteps, ∀ v, TidyRun env.cwd s.output v (env.run v (c.compileCall s))
  link : ∀ s ∈ plan.linkSteps, ∀ v, TidyRun env.cwd s.output v (env.run v (c.linkCall s))

theorem FileTree.AddsDirs.of_prepare {cwd : Location} {o : Path} {t v u : FileTree}
    {e : Except Failure Unit} (dir : t.prepare cwd o = (e, v)) (same : ∀ l, u.node? l = v.node? l) :
    AddsDirs (o.dirWay cwd) t u := by
  have adds := t.prepare_adds cwd o
  rw [dir] at adds
  intro l
  rw [same]
  exact adds l

/-! ### From turn to turn -/

/-- Turns that follow one another from the files `t` to the files `u`. -/
inductive Chained {σ ρ : Type} : FileTree → List (Turn σ ρ) → FileTree → Prop where
  | nil (t : FileTree) : Chained t [] t
  | cons (turn : Turn σ ρ) {turns : List (Turn σ ρ)} {u : FileTree}
    (later : Chained turn.after turns u) : Chained turn.files (turn :: turns) u

namespace Chained

variable {σ ρ : Type} {t u : FileTree} {turns : List (Turn σ ρ)} {R : FileTree → FileTree → Prop}

/-- What every turn does, the whole run does, if it composes. -/
theorem whole (h : Chained t turns u) (refl : ∀ t, R t t)
    (trans : ∀ {t u v}, R t u → R u v → R t v) (each : ∀ turn ∈ turns, R turn.files turn.after) :
    R t u := by
  induction h with
  | nil t => exact refl t
  | cons turn later ih =>
    exact trans (each turn List.mem_cons_self)
      (ih fun turn' hturn => each turn' (List.mem_cons_of_mem _ hturn))

/-- The same for the run before and the run after a turn. -/
theorem around (h : Chained t turns u) (refl : ∀ t, R t t)
    (trans : ∀ {t u v}, R t u → R u v → R t v) (each : ∀ turn ∈ turns, R turn.files turn.after)
    {turn : Turn σ ρ} (ht : turn ∈ turns) : R t turn.files ∧ R turn.after u := by
  induction h with
  | nil t => cases ht
  | cons first later ih =>
    have heach := fun turn' hturn => each turn' (List.mem_cons_of_mem first hturn)
    rcases List.mem_cons.1 ht with rfl | ht
    · exact ⟨refl _, later.whole refl trans heach⟩
    · obtain ⟨hbefore, hafter⟩ := ih heach ht
      exact ⟨trans (each first List.mem_cons_self) hbefore, hafter⟩

/-- What is at the place of one turn is changed by this turn only. -/
theorem node?_around (place : σ → Location) {l : Location} (h : Chained t turns u)
    (distinct : (turns.map fun turn => place turn.step).Nodup)
    (elsewhere : ∀ turn ∈ turns, place turn.step ≠ l → turn.after.node? l = turn.files.node? l)
    {turn : Turn σ ρ} (ht : turn ∈ turns) (hl : place turn.step = l) :
    turn.files.node? l = t.node? l ∧ u.node? l = turn.after.node? l := by
  induction h with
  | nil t => cases ht
  | @cons first turns u later ih =>
    obtain ⟨hnot, hrest⟩ := List.nodup_cons.1 distinct
    rcases List.mem_cons.1 ht with rfl | ht
    · refine ⟨rfl, later.whole (R := fun t u => u.node? l = t.node? l) (fun _ => rfl)
        (fun a b => b.trans a) fun turn' hturn' => ?_⟩
      refine elsewhere turn' (List.mem_cons_of_mem _ hturn') fun heq => hnot ?_
      exact List.mem_map.2 ⟨turn', hturn', heq.trans hl.symm⟩
    · have hfirst : place first.step ≠ l := fun heq =>
        hnot (List.mem_map.2 ⟨turn, ht, hl.trans heq.symm⟩)
      obtain ⟨hbefore, hafter⟩ :=
        ih hrest (fun turn' hturn' => elsewhere turn' (List.mem_cons_of_mem _ hturn')) ht
      exact ⟨hbefore.trans (elsewhere first List.mem_cons_self hfirst), hafter⟩

end Chained

section

variable {env : Environment} {c : BuildContext} {cache now : FingerprintCache} {t u : FileTree}
  {procs : List Invocation}

theorem CompilesAll.chained {ss : List CompileStep} {turns : List CompileTurn}
    (all : CompilesAll env c cache t ss turns u procs) : Chained t turns u := by
  induction all with
  | nil t => exact .nil t
  | cons first later ih => exact .cons ⟨_, _, _, _⟩ ih

theorem LinksAll.chained {rebuilt : List String} {ss : List LinkStep} {links : List LinkTurn}
    (all : LinksAll env c rebuilt cache t ss links u procs) : Chained t links u := by
  induction all with
  | nil cache t => exact .nil t
  | failed first => exact .cons ⟨_, _, _, _⟩ (.nil _)
  | cons first later ih => exact .cons ⟨_, _, _, _⟩ ih

/-! ### Turns in order -/

/-- Every process that succeeded wrote its output and nothing else; where a step failed,
    at most directories were made. -/
structure InOrder (cwd : Location) (turns : List CompileTurn) (links : List LinkTurn) : Prop where
  compiled : ∀ turn ∈ turns, ∀ d, turn.result = .ok d → d.fresh = false →
    WroteOutput cwd turn.step.output (turn.files.prepare cwd turn.step.output).2 turn.after
  notCompiled : ∀ turn ∈ turns, ∀ e, turn.result = .error e →
    AddsDirs (turn.step.output.dirWay cwd) turn.files turn.after
  linked : ∀ turn ∈ links, ∀ a now, turn.result = .ok (a, now) → a.fresh = false →
    WroteOutput cwd turn.step.output (turn.files.prepare cwd turn.step.output).2 turn.after
  notLinked : ∀ turn ∈ links, ∀ e, turn.result = .error e →
    AddsDirs (turn.step.output.dirWay cwd) turn.files turn.after

theorem InOrder.compiles {cwd : Location} {turns : List CompileTurn} {links : List LinkTurn}
    (ord : InOrder cwd turns links) : InOrder cwd turns [] where
  compiled := ord.compiled
  notCompiled := ord.notCompiled
  linked _ h := by cases h
  notLinked _ h := by cases h

/-- A step that is carried out well. -/
theorem FileTree.WroteOutput.extends_prepared {cwd : Location} {o : Path}
    (w : WroteOutput cwd o (t.prepare cwd o).2 u) : Extends [o] cwd t u :=
  (prepare_adds t cwd o).extends.trans w.extends

variable {s : CompileStep} {r : Except Failure Compiled}

/-- A compile step that came out well left its object. -/
theorem Compiles.found {d : Compiled} (h : Compiles env c cache s t (.ok d) u procs)
    (wrote : d.fresh = false → WroteOutput env.cwd s.output (t.prepare env.cwd s.output).2 u) :
    u.pathExists env.cwd s.output = true ∧ Extends [s.output] env.cwd t u := by
  cases h with
  | fresh inputs fresh =>
    rw [FingerprintCache.objectFresh, Bool.and_eq_true] at fresh
    exact ⟨fresh.1, .refl _ _ t⟩
  | succeeded => exact ⟨pathExists_of_isFile (wrote rfl).file, (wrote rfl).extends_prepared⟩

/-- A compile step of which a process was run left what the process wrote. -/
theorem Compiles.wrote {d : Compiled} (h : Compiles env c cache s t (.ok d) u procs)
    (writes : ∀ v, exitsZero (env.run v (c.compileCall s)).1 = true →
      WroteOutput env.cwd s.output v (env.run v (c.compileCall s)).2) (ran : d.fresh = false) :
    WroteOutput env.cwd s.output (t.prepare env.cwd s.output).2 u := by
  cases h with
  | fresh => cases ran
  | succeeded inputs stale dir run exit =>
    have hrun := writes (t.prepare env.cwd s.output).2
    rw [dir, run] at hrun
    rw [dir]
    exact hrun exit

/-- A compile step that failed made directories at most. -/
theorem Compiles.addsDirs {e : Failure} (h : Compiles env c cache s t (.error e) u procs)
    (tidy : ∀ v, TidyRun env.cwd s.output v (env.run v (c.compileCall s))) :
    AddsDirs (s.output.dirWay env.cwd) t u := by
  cases h with
  | unreadable => exact .refl _ t
  | blocked inputs stale dir => exact .of_prepare dir fun _ => rfl
  | failed inputs stale dir run exit =>
    have hrun := tidy (t.prepare env.cwd s.output).2
    rw [dir, run] at hrun
    exact .of_prepare dir (hrun.2 exit)

variable {l : LinkStep} {rebuilt : Bool}

theorem Links.found {a : Artifact} (h : Links env c cache rebuilt l t (.ok (a, now)) u procs)
    (wrote : a.fresh = false → WroteOutput env.cwd l.output (t.prepare env.cwd l.output).2 u) :
    u.pathExists env.cwd l.output = true ∧ Extends [l.output] env.cwd t u := by
  cases h with
  | fresh inputs fresh =>
    simp only [FingerprintCache.linkFresh, FingerprintCache.moduleFresh, Bool.and_eq_true] at fresh
    exact ⟨fresh.2.1, .refl _ _ t⟩
  | succeeded => exact ⟨pathExists_of_isFile (wrote rfl).file, (wrote rfl).extends_prepared⟩

theorem Links.wrote {a : Artifact} (h : Links env c cache rebuilt l t (.ok (a, now)) u procs)
    (writes : ∀ v, exitsZero (env.run v (c.linkCall l)).1 = true →
      WroteOutput env.cwd l.output v (env.run v (c.linkCall l)).2) (ran : a.fresh = false) :
    WroteOutput env.cwd l.output (t.prepare env.cwd l.output).2 u := by
  cases h with
  | fresh => cases ran
  | succeeded inputs stale dir run exit =>
    have hrun := writes (t.prepare env.cwd l.output).2
    rw [dir, run] at hrun
    rw [dir]
    exact hrun exit

theorem Links.addsDirs {e : Failure} (h : Links env c cache rebuilt l t (.error e) u procs)
    (tidy : ∀ v, TidyRun env.cwd l.output v (env.run v (c.linkCall l))) :
    AddsDirs (l.output.dirWay env.cwd) t u := by
  cases h with
  | unreadable => exact .refl _ t
  | blocked inputs stale dir => exact .of_prepare dir fun _ => rfl
  | failed inputs stale dir run exit =>
    have hrun := tidy (t.prepare env.cwd l.output).2
    rw [dir, run] at hrun
    exact .of_prepare dir (hrun.2 exit)

/-- A compile step whose object is up to date runs nothing and changes nothing. -/
theorem Compiles.of_fresh {i : CompileInputs} (h : Compiles env c cache s t r u procs)
    (inputs : CompileInputs.ofStep t env.cwd c.root s = .ok i)
    (fresh : cache.objectFresh t env.cwd s.output (c.compileNow s i) = true) :
    r = .ok ⟨c.compileNow s i, true⟩ ∧ u = t ∧ procs = [] := by
  have hstale {j : CompileInputs} (hj : CompileInputs.ofStep t env.cwd c.root s = .ok j)
      (stale : cache.objectFresh t env.cwd s.output (c.compileNow s j) = false) : False := by
    rw [← Except.ok.inj (inputs.symm.trans hj), fresh] at stale
    cases stale
  cases h with
  | unreadable hj =>
    rw [inputs] at hj
    cases hj
  | fresh hj =>
    rw [Except.ok.inj (inputs.symm.trans hj)]
    exact ⟨rfl, rfl, rfl⟩
  | blocked hj stale => exact (hstale hj stale).elim
  | succeeded hj stale => exact (hstale hj stale).elim
  | failed hj stale => exact (hstale hj stale).elim

/-- A link step whose module is up to date runs nothing and changes nothing. -/
theorem Links.of_fresh {i : LinkInputs} {r : Except Failure (Artifact × FingerprintCache)}
    (h : Links env c cache rebuilt l t r u procs)
    (inputs : LinkInputs.ofStep t env.cwd l = .ok i)
    (fresh : cache.linkFresh t env.cwd rebuilt l i = true) :
    r = .ok (l.artifact true, cache.recordLink l.target (i.fingerprint l)) ∧ u = t ∧ procs = [] := by
  have hstale {j : LinkInputs} (hj : LinkInputs.ofStep t env.cwd l = .ok j)
      (stale : cache.linkFresh t env.cwd rebuilt l j = false) : False := by
    rw [← Except.ok.inj (inputs.symm.trans hj), fresh] at stale
    cases stale
  cases h with
  | unreadable hj =>
    rw [inputs] at hj
    cases hj
  | fresh hj =>
    rw [Except.ok.inj (inputs.symm.trans hj)]
    exact ⟨rfl, rfl, rfl⟩
  | blocked hj stale => exact (hstale hj stale).elim
  | succeeded hj stale => exact (hstale hj stale).elim
  | failed hj stale => exact (hstale hj stale).elim

/-! ### Runs in order -/

/-- Every turn is the turn of a step that is carried out. -/
theorem LinksAll.turn {ss : List LinkStep} {links : List LinkTurn} {names : List String}
    (all : LinksAll env c names cache t ss links u procs) {turn : LinkTurn} (ht : turn ∈ links) :
    ∃ now procs, Links env c now (names.contains turn.step.target) turn.step turn.files turn.result
        turn.after procs ∧ ((ss.map LinkStep.target).Nodup →
          now.link.get? turn.step.target = cache.link.get? turn.step.target) := by
  induction all with
  | nil cache t => cases ht
  | failed first =>
    obtain rfl := List.mem_singleton.1 ht
    exact ⟨_, _, first, fun _ => rfl⟩
  | @cons cache cache₁ s ss t t₁ t₂ a turns procs procs' first later ih =>
    rcases List.mem_cons.1 ht with rfl | ht
    · exact ⟨_, _, first, fun _ => rfl⟩
    · obtain ⟨now, procs₁, hlinks, hnow⟩ := ih ht
      refine ⟨now, procs₁, hlinks, fun distinct => ?_⟩
      obtain ⟨hnot, hrest⟩ := List.nodup_cons.1 distinct
      have hne : turn.step.target ≠ s.target := by
        intro heq
        exact hnot (heq ▸ List.mem_map.2 ⟨_, later.step_mem ht, rfl⟩)
      obtain ⟨i, -, rfl⟩ := first.reads
      rw [hnow hrest, get?_recordLink_ne cache _ hne]

theorem LinksAll.steps {ss : List LinkStep} {links : List LinkTurn} {names : List String}
    (all : LinksAll env c names cache t ss links u procs) : links.map Turn.step <+: ss := by
  induction all with
  | nil cache t => exact List.nil_prefix
  | failed first => exact List.cons_prefix_cons.2 ⟨rfl, List.nil_prefix⟩
  | cons first later ih => exact List.cons_prefix_cons.2 ⟨rfl, ih⟩

variable {turns : List CompileTurn} {links : List LinkTurn}

theorem CompilesAll.step_mem {ss : List CompileStep}
    (all : CompilesAll env c cache t ss turns u procs) {turn : CompileTurn} (ht : turn ∈ turns) :
    turn.step ∈ ss := by
  rw [← all.steps]
  exact List.mem_map.2 ⟨turn, ht, rfl⟩

theorem InOrder.compile {ss : List CompileStep} (ord : InOrder env.cwd turns links)
    (all : CompilesAll env c cache t ss turns u procs) {turn : CompileTurn} (ht : turn ∈ turns) :
    Extends [turn.step.output] env.cwd turn.files turn.after := by
  obtain ⟨procs₁, hturn⟩ := all.turn ht
  cases hr : turn.result with
  | error e => exact (ord.notCompiled turn ht e hr).extends
  | ok d =>
    rw [hr] at hturn
    exact (hturn.found fun hd => ord.compiled turn ht d hr hd).2

theorem InOrder.link {ss : List LinkStep} {names : List String} (ord : InOrder env.cwd turns links)
    (all : LinksAll env c names cache t ss links u procs) {turn : LinkTurn} (ht : turn ∈ links) :
    Extends [turn.step.output] env.cwd turn.files turn.after := by
  obtain ⟨now, procs₁, hturn, -⟩ := all.turn ht
  cases hr : turn.result with
  | error e => exact (ord.notLinked turn ht e hr).extends
  | ok d =>
    rw [hr] at hturn
    exact (hturn.found fun hd => ord.linked turn ht d.1 d.2 hr hd).2

end

section

variable {env : Environment} {c : BuildContext} {plan : BuildPlan} {t u : FileTree}
  {turns : List CompileTurn} {links : List LinkTurn} {r : Except Failure (List Artifact)}
  {procs : List Invocation}

/-- Every compile step of a plan has its turn. -/
theorem Executes.compileSteps (ex : Executes env c plan t turns links r u procs) :
    turns.map Turn.step = plan.compileSteps := by
  obtain ⟨compiles, -, -⟩ := ex
  exact compiles.steps

/-- The link steps have their turns in order, though not all of them need have one. -/
theorem Executes.linkSteps (ex : Executes env c plan t turns links r u procs) :
    links.map Turn.step <+: plan.linkSteps := by
  obtain ⟨-, finishes, -⟩ := ex
  cases finishes with
  | stopped first => exact List.nil_prefix
  | linked first all => exact all.steps

end

/-- What a build of a plan writes: objects, modules and the cache. -/
def BuildContext.writes (c : BuildContext) (plan : BuildPlan) : List Path :=
  plan.outputs ++ [c.fingerprintPath]

section

variable {env : Environment} {c : BuildContext} {plan : BuildPlan}

theorem BuildContext.mem_writes {o : Path} :
    o ∈ c.writes plan ↔ o ∈ plan.outputs ∨ o = c.fingerprintPath := by
  rw [writes, List.mem_append, List.mem_singleton]

theorem BuildContext.object_mem_writes {s : CompileStep} (hs : s ∈ plan.compileSteps) :
    s.output ∈ c.writes plan :=
  mem_writes.2 (.inl (BuildPlan.object_mem_outputs hs))

theorem BuildContext.module_mem_writes {s : LinkStep} (hs : s ∈ plan.linkSteps) :
    s.output ∈ c.writes plan :=
  mem_writes.2 (.inl (BuildPlan.module_mem_outputs hs))

theorem BuildContext.cache_mem_writes : c.fingerprintPath ∈ c.writes plan :=
  mem_writes.2 (.inr rfl)

/-- What a build in order comes to, in files: from each turn to the next and from the
    first to the last they were only added to. -/
structure Extending (c : BuildContext) (plan : BuildPlan) (cwd : Location) (t : FileTree)
    (turns : List CompileTurn) (links : List LinkTurn) (u : FileTree) : Prop where
  whole : Extends (c.writes plan) cwd t u
  compile : ∀ turn ∈ turns, Extends (c.writes plan) cwd t turn.files ∧
    Extends (c.writes plan) cwd turn.files turn.after ∧ Extends (c.writes plan) cwd turn.after u
  link : ∀ turn ∈ links, Extends (c.writes plan) cwd t turn.files ∧
    Extends (c.writes plan) cwd turn.files turn.after ∧ Extends (c.writes plan) cwd turn.after u

/-- Compile steps in order add what is among `outs` if their objects are. -/
theorem CompilesAll.extends {cache : FingerprintCache} {t u : FileTree} {ss : List CompileStep}
    {turns : List CompileTurn} {links : List LinkTurn} {procs : List Invocation} {outs : List Path}
    (all : CompilesAll env c cache t ss turns u procs) (ord : InOrder env.cwd turns links)
    (sub : ∀ s ∈ ss, s.output ∈ outs) :
    Extends outs env.cwd t u ∧ ∀ turn ∈ turns, Extends outs env.cwd t turn.files ∧
      Extends outs env.cwd turn.files turn.after ∧ Extends outs env.cwd turn.after u := by
  have heach (turn : CompileTurn) (ht : turn ∈ turns) :
      Extends outs env.cwd turn.files turn.after :=
    (ord.compile all ht).mono (by simpa using sub _ (all.step_mem ht))
  refine ⟨all.chained.whole (.refl _ _) Extends.trans heach, fun turn ht => ?_⟩
  obtain ⟨hbefore, hafter⟩ :=
    all.chained.around (R := Extends outs env.cwd) (.refl _ _) Extends.trans heach ht
  exact ⟨hbefore, heach turn ht, hafter⟩

theorem LinksAll.extends {cache : FingerprintCache} {t u : FileTree} {ss : List LinkStep}
    {turns : List CompileTurn} {links : List LinkTurn} {procs : List Invocation}
    {names : List String} {outs : List Path}
    (all : LinksAll env c names cache t ss links u procs) (ord : InOrder env.cwd turns links)
    (sub : ∀ s ∈ ss, s.output ∈ outs) :
    Extends outs env.cwd t u ∧ ∀ turn ∈ links, Extends outs env.cwd t turn.files ∧
      Extends outs env.cwd turn.files turn.after ∧ Extends outs env.cwd turn.after u := by
  have heach (turn : LinkTurn) (ht : turn ∈ links) :
      Extends outs env.cwd turn.files turn.after :=
    (ord.link all ht).mono (by simpa using sub _ (all.step_mem ht))
  refine ⟨all.chained.whole (.refl _ _) Extends.trans heach, fun turn ht => ?_⟩
  obtain ⟨hbefore, hafter⟩ :=
    all.chained.around (R := Extends outs env.cwd) (.refl _ _) Extends.trans heach ht
  exact ⟨hbefore, heach turn ht, hafter⟩

theorem Executes.extending {t u : FileTree} {turns : List CompileTurn} {links : List LinkTurn}
    {r : Except Failure (List Artifact)} {procs : List Invocation}
    (ex : Executes env c plan t turns links r u procs) (ord : InOrder env.cwd turns links) :
    Extending c plan env.cwd t turns links u := by
  obtain ⟨compiles, finishes, saves⟩ := ex
  obtain ⟨hcompiles, hcompile⟩ := compiles.extends ord
    fun s hs => BuildContext.object_mem_writes hs
  have hsaves : Extends (c.writes plan) env.cwd _ u :=
    saves.extends.mono (by simpa using BuildContext.cache_mem_writes)
  cases finishes with
  | stopped first =>
    refine ⟨hcompiles.trans hsaves, fun turn ht => ?_, fun turn ht => by cases ht⟩
    obtain ⟨hbefore, heach, hafter⟩ := hcompile turn ht
    exact ⟨hbefore, heach, hafter.trans hsaves⟩
  | linked first all =>
    obtain ⟨hlinks, hlink⟩ := all.extends ord
      fun s hs => BuildContext.module_mem_writes hs
    refine ⟨hcompiles.trans (hlinks.trans hsaves), fun turn ht => ?_, fun turn ht => ?_⟩
    · obtain ⟨hbefore, heach, hafter⟩ := hcompile turn ht
      exact ⟨hbefore, heach, hafter.trans (hlinks.trans hsaves)⟩
    · obtain ⟨hbefore, heach, hafter⟩ := hlink turn ht
      exact ⟨hcompiles.trans hbefore, heach, hafter.trans hsaves⟩

/-- A compile step finds the files as they were or added to. -/
theorem Executes.before_compile {t u : FileTree} {turns : List CompileTurn} {links : List LinkTurn}
    {r : Except Failure (List Artifact)} {procs : List Invocation}
    (ex : Executes env c plan t turns links r u procs) (ord : InOrder env.cwd turns [])
    {turn : CompileTurn} (ht : turn ∈ turns) : Extends (c.writes plan) env.cwd t turn.files := by
  obtain ⟨compiles, -, -⟩ := ex
  exact ((compiles.extends ord fun s hs => BuildContext.object_mem_writes hs).2 turn ht).1

/-- The turns of a build are in order if its processes are. -/
theorem Executes.inOrder {t u : FileTree} {turns : List CompileTurn} {links : List LinkTurn}
    {r : Except Failure (List Artifact)} {procs : List Invocation}
    (ex : Executes env c plan t turns links r u procs) (tidy : TidyTools env c plan) :
    InOrder env.cwd turns links := by
  obtain ⟨compiles, finishes, -⟩ := ex
  have hlinks (turn : LinkTurn) (ht : turn ∈ links) : turn.step ∈ plan.linkSteps ∧
      ∃ now names procs, Links env c now names turn.step turn.files turn.result turn.after procs := by
    cases finishes with
    | stopped first => cases ht
    | linked first all =>
      obtain ⟨now, procs, hturn, -⟩ := all.turn ht
      exact ⟨all.step_mem ht, now, _, procs, hturn⟩
  refine ⟨?_, ?_, ?_, ?_⟩
  · intro turn ht d hd hran
    obtain ⟨procs₁, hturn⟩ := compiles.turn ht
    rw [hd] at hturn
    exact hturn.wrote (fun v => (tidy.compile _ (compiles.step_mem ht) v).1) hran
  · intro turn ht e he
    obtain ⟨procs₁, hturn⟩ := compiles.turn ht
    rw [he] at hturn
    exact hturn.addsDirs (tidy.compile _ (compiles.step_mem ht))
  · intro turn ht a now hd hran
    obtain ⟨hstep, now, names, procs, hturn⟩ := hlinks turn ht
    rw [hd] at hturn
    exact hturn.wrote (fun v => (tidy.link _ hstep v).1) hran
  · intro turn ht e he
    obtain ⟨hstep, now, names, procs, hturn⟩ := hlinks turn ht
    rw [he] at hturn
    exact hturn.addsDirs (tidy.link _ hstep)

/-! ### Inputs apart from outputs -/

/-- No file of a list is the source of a compile step or below one of its include directories. -/
def CompileStep.Unread (s : CompileStep) (cwd : Location) (root : Path) (outs : List Path) : Prop :=
  ∀ o ∈ outs, o.locate cwd ≠ (root.join s.source).locate cwd ∧
    ∀ d ∈ s.includeDirs, ¬ (root.join d).locate cwd <+: o.locate cwd

instance (s : CompileStep) (cwd : Location) (root : Path) (outs : List Path) :
    Decidable (s.Unread cwd root outs) :=
  inferInstanceAs (Decidable (∀ _ ∈ outs, _ ∧ _))

/-- No compile step reads what a build of the plan writes: on every extension of the files
    by that, it reads what it reads on the files. -/
def BuildContext.ReadsApart (c : BuildContext) (plan : BuildPlan) (cwd : Location) (t : FileTree) :
    Prop :=
  ∀ s ∈ plan.compileSteps, ∀ u, Extends (c.writes plan) cwd t u →
    CompileInputs.ofStep u cwd c.root s = CompileInputs.ofStep t cwd c.root s

theorem FileTree.Extends.withMade {outs : List Path} {cwd : Location} {t u : FileTree}
    (a : Extends outs cwd t u) : WithMade (· ∈ outs) cwd t u := by
  intro l
  rcases a l with ha | ⟨ha, o, ho, hl⟩ | ⟨-, -, o, ho, hl⟩
  · exact .inl ha
  · exact .inr (.inr ⟨ha, o, ho, hl⟩)
  · exact .inr (.inl ⟨o, ho, hl⟩)

/-- Steps read nothing that is written if what they read is there, and apart from it. -/
theorem BuildContext.readsApart_of_there {cwd : Location} {t : FileTree}
    (there : ∀ s ∈ plan.compileSteps, s.ReadsThere t cwd c.root (· ∈ c.writes plan)) :
    c.ReadsApart plan cwd t :=
  fun s hs _ a => a.withMade.ofStep_eq (there s hs)

end

/-! ### Tools in order -/

namespace Sample

/-- A process of the writing tools that exits with 0 has written its result. -/
theorem writeFile_of_exitsZero {bad : String} {i : Invocation} {p : Path}
    (h : resultOf i.command.args = some p) {v : FileTree}
    (exit : exitsZero (writingRun bad v i).1 = true) :
    v.writeFile [] p "made".toUTF8 = .ok (writingRun bad v i).2 := by
  unfold writingRun at exit ⊢
  split at exit
  · cases exit
  · rename_i hgood
    rw [if_neg hgood]
    rw [h] at exit ⊢
    simp only [] at exit ⊢
    cases hw : v.writeFile [] p "made".toUTF8 with
    | error f =>
      rw [hw] at exit
      cases exit
    | ok u => rfl

theorem tidyRun_writing {bad : String} {i : Invocation} {p : Path}
    (h : resultOf i.command.args = some p) (v : FileTree) :
    TidyRun [] p v (writingRun bad v i) := by
  refine ⟨fun exit => .of_writeFile (writeFile_of_exitsZero h exit), fun exit l => ?_⟩
  unfold writingRun at exit ⊢
  split at exit
  · rename_i hbad
    rw [if_pos hbad]
  · rename_i hgood
    rw [if_neg hgood]
    rw [h] at exit ⊢
    simp only [] at exit ⊢
    cases hw : v.writeFile [] p "made".toUTF8 with
    | error f => rfl
    | ok u =>
      rw [hw] at exit
      cases exit

theorem tidy_writing (bad : String) {c : BuildContext} {plan : BuildPlan}
    (compiles : ∀ s ∈ plan.compileSteps, resultOf s.command.args = some s.output)
    (links : ∀ s ∈ plan.linkSteps, resultOf s.command.args = some s.output) :
    TidyTools (writingEnvironment bad) c plan where
  compile s hs v := tidyRun_writing (i := c.compileCall s) (compiles s hs) v
  link s hs v := tidyRun_writing (i := c.linkCall s) (links s hs) v

end Sample

end GrammarBuild
