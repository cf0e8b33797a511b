import GrammarBuild.Proofs.Growth
import GrammarBuild.Proofs.Headers

/-
  GrammarBuild/Proofs/UnhinderedBuilds.lean
  =========================================
  **Builds that nothing stands in the way of** — every compile step can read its inputs,
  every output can be written, and so can the cache (`Unhindered`).  This stays so while a
  build adds outputs and directories for them (`Unhindered.mono`), so each step comes out
  well whose process works (`Unhindered.compiled`, `Unhindered.linked`), the cache is saved
  (`Unhindered.cacheSaved`), and a build of which all processes work succeeds
  (`Unhindered.succeeds`).
-/

namespace GrammarBuild

open FileTree

/-! ### Places for files -/

namespace FileTree

variable {t u v : FileTree} {cwd l : Location} {o p : Path} {outs : List Path} {rest : List String}
  {n : String}

/-- A file can be written at a path: its directory can be made, and then there is a place
    for it. -/
structure Takes (t : FileTree) (cwd : Location) (p : Path) : Prop where
  dir : (t.prepare cwd p).1 = .ok ()
  place : ∃ l, (t.prepare cwd p).2.placeToWrite cwd p = .ok l

theorem Takes.free (h : t.Takes cwd p) : t.isDirAt (p.locate cwd) = false := by
  obtain ⟨l, hl⟩ := h.place
  obtain rfl := locate_of_placeToWrite hl
  obtain ⟨-, -, -, -, -, -, -, hfree⟩ := placeToWrite_ok hl
  cases hd : t.isDirAt (p.locate cwd) with
  | false => rfl
  | true =>
    rw [(t.prepare_adds cwd p).keeps.dirs _ hd] at hfree
    cases hfree

/-- A descent shows that a file can be written. -/
theorem Takes.of_descend (closed : Closed t) (s : t.Straight cwd o l (rest ++ [n]))
    (parent : o.parent? = some p) (text : checkText p = .ok ())
    (made : (t.descend l rest).1 = .ok ())
    (place : ∃ m, (t.descend l rest).2.placeToWrite cwd o = .ok m) : t.Takes cwd o := by
  have hprepare := prepare_eq_descend s (closed.grounded l rest) parent text
  rw [made] at hprepare
  refine ⟨by rw [hprepare]; rfl, ?_⟩
  rw [hprepare]
  exact place

/-- What can be written still can be when directories were made on the way and none at the
    place. -/
theorem Takes.over (h : t.Takes cwd o) (closed : Closed t) (s : t.Straight cwd o l (rest ++ [n]))
    (k : Keeps t u) (more : ∀ m ∈ o.dirWay cwd, u.node? m = t.node? m ∨ Gains t u m)
    (free : u.isDirAt (o.locate cwd) = false) : u.Takes cwd o := by
  obtain ⟨hdir, halike⟩ := prepare_over more closed s
  obtain ⟨m, hm⟩ := h.place
  obtain rfl := locate_of_placeToWrite hm
  obtain ⟨-, -, -, -, -, -, -, hfree⟩ := placeToWrite_ok hm
  -- where a directory was made in `t`, it is in `u`, too; all else is as it was
  have hkeeps : Keeps (t.prepare cwd o).2 (u.prepare cwd o).2 := by
    refine ⟨fun m hd => ?_, fun m hs => ?_⟩
    · by_cases hg : Gains t (t.prepare cwd o).2 m
      · exact (isDirAt_node? _ _).2 ((halike m).1 hg)
      · rw [isDirAt_node?] at hd ⊢
        rw [(halike m).2 hg]
        rcases t.prepare_adds cwd o m with heq | ⟨-, hnew⟩
        · exact (isDirAt_node? u m).1 (k.dirs m ((isDirAt_node? t m).2 (heq ▸ hd)))
        · exact absurd hnew hg
    · by_cases hg : Gains t (t.prepare cwd o).2 m
      · rw [(halike m).1 hg]
        rfl
      · rw [(halike m).2 hg]
        rcases t.prepare_adds cwd o m with heq | ⟨-, hnew⟩
        · exact k.nodes m (heq ▸ hs)
        · exact absurd hnew hg
  refine ⟨hdir.trans h.dir, _, hkeeps.placeToWrite hm ?_⟩
  have hnot : ¬ Gains t (t.prepare cwd o).2 (o.locate cwd) := by
    rintro ⟨-, hd⟩
    rw [(isDirAt_node? _ _).2 hd] at hfree
    cases hfree
  rw [isDirAt, (halike _).2 hnot]
  exact free

/-- An output can still be written when others were, if none is where it needs a directory,
    and none needs a directory at its place. -/
theorem Extends.takes (a : Extends outs cwd t u) (h : t.Takes cwd o) (closed : Closed t)
    (s : t.Straight cwd o l (rest ++ [n])) (off : ∀ o' ∈ outs, o'.locate cwd ∉ o.dirWay cwd)
    (off_ways : ∀ o' ∈ outs, o.locate cwd ∉ o'.dirWay cwd) : u.Takes cwd o := by
  refine h.over closed s a.keeps (fun m hm => ?_) ?_
  · rcases a m with heq | ⟨hg, -⟩ | ⟨-, -, o', ho', rfl⟩
    · exact .inl heq
    · exact .inr hg
    · exact absurd hm (off o' ho')
  · rcases a (o.locate cwd) with heq | ⟨-, o', ho', hmem⟩ | ⟨-, ⟨bytes, x, hfile⟩, -⟩
    · rw [isDirAt, heq]
      exact h.free
    · exact absurd hmem (off_ways o' ho')
    · rw [isDirAt, hfile]
      rfl

/-- The names in a tree stay plain if those of outputs are. -/
theorem Extends.plainNames (a : Extends outs cwd t u) (plain : t.PlainNames)
    (outputs : ∀ o ∈ outs, ∀ l ∈ o.locate cwd :: o.dirWay cwd, ∀ name ∈ l, PlainName name) :
    u.PlainNames := by
  intro l name hname
  rw [mem_names_iff] at hname
  have hmem : name ∈ l ++ [name] := by simp
  rcases a (l ++ [name]) with heq | ⟨-, o, ho, hl⟩ | ⟨-, -, o, ho, hl⟩
  · rw [heq] at hname
    exact plain l name (mem_names_iff.2 hname)
  · exact outputs o ho _ (List.mem_cons_of_mem _ hl) name hmem
  · rw [hl] at hmem
    exact outputs o ho _ List.mem_cons_self name hmem

/-- A compile step can still read its inputs when outputs were written elsewhere. -/
theorem Extends.reads {root : Path} {s : CompileStep} (a : Extends outs cwd t u)
    (plain : t.PlainNames)
    (outputs : ∀ o ∈ outs, ∀ l ∈ o.locate cwd :: o.dirWay cwd, ∀ name ∈ l, PlainName name)
    (literal : ∀ d ∈ s.includeDirs, (root.join d).Literal)
    (source : t.isFile cwd (root.join s.source) = true)
    (off : ∀ o ∈ outs, o.locate cwd ∉ (root.join s.source).way cwd) :
    ∃ i, CompileInputs.ofStep u cwd root s = .ok i := by
  obtain ⟨bytes, hbytes⟩ := exists_readFile_of_isFile source
  have hliteral : LiteralDirs u cwd (s.includeDirs.map root.join) := fun dir hdir _ => by
    obtain ⟨d, hd, rfl⟩ := List.mem_map.1 hdir
    exact literal d hd
  obtain ⟨headers, hi, -⟩ := CompileInputs.ofStep_eq (a.plainNames plain outputs) hliteral
  rw [a.withMade.readToDigest (pathExists_of_isFile source) off, readToDigest_of_readFile hbytes] at hi
  exact ⟨_, hi⟩

end FileTree

/-- The cache is saved where a file can be written, unless the host refuses it. -/
theorem FingerprintCache.save_of_takes {env : Environment} {h : Host} {p : Path}
    (cache : FingerprintCache) (takes : h.files.Takes env.cwd p)
    (taken : env.refuses (p.locate env.cwd) = none) :
    (cache.save p).runOn env h = (.ok (), { h with
      files := (h.files.prepare env.cwd p).2.writeAt (p.locate env.cwd) cache.write.toUTF8 }) := by
  obtain ⟨l, hl⟩ := takes.place
  obtain rfl := locate_of_placeToWrite hl
  have hdir := takes.dir
  rw [save, Action.runOn_within, Action.writeString_eq_prepareOutput, Action.runOn_bind,
    BuildContext.runOn_prepareOutput]
  rcases hp : h.files.prepare env.cwd p with ⟨r, v⟩
  rw [hp] at hdir hl
  obtain rfl : r = .ok () := hdir
  have hwrite := (Action.runOn_writeText_ok_iff (a := .writingFile p) (h := { h with files := v })).2
    ⟨taken, _, writeFile_of_place hl cache.write.toUTF8, rfl⟩
  simp only [hwrite]
  rfl

/-! ### Failures of steps -/

theorem cacheSaved_inside {α : Type} {a : Activity} (ha : ∀ p, a ≠ .savingFingerprints p) (e : Failure) :
    CacheSaved (.error (e.inside a) : Except Failure α) := by
  intro e' he p hp
  obtain rfl := Except.error.inj he
  exact ha p (Option.some.inj hp)

theorem cacheSaved_ok {α : Type} (a : α) : CacheSaved (.ok a : Except Failure α) := by
  intro e he
  cases he

theorem CacheSaved.of_error {α β : Type} {e : Failure} (h : CacheSaved (.error e : Except Failure α)) :
    CacheSaved (.error e : Except Failure β) := by
  intro e' he
  obtain rfl := Except.error.inj he
  exact h e rfl

theorem cacheSaved_prepare (t : FileTree) (cwd : Location) (o : Path) :
    CacheSaved (t.prepare cwd o).1 := by
  unfold FileTree.prepare
  cases o.parent? with
  | none => exact cacheSaved_ok ()
  | some dir =>
    simp only []
    split
    · exact cacheSaved_ok ()
    · cases (t.createDirs cwd dir).1 with
      | ok _ => exact cacheSaved_ok ()
      | error f => exact cacheSaved_inside (by simp) _

section

variable {env : Environment} {c : BuildContext} {h : Host} {cache : FingerprintCache}

/-- A compile step fails for other reasons than that the cache cannot be saved. -/
theorem BuildContext.cacheSaved_compile (s : CompileStep) :
    CacheSaved ((c.compile cache s).runOn env h).1 := by
  rw [runOn_compile]
  cases CompileInputs.ofStep h.files env.cwd c.root s with
  | error e => exact cacheSaved_inside (by simp) e
  | ok i =>
    simp only []
    split
    · exact cacheSaved_ok _
    rw [runOn_runCompile]
    have hprepare := cacheSaved_prepare h.files env.cwd s.output
    rcases hp : h.files.prepare env.cwd s.output with ⟨r, v⟩
    rw [hp] at hprepare
    cases r with
    | error e => exact hprepare.of_error
    | ok _ =>
      simp only []
      cases checked s.command (env.run v (c.compileCall s)).1 with
      | error e => exact cacheSaved_inside (a := .compiling s.target s.source) (by simp) e
      | ok done => exact cacheSaved_ok _

theorem BuildContext.cacheSaved_compileTurns (ss : List CompileStep) {turn : CompileTurn}
    (ht : turn ∈ c.compileTurns cache env h ss) : CacheSaved turn.result := by
  induction ss generalizing h with
  | nil => cases ht
  | cons s ss ih =>
    rcases List.mem_cons.1 ht with rfl | ht
    · exact cacheSaved_compile s
    · exact ih ht

end

/-! ### Steps that come out well -/

/-- A process exits with 0 wherever its output can be written. -/
def Works (env : Environment) (i : Invocation) (o : Path) : Prop :=
  ∀ v l, v.placeToWrite env.cwd o = .ok l → exitsZero (env.run v i).1 = true

/-- Nothing stands in the way of a plan on the files `t`, nor when there were added outputs
    of `outs` and directories for them. -/
structure Unhindered (env : Environment) (c : BuildContext) (outs : List Path) (plan : BuildPlan)
    (t : FileTree) : Prop where
  reads : ∀ s ∈ plan.compileSteps, ∀ u, Extends outs env.cwd t u →
    ∃ i, CompileInputs.ofStep u env.cwd c.root s = .ok i
  takes : ∀ o ∈ outs, ∀ u, Extends outs env.cwd t u → u.Takes env.cwd o
  outputs : c.writes plan ⊆ outs
  objects : ∀ s ∈ plan.linkSteps, s.objects ⊆ outs
  taken : env.refuses (c.fingerprintPath.locate env.cwd) = none

/-- Objects are linked if no directory stands at the place of any. -/
theorem LinkInputs.exists_ofStep {t : FileTree} {cwd : Location} {s : LinkStep}
    (free : ∀ o ∈ s.objects, t.isDirAt (o.locate cwd) = false) : ∃ i, ofStep t cwd s = .ok i := by
  unfold ofStep
  generalize (Table.empty : LinkInputs) = i
  generalize s.objects = objects at free
  induction objects generalizing i with
  | nil => exact ⟨i, rfl⟩
  | cons o os ih =>
    have hadd : ∃ i', addObject t cwd i o = .ok i' := by
      unfold addObject
      split
      · rename_i found
        obtain ⟨node, hnode⟩ := Option.isSome_iff_exists.1 (node?_of_pathExists found)
        have hfree := free o List.mem_cons_self
        cases node with
        | dir =>
          rw [(isDirAt_node? t _).2 hnode] at hfree
          cases hfree
        | file bytes x => exact ⟨_, by rw [readToDigest_of_file found hnode]; rfl⟩
      · exact ⟨i, rfl⟩
    obtain ⟨i', hi'⟩ := hadd
    rw [List.foldlM_cons, hi']
    exact ih i' fun o' ho' => free o' (List.mem_cons_of_mem o ho')

/-- Link steps that all come out well give artifacts. -/
theorem exists_artifacts {links : List LinkTurn} (linked : ∀ turn ∈ links, ∃ a, turn.result = .ok a) :
    ∃ artifacts, artifactsOf links = .ok artifacts := by
  induction links with
  | nil => exact ⟨[], rfl⟩
  | cons turn links ih =>
    obtain ⟨⟨a, now⟩, ha⟩ := linked turn List.mem_cons_self
    obtain ⟨artifacts, hartifacts⟩ := ih fun turn' ht => linked turn' (List.mem_cons_of_mem _ ht)
    exact ⟨a :: artifacts, by simp only [artifactsOf, ha, hartifacts]; rfl⟩

section

variable {env : Environment} {c : BuildContext} {plan plan' : BuildPlan} {outs : List Path}
  {t u : FileTree} {turns : List CompileTurn} {links : List LinkTurn} {procs : List Invocation}

theorem Unhindered.mono (ready : Unhindered env c outs plan t) (a : Extends outs env.cwd t u) :
    Unhindered env c outs plan u where
  reads s hs v hv := ready.reads s hs v (a.trans hv)
  takes o ho v hv := ready.takes o ho v (a.trans hv)
  outputs := ready.outputs
  objects := ready.objects
  taken := ready.taken

/-- Where nothing stands in the way of a plan, nothing does of a part of it. -/
theorem Unhindered.part (ready : Unhindered env c outs plan t)
    (compiles : plan'.compileSteps ⊆ plan.compileSteps) (links : plan'.linkSteps ⊆ plan.linkSteps) :
    Unhindered env c outs plan' t where
  reads s hs := ready.reads s (compiles hs)
  takes := ready.takes
  outputs o ho := ready.outputs <| by
    simp only [BuildContext.mem_writes, BuildPlan.mem_outputs] at ho ⊢
    rcases ho with (⟨s, hs, rfl⟩ | ⟨s, hs, rfl⟩) | rfl
    · exact .inl (.inl ⟨s, compiles hs, rfl⟩)
    · exact .inl (.inr ⟨s, links hs, rfl⟩)
    · exact .inr rfl
  objects s hs := ready.objects s (links hs)
  taken := ready.taken

/-- Every turn of a build is that of a step that starts from the cache's file. -/
theorem Executes.compileTurn {r : Except Failure (List Artifact)}
    (ex : Executes env c plan t turns links r u procs) {turn : CompileTurn} (ht : turn ∈ turns) :
    turn.step ∈ plan.compileSteps ∧ ∃ procs, Compiles env c (.ofFile t env.cwd c.fingerprintPath)
      turn.step turn.files turn.result turn.after procs := by
  obtain ⟨compiles, -, -⟩ := ex
  exact ⟨compiles.step_mem ht, compiles.turn ht⟩

/-- A compile step comes out well if its compiler works. -/
theorem Compiles.ok_of_works {cache : FingerprintCache} {s : CompileStep} {r : Except Failure Compiled}
    (h : Compiles env c cache s t r u procs) (reads : ∃ i, CompileInputs.ofStep t env.cwd c.root s = .ok i)
    (takes : t.Takes env.cwd s.output) (works : Works env (c.compileCall s) s.output) :
    ∃ d, r = .ok d := by
  obtain ⟨i, hi⟩ := reads
  obtain ⟨l, hl⟩ := takes.place
  cases h with
  | unreadable inputs =>
    rw [hi] at inputs
    cases inputs
  | fresh => exact ⟨_, rfl⟩
  | blocked _ _ dir =>
    have hdir := takes.dir
    rw [dir] at hdir
    cases hdir
  | succeeded => exact ⟨_, rfl⟩
  | failed _ _ dir run exit =>
    rw [dir] at hl
    have hexit := works _ l hl
    rw [run, exit] at hexit
    cases hexit

/-- A step that was carried out without being up to date was compiled. -/
theorem Compiles.compiled_of_stale {cache : FingerprintCache} {s : CompileStep} {d : Compiled}
    (h : Compiles env c cache s t (.ok d) u procs)
    (stale : ∀ i, CompileInputs.ofStep t env.cwd c.root s = .ok i →
      cache.objectFresh t env.cwd s.output (c.compileNow s i) = false) : d.fresh = false := by
  cases h with
  | fresh inputs fresh =>
    rw [stale _ inputs] at fresh
    cases fresh
  | succeeded => rfl

/-- One that is not recorded does not if its compiler never exits with 0. -/
theorem Compiles.error_of_broken {cache : FingerprintCache} {s : CompileStep}
    {r : Except Failure Compiled} (h : Compiles env c cache s t r u procs)
    (unrecorded : cache.compile.get? s.output = none)
    (broken : ∀ v, exitsZero (env.run v (c.compileCall s)).1 = false) : ∃ e, r = .error e := by
  cases h with
  | unreadable => exact ⟨_, rfl⟩
  | fresh _ fresh =>
    rw [FingerprintCache.objectFresh, unrecorded, Option.any_none, Bool.and_false] at fresh
    cases fresh
  | blocked => exact ⟨_, rfl⟩
  | @succeeded i t₁ t₂ r _ _ _ run exit =>
    have hexit := broken t₁
    rw [run, exit] at hexit
    cases hexit
  | failed => exact ⟨_, rfl⟩

/-- A link step comes out well if its linker works. -/
theorem Links.ok_of_works {cache : FingerprintCache} {rebuilt : Bool} {s : LinkStep}
    {r : Except Failure (Artifact × FingerprintCache)} (h : Links env c cache rebuilt s t r u procs)
    (reads : ∃ i, LinkInputs.ofStep t env.cwd s = .ok i)
    (takes : t.Takes env.cwd s.output) (works : Works env (c.linkCall s) s.output) :
    ∃ a, r = .ok a := by
  obtain ⟨i, hi⟩ := reads
  obtain ⟨l, hl⟩ := takes.place
  cases h with
  | unreadable inputs =>
    rw [hi] at inputs
    cases inputs
  | fresh => exact ⟨_, rfl⟩
  | blocked _ _ dir =>
    have hdir := takes.dir
    rw [dir] at hdir
    cases hdir
  | succeeded => exact ⟨_, rfl⟩
  | failed _ _ dir run exit =>
    rw [dir] at hl
    have hexit := works _ l hl
    rw [run, exit] at hexit
    cases hexit

namespace Unhindered

variable {r : Except Failure (List Artifact)} (ready : Unhindered env c outs plan t)
  (ex : Executes env c plan t turns links r u procs) (ord : InOrder env.cwd turns links)

include ready ex ord

theorem compiled {turn : CompileTurn} (ht : turn ∈ turns)
    (works : Works env (c.compileCall turn.step) turn.step.output) : ∃ d, turn.result = .ok d := by
  have hext := (ex.before_compile ord.compiles ht).mono ready.outputs
  obtain ⟨hs, procs₁, hturn⟩ := ex.compileTurn ht
  exact hturn.ok_of_works (ready.reads _ hs _ hext)
    (ready.takes _ (ready.outputs (BuildContext.object_mem_writes hs)) _ hext) works

theorem linked {turn : LinkTurn} (ht : turn ∈ links)
    (works : Works env (c.linkCall turn.step) turn.step.output) : ∃ a, turn.result = .ok a := by
  obtain ⟨-, -, hlink⟩ := ex.extending ord
  have hext := (hlink turn ht).1.mono ready.outputs
  obtain ⟨-, finishes, -⟩ := ex
  cases finishes with
  | stopped first => cases ht
  | linked first all =>
    obtain ⟨now, procs₁, hturn, -⟩ := all.turn ht
    have hs := all.step_mem ht
    refine hturn.ok_of_works (LinkInputs.exists_ofStep fun o ho => ?_)
      (ready.takes _ (ready.outputs (BuildContext.module_mem_writes hs)) _ hext) works
    exact (ready.takes o (ready.objects _ hs ho) _ hext).free

/-- The cache is saved, and if all compile steps come out well, so does the build. -/
theorem course (failures : ∀ turn ∈ turns, CacheSaved turn.result)
    (linkers : ∀ s ∈ plan.linkSteps, Works env (c.linkCall s) s.output) :
    CacheSaved r ∧ ((∀ turn ∈ turns, ∃ d, turn.result = .ok d) → ∃ artifacts, r = .ok artifacts) := by
  have hlinked (turn : LinkTurn) (ht : turn ∈ links) : ∃ a, turn.result = .ok a :=
    ready.linked ex ord ht (linkers _ (ex.linkSteps.subset (List.mem_map.2 ⟨turn, ht, rfl⟩)))
  cases ex with
  | @mk t₁ t₂ t₃ r saved procs procs' compiles finishes saves ran =>
    have hcompiled : Extends (c.writes plan) env.cwd t t₁ :=
      (compiles.extends ord fun s hs => BuildContext.object_mem_writes hs).1
    have hfinished : Extends (c.writes plan) env.cwd t₁ t₂ := by
      cases finishes with
      | stopped first => exact .refl _ _ _
      | linked first all => exact (all.extends ord fun s hs => BuildContext.module_mem_writes hs).1
    have hsaved : saved = .ok () := by
      obtain ⟨h₁, rfl, rfl⟩ := ran
      rw [FingerprintCache.save_of_takes _ (ready.takes _ (ready.outputs BuildContext.cache_mem_writes)
        _ ((hcompiled.trans hfinished).mono ready.outputs)) ready.taken]
    rw [hsaved]
    cases finishes with
    | stopped first =>
      obtain ⟨turn, ht, hturn⟩ := exists_of_firstFailure? first
      have hfailure := failures turn ht
      rw [hturn] at hfailure
      refine ⟨hfailure.of_error, fun compiled => ?_⟩
      obtain ⟨d, hd⟩ := compiled turn ht
      rw [hturn] at hd
      cases hd
    | linked first all =>
      obtain ⟨artifacts, hartifacts⟩ := exists_artifacts hlinked
      rw [hartifacts]
      exact ⟨cacheSaved_ok _, fun _ => ⟨artifacts, rfl⟩⟩

end Unhindered

/-- A build of tools in order adds its outputs. -/
theorem TidyTools.extends {h : Host} (tidy : TidyTools env c plan) (outputs : c.writes plan ⊆ outs) :
    Extends outs env.cwd h.files ((c.execute plan).runOn env h).2.files := by
  obtain ⟨procs, ex, -⟩ := c.executes_runOn plan env h
  exact (ex.extending (ex.inOrder tidy)).whole.mono outputs

variable {h : Host} (ready : Unhindered env c outs plan h.files) (tidy : TidyTools env c plan)
  (linkers : ∀ s ∈ plan.linkSteps, Works env (c.linkCall s) s.output)

include ready tidy linkers

/-- A build that nothing stands in the way of saves its cache, whatever its compilers do. -/
theorem Unhindered.cacheSaved : CacheSaved ((c.execute plan).runOn env h).1 := by
  obtain ⟨procs, ex, -⟩ := c.executes_runOn plan env h
  exact (ready.course ex (ex.inOrder tidy)
    (fun turn ht => c.cacheSaved_compileTurns plan.compileSteps ht) linkers).1

/-- It succeeds if all its processes work. -/
theorem Unhindered.succeeds (compilers : ∀ s ∈ plan.compileSteps, Works env (c.compileCall s) s.output) :
    ∃ artifacts, ((c.execute plan).runOn env h).1 = .ok artifacts := by
  obtain ⟨procs, ex, -⟩ := c.executes_runOn plan env h
  have ord := ex.inOrder tidy
  refine (ready.course ex ord (fun turn ht => c.cacheSaved_compileTurns plan.compileSteps ht)
    linkers).2 fun turn ht => ready.compiled ex ord ht (compilers _ ?_)
  rw [← ex.compileSteps]
  exact List.mem_map.2 ⟨turn, ht, rfl⟩

end

/-! ### Room for outputs -/

namespace Sample

theorem works_writing {bad : String} {i : Invocation} {o : Path} (good : bad ∉ i.command.args)
    (h : resultOf i.command.args = some o) : Works (writingEnvironment bad) i o := by
  intro v l hl
  show exitsZero (writingRun bad v i).1 = true
  unfold writingRun
  rw [if_neg good, h]
  have hwrite : v.writeFile [] o "made".toUTF8 = .ok (v.writeAt l "made".toUTF8) :=
    writeFile_of_place hl _
  simp only [hwrite]
  rfl

theorem exitsZero_writing {bad : String} {i : Invocation} (h : bad ∈ i.command.args) (v : FileTree) :
    exitsZero ((writingEnvironment bad).run v i).1 = false := by
  show exitsZero (writingRun bad v i).1 = false
  unfold writingRun
  rw [if_pos h]
  rfl

/-- In a build that starts without a cache, exactly those steps fail that are called `bad`. -/
theorem isOk_writing {bad : String} {c : BuildContext} {outs : List Path} {plan : BuildPlan} {h : Host}
    (ready : Unhindered (writingEnvironment bad) c outs plan h.files)
    (tidy : TidyTools (writingEnvironment bad) c plan)
    (results : ∀ s ∈ plan.compileSteps, resultOf s.command.args = some s.output)
    (first : c.cacheBefore (writingEnvironment bad) h = {}) {turn : CompileTurn}
    (ht : turn ∈ c.planCompileTurns plan (writingEnvironment bad) h) :
    turn.result.isOk = decide (bad ∉ turn.step.command.args) := by
  obtain ⟨procs, ex, -⟩ := c.executes_runOn plan (writingEnvironment bad) h
  obtain ⟨hs, procs₁, hturn⟩ := ex.compileTurn ht
  by_cases hbad : bad ∈ turn.step.command.args
  · have hcache : FingerprintCache.ofFile h.files (writingEnvironment bad).cwd c.fingerprintPath = {} := first
    rw [hcache] at hturn
    obtain ⟨e, he⟩ := hturn.error_of_broken rfl (exitsZero_writing hbad)
    rw [he, decide_eq_false (not_not_intro hbad)]
    rfl
  · obtain ⟨d, hd⟩ := ready.compiled ex (ex.inOrder tidy) ht (works_writing hbad (results _ hs))
    rw [hd, decide_eq_true hbad]
    rfl

/-- There is room in the project for an output: a descent makes its directory. -/
def Fits (o : Path) : Prop :=
  (o.names = "p" :: (o.names.tail.dropLast ++ o.names.getLast?.toList) ∧ o.isAbsolute = true ∧
    ".." ∉ o.names) ∧
  (o.parent?.map fun p => (checkText p).isOk) = some true ∧
  (sources.descend ["p"] o.names.tail.dropLast).1.isOk = true ∧
  ((sources.descend ["p"] o.names.tail.dropLast).2.placeToWrite [] o).isOk = true

instance (o : Path) : Decidable (Fits o) :=
  inferInstanceAs (Decidable (_ ∧ _))

theorem takes_of_fits {o : Path} (h : Fits o) :
    sources.Takes [] o ∧ ∃ rest n, sources.Straight [] o ["p"] (rest ++ [n]) := by
  obtain ⟨⟨hnames, habs, hup⟩, hparent, hmade, hplace⟩ := h
  obtain ⟨n, hn⟩ : ∃ n, o.names.getLast? = some n := by
    cases hlast : o.names.getLast? with
    | some n => exact ⟨n, rfl⟩
    | none =>
      rw [List.getLast?_eq_none_iff.1 hlast] at hnames
      cases hnames
  rw [hn] at hnames
  have straight : sources.Straight [] o ["p"] (o.names.tail.dropLast ++ [n]) := by
    refine ⟨⟨["p"], hnames, ?_⟩, rfl, fun hmem => hup ?_⟩
    · rw [startOf, habs]
      rfl
    · rw [hnames]
      exact List.mem_cons_of_mem _ hmem
  obtain ⟨p, hp, hok⟩ := Option.map_eq_some_iff.1 hparent
  obtain ⟨⟨⟩, htext⟩ := isOk_iff.1 hok
  obtain ⟨⟨⟩, hdescend⟩ := isOk_iff.1 hmade
  exact ⟨.of_descend closed_sources straight hp htext hdescend (isOk_iff.1 hplace), _, _, straight⟩

/-- Nothing stands in the way of steps whose outputs fit and do not get in each other's way. -/
theorem unhindered_of_fits {bad : String} {outs : List Path} {plan : BuildPlan}
    (fits : ∀ o ∈ outs, Fits o) (apart : ∀ o ∈ outs, ∀ o' ∈ outs, o'.locate [] ∉ o.dirWay [])
    (plain : ∀ o ∈ outs, ∀ l ∈ o.locate [] :: o.dirWay [], ∀ name ∈ l, PlainName name)
    (literal : ∀ s ∈ plan.compileSteps, ∀ d ∈ s.includeDirs, ((⟨"/p"⟩ : Path).join d).Literal)
    (there : ∀ s ∈ plan.compileSteps, sources.isFile [] ((⟨"/p"⟩ : Path).join s.source) = true)
    (unread : ∀ s ∈ plan.compileSteps, ∀ o ∈ outs,
      o.locate [] ∉ ((⟨"/p"⟩ : Path).join s.source).way [])
    (outputs : manifestContext.writes plan ⊆ outs) (objects : ∀ s ∈ plan.linkSteps, s.objects ⊆ outs) :
    Unhindered (writingEnvironment bad) manifestContext outs plan sources where
  reads s hs _ a := a.reads (.of_toList (by decide)) plain (literal s hs) (there s hs) (unread s hs)
  takes o ho u a := by
    obtain ⟨takes, rest, n, straight⟩ := takes_of_fits (fits o ho)
    exact a.takes takes closed_sources straight (apart o ho) fun o' ho' => apart o' ho' o ho
  outputs := outputs
  objects := objects
  taken := rfl

end Sample

end GrammarBuild
