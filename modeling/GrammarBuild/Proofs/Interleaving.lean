import GrammarBuild.Proofs.Growth
import GrammarBuild.Proofs.Observations
import GrammarBuild.Proofs.Schedules

/-
  GrammarBuild/Proofs/Interleaving.lean
  =====================================
  **Every schedule comes to the same** — if the compile steps of a plan do not get in
  each other's way (`Independent`), then while they are under way the files are those of
  the start, with what the steps that are done have left and the directories that were
  made (`Underway`).  A step that gets its turn keeps it so (`Underway.advance`), and in
  the end every step has come to what it comes to alone (`compileBy_underway`,
  `executeBy_endsAlike`).

  The outputs of a manifest's targets never are in each other's way; what is left to ask
  is that no step reads what the others make (`Independent.of_plans`).
-/

namespace GrammarBuild

/-! ### What a step comes to alone -/

section

variable (env : Environment) (c : BuildContext) (cache : FingerprintCache) (t : FileTree)

/-- What a compile step finds out before it does anything. -/
def inspected (s : CompileStep) : Except Failure Compiled :=
  match CompileInputs.ofStep t env.cwd c.root s with
  | .ok i => .ok ⟨c.compileNow s i, cache.objectFresh t env.cwd s.output (c.compileNow s i)⟩
  | .error e => .error (e.inside (.readingSource s.source))

/-- How the compiler comes out where the directory for the object is there. -/
def compilerResult (s : CompileStep) (u : FileTree) : Except Failure Unit :=
  (Failure.within (.compiling s.target s.source)
    (checked s.command (env.run u (c.compileCall s)).1)).map fun _ => ()

/-- What a compile step comes to alone. -/
def alone (s : CompileStep) : Except Failure Compiled :=
  match inspected env c cache t s with
  | .error e => .error e
  | .ok d =>
    if d.fresh then .ok d
    else
      match t.prepare env.cwd s.output with
      | (.error e, _) => .error e
      | (.ok _, u) => (compilerResult env c s u).map fun _ => d

/-- The object of a compile step has to be compiled. -/
def Stale (s : CompileStep) (d : Compiled) : Prop :=
  inspected env c cache t s = .ok d ∧ d.fresh = false

/-- The compiler is run for a step. -/
def Runs (s : CompileStep) : Prop :=
  (∃ d, Stale env c cache t s d) ∧ (t.prepare env.cwd s.output).1 = .ok ()

/-- What is at the place of an object when the compiler was run for it. -/
def left (s : CompileStep) : Option Node :=
  (env.run (t.prepare env.cwd s.output).2 (c.compileCall s)).2.node? (s.output.locate env.cwd)

variable {env c cache t}

theorem runOn_inspect_eq {h : Host} (s : CompileStep) :
    (c.inspect cache s).runOn env h = (inspected env c cache h.files s, h) := by
  rw [BuildContext.runOn_inspect]
  unfold inspected
  cases CompileInputs.ofStep h.files env.cwd c.root s with
  | error e => rfl
  | ok i => rfl

theorem alone_of_error {s : CompileStep} {e : Failure}
    (h : inspected env c cache t s = .error e) : alone env c cache t s = .error e := by
  unfold alone
  rw [h]

theorem alone_of_fresh {s : CompileStep} {d : Compiled} (h : inspected env c cache t s = .ok d)
    (hd : d.fresh = true) : alone env c cache t s = .ok d := by
  unfold alone
  simp only [h, hd, if_true]

theorem alone_of_blocked {s : CompileStep} {d : Compiled} {e : Failure}
    (h : Stale env c cache t s d) (hp : (t.prepare env.cwd s.output).1 = .error e) :
    alone env c cache t s = .error e := by
  rcases hprep : t.prepare env.cwd s.output with ⟨r, u⟩
  rw [hprep] at hp
  obtain rfl : r = .error e := hp
  unfold alone
  simp only [h.1, h.2, hprep, Bool.false_eq_true, if_false]

theorem alone_of_runs {s : CompileStep} {d : Compiled} (h : Stale env c cache t s d)
    (hp : (t.prepare env.cwd s.output).1 = .ok ()) :
    alone env c cache t s =
      (compilerResult env c s (t.prepare env.cwd s.output).2).map fun _ => d := by
  rcases hprep : t.prepare env.cwd s.output with ⟨r, u⟩
  rw [hprep] at hp
  obtain rfl : r = .ok () := hp
  unfold alone
  simp only [h.1, h.2, hprep, Bool.false_eq_true, if_false]

theorem result_compile {h : Host} (s : CompileStep) :
    ((c.compile cache s).runOn env h).1 = alone env c cache h.files s := by
  rw [BuildContext.runOn_compile]
  unfold alone inspected
  cases CompileInputs.ofStep h.files env.cwd c.root s with
  | error e => rfl
  | ok i =>
    simp only []
    cases cache.objectFresh h.files env.cwd s.output (c.compileNow s i) with
    | true => rfl
    | false =>
      simp only [Bool.false_eq_true, if_false]
      rw [BuildContext.runOn_runCompile]
      rcases h.files.prepare env.cwd s.output with ⟨r, u⟩
      cases r with
      | error e => rfl
      | ok _ =>
        unfold compilerResult
        simp only []
        cases Failure.within (.compiling s.target s.source)
            (checked s.command (env.run u (c.compileCall s)).1) with
        | error e => rfl
        | ok done => rfl

end

/-! ### Independent steps -/

/-- `u` is `t` with anything at the results of other steps and with directories on the
    way to results where nothing was. -/
def Grown (cwd : Location) (ss : List CompileStep) (s : CompileStep) (t u : FileTree) : Prop :=
  ∀ l, u.node? l = t.node? l ∨
    (l ≠ s.output.locate cwd ∧ ∃ s' ∈ ss, l = s'.output.locate cwd) ∨
    (FileTree.Gains t u l ∧ ∃ s' ∈ ss, l ∈ s'.output.dirWay cwd)

/-- The objects of compile steps are apart on the files `t`: what is made for one of them
    is no part of the way to another. -/
structure Apart (cwd : Location) (ss : List CompileStep) (t : FileTree) : Prop where
  closed : t.Closed
  distinct : (ss.map fun s => s.output.locate cwd).Nodup
  /-- No object is where another object needs a directory. -/
  off_ways : ∀ s ∈ ss, ∀ s' ∈ ss, s.output.locate cwd ∉ s'.output.dirWay cwd
  /-- A way that goes up again is there from the start; else it would begin to lead
      somewhere when another step makes its directories. -/
  straight : ∀ s ∈ ss, ∃ base rest n, t.Straight cwd s.output base (rest ++ [n])

/-- Compile steps that do not get in each other's way on the files `t`. -/
structure Independent (env : Environment) (c : BuildContext) (ss : List CompileStep)
    (t : FileTree) : Prop extends Apart env.cwd ss t where
  /-- No step reads what the others make. -/
  reads : ∀ s ∈ ss, ∀ u, Grown env.cwd ss s t u →
    CompileInputs.ofStep u env.cwd c.root s = CompileInputs.ofStep t env.cwd c.root s
  /-- A compiler writes only its object. -/
  writes : ∀ s ∈ ss, ∀ u l, l ≠ s.output.locate env.cwd →
    (env.run u (c.compileCall s)).2.node? l = u.node? l
  /-- What a compiler does does not depend on what the other steps make. -/
  runs : ∀ s ∈ ss, ∀ u, Grown env.cwd ss s (t.prepare env.cwd s.output).2 u →
    (env.run u (c.compileCall s)).1 =
        (env.run (t.prepare env.cwd s.output).2 (c.compileCall s)).1 ∧
      (env.run u (c.compileCall s)).2.node? (s.output.locate env.cwd) = left env c t s

theorem Grown.withMade {cwd : Location} {ss : List CompileStep} {s : CompileStep} {t u : FileTree}
    (grown : Grown cwd ss s t u) : FileTree.WithMade (fun o => ∃ s' ∈ ss, o = s'.output) cwd t u := by
  intro l
  rcases grown l with heq | ⟨-, s', hs', hl⟩ | ⟨hg, s', hs', hl⟩
  · exact .inl heq
  · exact .inr (.inl ⟨_, ⟨s', hs', rfl⟩, hl⟩)
  · exact .inr (.inr ⟨hg, _, ⟨s', hs', rfl⟩, hl⟩)

section

variable {t : FileTree} {cwd base : Location} {rest : List String} {c : BuildContext}

/-- The objects of a plan are apart as soon as they are different. -/
theorem Apart.of_plans {P : Project} {plan : BuildPlan} (plans : P.Plans c plan) (closed : t.Closed)
    (distinct : (plan.compileSteps.map fun s => s.output).Nodup)
    (straight : t.Straight cwd c.outputDir base rest)
    (off_way : ∀ s ∈ plan.compileSteps, s.output.locate cwd ∉ c.outputDir.way cwd) :
    Apart cwd plan.compileSteps t where
  closed := closed
  distinct := by
    have hmap : (plan.compileSteps.map fun s => s.output.locate cwd) =
        (plan.compileSteps.map fun s => s.output).map (Path.locate cwd) := by
      rw [List.map_map]
      rfl
    rw [hmap]
    apply List.Nodup.map_on _ distinct
    intro o ho o' ho' hl
    obtain ⟨s, hs, rfl⟩ := List.mem_map.1 ho
    obtain ⟨s', hs', rfl⟩ := List.mem_map.1 ho'
    exact Project.object_eq_of_location plans plans hs hs' hl
  off_ways := by
    intro s hs s' hs' hmem
    have hoff := off_way s hs
    obtain ⟨g, named, source, rfl⟩ := plans.compileStep hs
    obtain ⟨g', named', source', rfl⟩ := plans.compileStep hs'
    have hdir : (["obj", g'.name] : List String).map Component.normal =
        [.normal "obj", .normal g'.name] := rfl
    rw [BuildContext.output_compileStep] at hmem hoff
    rw [BuildContext.output_compileStep, Path.dirWay, c.components_objectPath, List.dropLast_concat,
      c.components_objectDir named', ← hdir] at hmem
    rcases Component.mem_wayFrom_names hmem with hway | ⟨x, hx, heq⟩
    · exact hoff hway
    · -- the object is three names below the output directory, the way ends after two
      rw [c.locate_objectPath named] at heq
      have hlen := hx.length_le
      rw [← List.append_cancel_left heq] at hlen
      simp at hlen
  straight := by
    intro s hs
    obtain ⟨g, named, source, rfl⟩ := plans.compileStep hs
    rw [BuildContext.output_compileStep]
    exact ⟨_, _, _, straight.objectPath named source⟩

end

/-! ### Steps under way -/

section

variable (env : Environment) (c : BuildContext) (cache : FingerprintCache) (t : FileTree)

/-- How many stages are left at most. -/
def Stage.rank : Stage → Nat
  | .waiting => 3
  | .stale _ => 2
  | .ready _ => 1
  | .done _ => 0

/-- A step can be at this stage. -/
def Stage.At (s : CompileStep) : Stage → Prop
  | .waiting => True
  | .stale d => Stale env c cache t s d
  | .ready d => Stale env c cache t s d ∧ (t.prepare env.cwd s.output).1 = .ok ()
  | .done r => r = alone env c cache t s

/-- The directory for the object has had its turn. -/
def Stage.Made (s : CompileStep) : Stage → Prop
  | .waiting => False
  | .stale _ => False
  | .ready _ => True
  | .done _ => ∃ d, Stale env c cache t s d

/-- The compiler has had its turn. -/
def Stage.Ran (s : CompileStep) : Stage → Prop
  | .done _ => Runs env c cache t s
  | _ => False

/-- The files are those of the start, with what the steps under way have made of them. -/
structure Underway (ss : List CompileStep) (threads : List BuildContext.Thread) (h : Host) :
    Prop where
  steps : threads.map Prod.fst = ss
  stages : ∀ s g, (s, g) ∈ threads → g.At env c cache t s
  made : ∀ s g, (s, g) ∈ threads → g.Made env c cache t s →
    ∀ l, FileTree.Gains t (t.prepare env.cwd s.output).2 l → h.files.node? l = some .dir
  ran : ∀ s g, (s, g) ∈ threads → g.Ran env c cache t s →
    h.files.node? (s.output.locate env.cwd) = left env c t s ∧ c.compileCall s ∈ h.started
  own : ∀ s g, (s, g) ∈ threads → ¬ g.Ran env c cache t s →
    h.files.node? (s.output.locate env.cwd) = t.node? (s.output.locate env.cwd)
  rest : ∀ l, (∀ s ∈ ss, l ≠ s.output.locate env.cwd) →
    (∀ s g, (s, g) ∈ threads → g.Made env c cache t s →
      ¬ FileTree.Gains t (t.prepare env.cwd s.output).2 l) →
    h.files.node? l = t.node? l

end

variable {env : Environment} {c : BuildContext} {cache : FingerprintCache} {t : FileTree}
  {ss : List CompileStep} {s : CompileStep} {d : Compiled} {g g' : Stage} {h h' : Host}
  {pre post threads : List BuildContext.Thread}

/-- A directory that is made for an object is on the way to it. -/
theorem mem_dirWay_of_gains {l : Location}
    (h : FileTree.Gains t (t.prepare env.cwd s.output).2 l) : l ∈ s.output.dirWay env.cwd := by
  rcases t.prepare_adds env.cwd s.output l with heq | ⟨hmem, -⟩
  · rw [FileTree.Gains, heq] at h
    rw [h.1] at h
    cases h.2
  · exact hmem

namespace Underway

theorem mem_of_mem (u : Underway env c cache t ss threads h) (hs : (s, g) ∈ threads) : s ∈ ss := by
  rw [← u.steps]
  exact List.mem_map.2 ⟨(s, g), hs, rfl⟩

/-- What a step sees whose compiler has not had its turn. -/
theorem grown (u : Underway env c cache t ss threads h) (hs : (s, g) ∈ threads)
    (hran : ¬ g.Ran env c cache t s) : Grown env.cwd ss s t h.files := by
  intro l
  by_cases hown : l = s.output.locate env.cwd
  · left
    rw [hown]
    exact u.own s g hs hran
  by_cases hout : ∃ s' ∈ ss, l = s'.output.locate env.cwd
  · exact .inr (.inl ⟨hown, hout⟩)
  by_cases hgain : ∃ s' g', (s', g') ∈ threads ∧ g'.Made env c cache t s' ∧
      FileTree.Gains t (t.prepare env.cwd s'.output).2 l
  · obtain ⟨s', g', hs', hmade, hg⟩ := hgain
    exact .inr (.inr ⟨⟨hg.1, u.made s' g' hs' hmade l hg⟩, s', u.mem_of_mem hs', mem_dirWay_of_gains hg⟩)
  · left
    apply u.rest l
    · intro s' hs' hl
      exact hout ⟨s', hs', hl⟩
    · intro s' g' hs' hmade hg
      exact hgain ⟨s', g', hs', hmade, hg⟩

end Underway

namespace Independent

theorem kept_or_gained (ind : Independent env c ss t) (hs : s ∈ ss) {u : FileTree}
    (grown : Grown env.cwd ss s t u) :
    ∀ m ∈ s.output.dirWay env.cwd, u.node? m = t.node? m ∨ FileTree.Gains t u m := by
  intro m hm
  rcases grown m with heq | ⟨-, s', hs', rfl⟩ | ⟨hg, -⟩
  · exact .inl heq
  · exact absurd hm (ind.off_ways s' hs' s hs)
  · exact .inr hg

theorem inspected_eq (ind : Independent env c ss t) (hs : s ∈ ss) {u : FileTree}
    (grown : Grown env.cwd ss s t u) : inspected env c cache u s = inspected env c cache t s := by
  obtain ⟨base, rest, n, straight⟩ := ind.straight s hs
  have hown : u.node? (s.output.locate env.cwd) = t.node? (s.output.locate env.cwd) := by
    rcases grown (s.output.locate env.cwd) with heq | ⟨hne, -⟩ | ⟨-, s', hs', hm⟩
    · exact heq
    · exact absurd rfl hne
    · exact absurd hm (ind.off_ways s hs s' hs')
  have hexists := FileTree.pathExists_over (ind.kept_or_gained hs grown) ind.closed straight hown
  unfold inspected FingerprintCache.objectFresh
  rw [ind.reads s hs u grown, hexists]

end Independent

namespace Underway

/-- Another step at the same time has its object elsewhere. -/
theorem output_ne (u : Underway env c cache t ss (pre ++ (s, g) :: post) h)
    (ind : Independent env c ss t) {s₁ : CompileStep} {g₁ : Stage} (hs : (s₁, g₁) ∈ pre ++ post) :
    s₁.output.locate env.cwd ≠ s.output.locate env.cwd := by
  have hnodup := ind.distinct
  rw [← u.steps, List.map_append, List.map_cons, List.map_append, List.map_cons,
    List.perm_middle.nodup_iff, List.nodup_cons] at hnodup
  intro heq
  apply hnodup.1
  rw [← List.map_append, ← List.map_append, List.mem_map]
  exact ⟨s₁, List.mem_map.2 ⟨(s₁, g₁), hs, rfl⟩, heq⟩

/-- One step goes on: what it changes is its object and the directories for it. -/
theorem replaced (u : Underway env c cache t ss (pre ++ (s, g) :: post) h)
    (ind : Independent env c ss t) (stage : g'.At env c cache t s)
    (mono : g.Made env c cache t s → g'.Made env c cache t s)
    (made : g'.Made env c cache t s →
      ∀ l, FileTree.Gains t (t.prepare env.cwd s.output).2 l → h'.files.node? l = some .dir)
    (ran : g'.Ran env c cache t s →
      h'.files.node? (s.output.locate env.cwd) = left env c t s ∧ c.compileCall s ∈ h'.started)
    (own : ¬ g'.Ran env c cache t s →
      h'.files.node? (s.output.locate env.cwd) = t.node? (s.output.locate env.cwd))
    (elsewhere : ∀ l, l ≠ s.output.locate env.cwd →
      h'.files.node? l = h.files.node? l ∨
        g'.Made env c cache t s ∧ FileTree.Gains t (t.prepare env.cwd s.output).2 l)
    (started : ∀ i ∈ h.started, i ∈ h'.started) :
    Underway env c cache t ss (pre ++ (s, g') :: post) h' := by
  have hsteps : s ∈ ss := u.mem_of_mem (g := g) (by simp)
  have hcases {s₁ : CompileStep} {g₁ : Stage} (h₁ : (s₁, g₁) ∈ pre ++ (s, g') :: post) :
      (s₁ = s ∧ g₁ = g') ∨ (s₁, g₁) ∈ pre ++ post := by
    rw [List.mem_append, List.mem_cons, Prod.mk.injEq] at h₁
    rw [List.mem_append]
    tauto
  have hold {s₁ : CompileStep} {g₁ : Stage} (h₁ : (s₁, g₁) ∈ pre ++ post) :
      (s₁, g₁) ∈ pre ++ (s, g) :: post := by
    rw [List.mem_append] at h₁ ⊢
    exact h₁.imp_right (List.mem_cons_of_mem _)
  -- the object of another step
  have hother {s₁ : CompileStep} {g₁ : Stage} (h₁ : (s₁, g₁) ∈ pre ++ post) :
      h'.files.node? (s₁.output.locate env.cwd) = h.files.node? (s₁.output.locate env.cwd) := by
    rcases elsewhere _ (u.output_ne ind h₁) with heq | ⟨-, hg⟩
    · exact heq
    · exact absurd (mem_dirWay_of_gains hg) (ind.off_ways s₁ (u.mem_of_mem (hold h₁)) s hsteps)
  refine ⟨?_, ?_, ?_, ?_, ?_, ?_⟩
  · rw [← u.steps]
    simp
  · intro s₁ g₁ h₁
    rcases hcases h₁ with ⟨rfl, rfl⟩ | h₁
    · exact stage
    · exact u.stages s₁ g₁ (hold h₁)
  · intro s₁ g₁ h₁ hmade l hg
    rcases hcases h₁ with ⟨rfl, rfl⟩ | h₁
    · exact made hmade l hg
    · have hne : l ≠ s.output.locate env.cwd := by
        rintro rfl
        exact ind.off_ways s hsteps s₁ (u.mem_of_mem (hold h₁)) (mem_dirWay_of_gains hg)
      rcases elsewhere l hne with heq | ⟨hmade', hg'⟩
      · rw [heq]
        exact u.made s₁ g₁ (hold h₁) hmade l hg
      · exact made hmade' l hg'
  · intro s₁ g₁ h₁ hran
    rcases hcases h₁ with ⟨rfl, rfl⟩ | h₁
    · exact ran hran
    · obtain ⟨hleft, hstart⟩ := u.ran s₁ g₁ (hold h₁) hran
      rw [hother h₁]
      exact ⟨hleft, started _ hstart⟩
  · intro s₁ g₁ h₁ hran
    rcases hcases h₁ with ⟨rfl, rfl⟩ | h₁
    · exact own hran
    · rw [hother h₁]
      exact u.own s₁ g₁ (hold h₁) hran
  · intro l hl hnot
    have hs₁ : (s, g') ∈ pre ++ (s, g') :: post := by simp
    rcases elsewhere l (hl s hsteps) with heq | ⟨hmade, hg⟩
    · rw [heq]
      apply u.rest l hl
      intro s₁ g₁ h₁ hmade
      rw [List.mem_append, List.mem_cons, Prod.mk.injEq] at h₁
      rcases h₁ with h₁ | ⟨rfl, rfl⟩ | h₁
      · exact hnot s₁ g₁ (List.mem_append_left _ h₁) hmade
      · exact hnot s₁ g' hs₁ (mono hmade)
      · exact hnot s₁ g₁ (List.mem_append_right _ (List.mem_cons_of_mem _ h₁)) hmade
    · exact absurd hg (hnot s g' hs₁ hmade)

/-- A step that goes on without changing the files. -/
theorem looked (u : Underway env c cache t ss (pre ++ (s, g) :: post) h)
    (ind : Independent env c ss t) (hg : ¬ g.Ran env c cache t s)
    (stage : g'.At env c cache t s) (mono : g.Made env c cache t s ↔ g'.Made env c cache t s)
    (hran : ¬ g'.Ran env c cache t s) (files : h'.files = h.files)
    (started : h'.started = h.started) :
    Underway env c cache t ss (pre ++ (s, g') :: post) h' := by
  have hs : (s, g) ∈ pre ++ (s, g) :: post := by simp
  apply u.replaced ind stage mono.1
  · intro hmade l hgain
    rw [files]
    exact u.made s g hs (mono.2 hmade) l hgain
  · intro h
    exact absurd h hran
  · intro _
    rw [files]
    exact u.own s g hs hg
  · intro l _
    rw [files]
    exact .inl rfl
  · rw [started]
    exact fun i hi => hi

/-- A step that is done without the compiler. -/
theorem settled (u : Underway env c cache t ss (pre ++ (s, .waiting) :: post) h)
    (ind : Independent env c ss t) {r : Except Failure Compiled} (hr : r = alone env c cache t s)
    (hnot : ∀ d, ¬ Stale env c cache t s d) (files : h'.files = h.files)
    (started : h'.started = h.started) :
    Underway env c cache t ss (pre ++ (s, .done r) :: post) h' := by
  have stage : (Stage.done r).At env c cache t s := hr
  apply u.looked ind id stage _ _ files started
  · exact ⟨False.elim, fun ⟨d, hd⟩ => hnot d hd⟩
  · exact fun ⟨⟨d, hd⟩, _⟩ => hnot d hd

/-- A step that has had its turn with the directory for its object. -/
theorem prepared (u : Underway env c cache t ss (pre ++ (s, .stale d) :: post) h)
    (ind : Independent env c ss t) (stage : g'.At env c cache t s)
    (made : g'.Made env c cache t s) (hran : ¬ g'.Ran env c cache t s)
    (alike : FileTree.AddsAlike t (t.prepare env.cwd s.output).2 h.files h'.files)
    (started : h'.started = h.started) :
    Underway env c cache t ss (pre ++ (s, g') :: post) h' := by
  have hs : (s, .stale d) ∈ pre ++ (s, .stale d) :: post := by simp
  have hmem := u.mem_of_mem hs
  apply u.replaced ind stage (fun _ => made)
  · intro _ l hg
    exact (alike l).1 hg
  · intro h
    exact absurd h hran
  · intro _
    rw [(alike _).2 fun hg => ind.off_ways s hmem s hmem (mem_dirWay_of_gains hg)]
    exact u.own s _ hs id
  · intro l _
    by_cases hg : FileTree.Gains t (t.prepare env.cwd s.output).2 l
    · exact .inr ⟨made, hg⟩
    · exact .inl ((alike l).2 hg)
  · rw [started]
    exact fun i hi => hi

/-- What a compiler sees when it is its turn. -/
theorem grown_prepared (u : Underway env c cache t ss (pre ++ (s, .ready d) :: post) h) :
    Grown env.cwd ss s (t.prepare env.cwd s.output).2 h.files := by
  have hs : (s, .ready d) ∈ pre ++ (s, .ready d) :: post := by simp
  intro l
  by_cases hg : FileTree.Gains t (t.prepare env.cwd s.output).2 l
  · left
    rw [hg.2]
    exact u.made s _ hs trivial l hg
  · have hsame : (t.prepare env.cwd s.output).2.node? l = t.node? l := by
      rcases t.prepare_adds env.cwd s.output l with heq | ⟨-, hnone, hdir⟩
      · exact heq
      · exact absurd ⟨hnone, hdir⟩ hg
    rw [FileTree.Gains, hsame]
    exact u.grown hs id l

/-- A step whose compiler has had its turn. -/
theorem compiled (u : Underway env c cache t ss (pre ++ (s, .ready d) :: post) h)
    (ind : Independent env c ss t) (files : h'.files = (env.run h.files (c.compileCall s)).2)
    (started : h'.started = h.started ++ [c.compileCall s]) :
    Underway env c cache t ss (pre ++ (s, .done (alone env c cache t s)) :: post) h' := by
  have hs : (s, .ready d) ∈ pre ++ (s, .ready d) :: post := by simp
  have hmem := u.mem_of_mem hs
  obtain ⟨hstale, hp⟩ : Stale env c cache t s d ∧ (t.prepare env.cwd s.output).1 = .ok () :=
    u.stages s _ hs
  have stage : (Stage.done (alone env c cache t s)).At env c cache t s := Eq.refl _
  have hruns : Runs env c cache t s := ⟨⟨d, hstale⟩, hp⟩
  have helse (l : Location) (hl : l ≠ s.output.locate env.cwd) :
      h'.files.node? l = h.files.node? l := by
    rw [files]
    exact ind.writes s hmem h.files l hl
  apply u.replaced ind stage (fun _ => ⟨d, hstale⟩)
  · intro _ l hg
    rw [helse l]
    · exact u.made s _ hs trivial l hg
    · rintro rfl
      exact ind.off_ways s hmem s hmem (mem_dirWay_of_gains hg)
  · intro _
    rw [files, started]
    exact ⟨(ind.runs s hmem h.files (u.grown_prepared)).2, by simp⟩
  · intro hnot
    exact absurd hruns hnot
  · intro l hl
    exact .inl (helse l hl)
  · intro i hi
    rw [started]
    exact List.mem_append_left _ hi

/-- A compile step that gets its turn goes to a stage it can be at. -/
theorem advance (u : Underway env c cache t ss (pre ++ (s, g) :: post) h)
    (ind : Independent env c ss t) :
    ∃ g' h', (c.advance cache s g).runOn env h = (.ok g', h') ∧
      Underway env c cache t ss (pre ++ (s, g') :: post) h' ∧
      ((∃ r, g = .done r) ∨ g'.rank < g.rank) := by
  have hs : (s, g) ∈ pre ++ (s, g) :: post := by simp
  have hmem := u.mem_of_mem hs
  have hstage := u.stages s g hs
  cases g with
  | done r => exact ⟨.done r, h, rfl, u, .inl ⟨r, rfl⟩⟩
  | waiting =>
    have hgrown := u.grown hs id
    have hlook : (c.inspect cache s).runOn env h = (inspected env c cache h.files s, h) :=
      runOn_inspect_eq s
    rw [ind.inspected_eq hmem hgrown] at hlook
    simp only [BuildContext.advance, Action.runOn_bind, Action.runOn_attempt, hlook]
    cases hi : inspected env c cache t s with
    | error e =>
      refine ⟨.done (.error e), h, rfl, ?_, .inr (by simp [Stage.rank])⟩
      apply u.settled ind (alone_of_error hi).symm _ rfl rfl
      rintro d ⟨hd, -⟩
      rw [hi] at hd
      cases hd
    | ok d =>
      cases hf : d.fresh with
      | true =>
        simp only [hf, if_true]
        have hnot (d' : Compiled) : ¬ Stale env c cache t s d' := by
          rintro ⟨hd, hfalse⟩
          rw [hi] at hd
          injection hd with hd
          rw [← hd, hf] at hfalse
          cases hfalse
        refine ⟨.done (.ok d), _, rfl, ?_, .inr (by simp [Stage.rank])⟩
        refine u.settled ind (alone_of_fresh hi hf).symm hnot ?_ ?_
        · rfl
        · simp [Host.started]
      | false =>
        simp only [hf, Bool.false_eq_true, if_false]
        refine ⟨.stale d, h, rfl, ?_, .inr (by simp [Stage.rank])⟩
        exact u.looked ind id ⟨hi, hf⟩ Iff.rfl id rfl rfl
  | stale d =>
    obtain ⟨base, rest, n, straight⟩ := ind.straight s hmem
    have hgrown := u.grown hs id
    obtain ⟨hres, halike⟩ :=
      FileTree.prepare_over (ind.kept_or_gained hmem hgrown) ind.closed straight
    simp only [BuildContext.advance, Action.runOn_bind, Action.runOn_attempt,
      BuildContext.runOn_prepareOutput, hres]
    have hstale : Stale env c cache t s d := hstage
    cases hp : (t.prepare env.cwd s.output).1 with
    | error e =>
      refine ⟨.done (.error e), _, rfl, ?_, .inr (by simp [Stage.rank])⟩
      have stage : (Stage.done (.error e)).At env c cache t s := (alone_of_blocked hstale hp).symm
      refine u.prepared ind stage ⟨d, hstale⟩ ?_ halike rfl
      rintro ⟨-, hok⟩
      rw [hp] at hok
      cases hok
    | ok _ =>
      refine ⟨.ready d, _, rfl, ?_, .inr (by simp [Stage.rank])⟩
      exact u.prepared ind ⟨hstale, hp⟩ trivial id halike rfl
  | ready d =>
    obtain ⟨hstale, hp⟩ : Stale env c cache t s d ∧ (t.prepare env.cwd s.output).1 = .ok () := hstage
    have hrun := (ind.runs s hmem h.files (u.grown_prepared)).1
    have halone := alone_of_runs hstale hp
    unfold compilerResult at halone
    simp only [BuildContext.advance, Action.runOn_bind, Action.runOn_attempt,
      BuildContext.runOn_startCompiler, hrun]
    cases hr : (Failure.within (.compiling s.target s.source)
        (checked s.command
          (env.run (t.prepare env.cwd s.output).2 (c.compileCall s)).1)).map fun _ => () with
    | error e =>
      have hdone : Stage.done (alone env c cache t s) = .done (.error e) := by
        rw [halone, hr]
        rfl
      refine ⟨.done (.error e), _, rfl, ?_, .inr (by simp [Stage.rank])⟩
      rw [← hdone]
      exact u.compiled ind rfl (by simp [Host.started])
    | ok _ =>
      have hdone : Stage.done (alone env c cache t s) = .done (.ok d) := by
        rw [halone, hr]
        rfl
      refine ⟨.done (.ok d), _, rfl, ?_, .inr (by simp [Stage.rank])⟩
      rw [← hdone]
      exact u.compiled ind rfl (by simp [Host.started])

/-- What is left of a step comes to what the step comes to alone. -/
theorem finish (u : Underway env c cache t ss (pre ++ (s, g) :: post) h)
    (ind : Independent env c ss t) :
    ∃ h', (c.finish cache s g).runOn env h = (.ok (alone env c cache t s), h') ∧
      Underway env c cache t ss (pre ++ (s, .done (alone env c cache t s)) :: post) h' := by
  induction hn : g.rank using Nat.strongRecOn generalizing g h with
  | ind n ih =>
    obtain ⟨g', h', hrun, u', ⟨r, rfl⟩ | hlt⟩ := u.advance ind
    · have hr : (Stage.done r).At env c cache t s := u.stages s _ (by simp)
      obtain rfl : r = alone env c cache t s := hr
      exact ⟨h, rfl, u⟩
    · rw [← c.finish_advance cache s g, Action.runOn_bind, hrun]
      exact ih g'.rank (hn ▸ hlt) u' rfl

theorem finishAll {todo : List BuildContext.Thread} (u : Underway env c cache t ss (pre ++ todo) h)
    (ind : Independent env c ss t) :
    ∃ h', (todo.mapM (c.finishThread cache)).runOn env h =
        (.ok (todo.map fun thread => (thread.1, alone env c cache t thread.1)), h') ∧
      Underway env c cache t ss
        (pre ++ todo.map fun thread => (thread.1, .done (alone env c cache t thread.1))) h' := by
  induction todo generalizing pre h with
  | nil => exact ⟨h, rfl, u⟩
  | cons thread todo ih =>
    obtain ⟨s, g⟩ := thread
    obtain ⟨h₁, hfinish, u₁⟩ := u.finish ind
    have hassoc (x : BuildContext.Thread) (l : List BuildContext.Thread) :
        pre ++ x :: l = pre ++ [x] ++ l := by simp
    rw [hassoc] at u₁
    obtain ⟨h₂, hrest, u₂⟩ := ih u₁
    refine ⟨h₂, ?_, ?_⟩
    · rw [List.mapM_cons, Action.runOn_bind, BuildContext.runOn_finishThread, hfinish]
      simp only []
      rw [Action.runOn_bind, hrest]
      rfl
    · rw [List.map_cons, hassoc]
      exact u₂

theorem advanceAt (u : Underway env c cache t ss threads h) (ind : Independent env c ss t)
    (i : Nat) :
    ∃ threads' h', (c.advanceAt cache threads i).runOn env h = (.ok threads', h') ∧
      Underway env c cache t ss threads' h' := by
  unfold BuildContext.advanceAt
  cases hi : threads[i]? with
  | none => exact ⟨threads, h, rfl, u⟩
  | some thread =>
    obtain ⟨s, g⟩ := thread
    obtain ⟨hlt, hget⟩ := List.getElem?_eq_some_iff.1 hi
    have hsplit : threads = threads.take i ++ (s, g) :: threads.drop (i + 1) := by
      rw [← hget, List.getElem_cons_drop, List.take_append_drop]
    rw [hsplit] at u
    obtain ⟨g', h', hrun, u', -⟩ := u.advance ind
    refine ⟨threads.set i (s, g'), h', ?_, ?_⟩
    · simp only [Action.runOn_bind, hrun]
      rfl
    · rw [List.set_eq_take_append_cons_drop, if_pos hlt]
      exact u'

theorem byTurns (u : Underway env c cache t ss threads h) (ind : Independent env c ss t)
    (schedule : List Nat) :
    ∃ threads' h', (schedule.foldlM (c.advanceAt cache) threads).runOn env h = (.ok threads', h') ∧
      Underway env c cache t ss threads' h' := by
  induction schedule generalizing threads h with
  | nil => exact ⟨threads, h, rfl, u⟩
  | cons i schedule ih =>
    obtain ⟨threads₁, h₁, hrun, u₁⟩ := u.advanceAt ind i
    obtain ⟨threads₂, h₂, hrest, u₂⟩ := ih u₁
    refine ⟨threads₂, h₂, ?_, u₂⟩
    rw [List.foldlM_cons, Action.runOn_bind, hrun]
    exact hrest

theorem start (files : h.files = t) :
    Underway env c cache t ss (ss.map fun s => (s, .waiting)) h := by
  have hwaiting {s : CompileStep} {g : Stage} (hs : (s, g) ∈ ss.map fun s => (s, Stage.waiting)) :
      g = .waiting := by
    obtain ⟨s', -, heq⟩ := List.mem_map.1 hs
    exact (Prod.mk.inj heq).2.symm
  refine ⟨?_, ?_, ?_, ?_, ?_, ?_⟩
  · rw [List.map_map]
    exact List.map_id ss
  · intro s g hs
    rw [hwaiting hs]
    exact trivial
  · intro s g hs hmade
    rw [hwaiting hs] at hmade
    exact hmade.elim
  · intro s g hs hran
    rw [hwaiting hs] at hran
    exact hran.elim
  · intro s g _ _
    rw [files]
  · intro l _ _
    rw [files]

/-- How far the steps are says what the files show. -/
theorem alike (u : Underway env c cache t ss threads h) (u' : Underway env c cache t ss threads h') :
    h.files.Alike h'.files := by
  funext l
  by_cases hout : ∃ s g, (s, g) ∈ threads ∧ l = s.output.locate env.cwd
  · obtain ⟨s, g, hs, rfl⟩ := hout
    by_cases hran : g.Ran env c cache t s
    · rw [(u.ran s g hs hran).1, (u'.ran s g hs hran).1]
    · rw [u.own s g hs hran, u'.own s g hs hran]
  by_cases hgain : ∃ s g, (s, g) ∈ threads ∧ g.Made env c cache t s ∧
      FileTree.Gains t (t.prepare env.cwd s.output).2 l
  · obtain ⟨s, g, hs, hmade, hg⟩ := hgain
    rw [u.made s g hs hmade l hg, u'.made s g hs hmade l hg]
  have hl (s : CompileStep) (hs : s ∈ ss) : l ≠ s.output.locate env.cwd := by
    rintro rfl
    rw [← u.steps] at hs
    obtain ⟨⟨s', g⟩, hmem, rfl⟩ := List.mem_map.1 hs
    exact hout ⟨s', g, hmem, rfl⟩
  have hnot (s : CompileStep) (g : Stage) (hs : (s, g) ∈ threads)
      (hmade : g.Made env c cache t s) : ¬ FileTree.Gains t (t.prepare env.cwd s.output).2 l :=
    fun hg => hgain ⟨s, g, hs, hmade, hg⟩
  rw [u.rest l hl hnot, u'.rest l hl hnot]

end Underway

/-- By whatever schedule, every compile step comes to what it comes to alone. -/
theorem compileBy_underway (cache : FingerprintCache) (ind : Independent env c ss t)
    (files : h.files = t) (schedule : List Nat) :
    ∃ h', (c.compileBy cache ss schedule).runOn env h =
        (.ok (ss.map fun s => (s, alone env c cache t s)), h') ∧
      Underway env c cache t ss (ss.map fun s => (s, .done (alone env c cache t s))) h' := by
  have u₀ : Underway env c cache t ss (ss.map fun s => (s, .waiting)) h := .start files
  obtain ⟨threads, h₁, hturns, u₁⟩ := u₀.byTurns ind schedule
  have hall : Underway env c cache t ss ([] ++ threads) h₁ := u₁
  obtain ⟨h₂, hfinish, u₂⟩ := hall.finishAll ind
  have hmap {α : Type} (f : CompileStep → α) :
      (threads.map fun thread => f thread.1) = ss.map f := by
    rw [← u₁.steps, List.map_map]
    rfl
  rw [List.nil_append, hmap fun s => (s, Stage.done (alone env c cache t s))] at u₂
  rw [hmap fun s => (s, alone env c cache t s)] at hfinish
  refine ⟨h₂, ?_, u₂⟩
  rw [BuildContext.compileBy, Action.runOn_bind, hturns]
  exact hfinish

theorem observant_conclude (henv : env.Observant) (c : BuildContext) (cache : FingerprintCache)
    (plan : BuildPlan) (outcomes : List BuildContext.CompileOutcome) :
    Action.Observant env (c.conclude plan cache outcomes) := by
  unfold BuildContext.conclude
  simp only []
  cases BuildContext.firstFailure? outcomes with
  | some e =>
    apply Action.observant_bind (BuildContext.observant_save _ _)
    intro _
    exact Action.observant_throw e
  | none =>
    apply Action.observant_bind (BuildContext.observant_linkAll henv c _ _ _)
    intro made
    apply Action.observant_bind (BuildContext.observant_save _ _)
    intro _
    exact Action.observant_pure _

/-- What follows the compile steps only adds to the processes that were started. -/
theorem started_conclude (env : Environment) (c : BuildContext) (cache : FingerprintCache)
    (plan : BuildPlan) (h : Host) (outcomes : List BuildContext.CompileOutcome) :
    ∃ procs, ((c.conclude plan cache outcomes).runOn env h).2.started = h.started ++ procs := by
  unfold BuildContext.conclude
  simp only []
  cases BuildContext.firstFailure? outcomes with
  | some e =>
    have hsave := (FingerprintCache.saves_of_runOn (BuildContext.recordOutcomes cache outcomes)
      c.fingerprintPath env h).2
    simp only [Action.runOn_bind]
    rcases hw : (FingerprintCache.save _ c.fingerprintPath).runOn env h with ⟨r, h₁⟩
    rw [hw] at hsave
    refine ⟨[], ?_⟩
    cases r with
    | error f => simpa using hsave
    | ok _ => simpa using hsave
  | none =>
    obtain ⟨t₁, procs, -, hlinks, -⟩ := c.linksAll_runOn (BuildContext.rebuiltTargets outcomes) env h
      (BuildContext.recordOutcomes cache outcomes) plan.linkSteps
    simp only [Action.runOn_bind]
    rcases hl : (c.linkAll _ _ plan.linkSteps).runOn env h with ⟨r, h₁⟩
    rw [hl] at hlinks
    refine ⟨procs, ?_⟩
    cases r with
    | error f => exact hlinks
    | ok made =>
      have hsave := (FingerprintCache.saves_of_runOn made.2 c.fingerprintPath env h₁).2
      simp only []
      rcases hw : (FingerprintCache.save made.2 c.fingerprintPath).runOn env h₁ with ⟨q, h₂⟩
      rw [hw] at hsave
      rw [← hlinks, ← hsave]
      cases q with
      | error f => rfl
      | ok _ => rfl

/-- If a compile step failed and the cache was saved, the failure is the result. -/
theorem result_conclude {plan : BuildPlan} {outcomes : List BuildContext.CompileOutcome} {e : Failure}
    (first : BuildContext.firstFailure? outcomes = some e)
    (saved : CacheSaved ((c.conclude plan cache outcomes).runOn env h).1) :
    ((c.conclude plan cache outcomes).runOn env h).1 = .error e := by
  unfold BuildContext.conclude at saved ⊢
  simp only [first, Action.runOn_bind] at saved ⊢
  have hsave := (FingerprintCache.saves_of_runOn (BuildContext.recordOutcomes cache outcomes)
    c.fingerprintPath env h).1
  rcases hw : (FingerprintCache.save _ c.fingerprintPath).runOn env h with ⟨r, h₁⟩
  rw [hw] at hsave saved
  cases r with
  | ok _ => rfl
  | error f =>
    exact absurd hsave.error_cases (saved _ rfl c.fingerprintPath)

/-- A step for which the compiler is started alone runs it. -/
theorem runs_of_started (h₀ : h.started = [])
    (started : c.compileCall s ∈ ((c.compile cache s).runOn env h).2.started) :
    Runs env c cache h.files s := by
  obtain ⟨procs, hends, hprocs⟩ := c.compiles_runOn env h cache s
  rw [hprocs, h₀, List.nil_append] at started
  have hinspected {i : CompileInputs} (inputs : CompileInputs.ofStep h.files env.cwd c.root s = .ok i)
      (stale : cache.objectFresh h.files env.cwd s.output (c.compileNow s i) = false) :
      ∃ d, Stale env c cache h.files s d := by
    refine ⟨⟨c.compileNow s i, false⟩, ?_, rfl⟩
    unfold inspected
    rw [inputs, ← stale]
  generalize ((c.compile cache s).runOn env h).1 = r at hends
  generalize ((c.compile cache s).runOn env h).2.files = u at hends
  cases hends with
  | unreadable inputs => cases started
  | fresh inputs fresh => cases started
  | blocked inputs stale dir => cases started
  | succeeded inputs stale dir run exit =>
    refine ⟨hinspected inputs stale, ?_⟩
    rw [dir]
  | failed inputs stale dir run exit =>
    refine ⟨hinspected inputs stale, ?_⟩
    rw [dir]

/-! ### Builds by a schedule -/

/-- A build whose compile steps are carried out by a schedule ends as one that carries
    them out one after the other. -/
structure EndsAlike (env : Environment) (c : BuildContext) (plan : BuildPlan) (h : Host)
    (schedule : List Nat) : Prop where
  result : ((c.executeBy plan schedule).runOn env h).1 = ((c.execute plan).runOn env h).1
  files : ∀ l, ((c.executeBy plan schedule).runOn env h).2.files.node? l =
    ((c.execute plan).runOn env h).2.files.node? l
  cache : FingerprintCache.ofFile ((c.executeBy plan schedule).runOn env h).2.files env.cwd
      c.fingerprintPath =
    .ofFile ((c.execute plan).runOn env h).2.files env.cwd c.fingerprintPath
  /-- Every step is carried out and comes to what it comes to alone. -/
  outcomes : ((c.compileBy (c.cacheBefore env h) plan.compileSteps schedule).runOn env
      (c.loaded env h)).1 =
    .ok (plan.compileSteps.map fun s => (s, ((c.compile (c.cacheBefore env h) s).runOn env h).1))
  /-- No compiler is left out because another step failed. -/
  started : ∀ s ∈ plan.compileSteps,
    c.compileCall s ∈
      ((c.compile (c.cacheBefore env h) s).runOn env { files := h.files }).2.started →
    c.compileCall s ∈ ((c.executeBy plan schedule).runOn env h).2.started
  /-- Of the steps that fail, the first in the plan gives the failure. -/
  first_failure : CacheSaved ((c.executeBy plan schedule).runOn env h).1 →
    ∀ pre s post e, plan.compileSteps = pre ++ s :: post →
      (∀ s' ∈ pre, ∃ d, ((c.compile (c.cacheBefore env h) s').runOn env h).1 = .ok d) →
      ((c.compile (c.cacheBefore env h) s).runOn env h).1 = .error e →
      ((c.executeBy plan schedule).runOn env h).1 = .error e

theorem firstFailure?_of_first {f : CompileStep → Except Failure Compiled} {pre post : List CompileStep}
    {e : Failure} (hpre : ∀ s' ∈ pre, ∃ d, f s' = .ok d) (hs : f s = .error e) :
    BuildContext.firstFailure? ((pre ++ s :: post).map fun s => (s, f s)) = some e := by
  induction pre with
  | nil => simp [BuildContext.firstFailure?, hs]
  | cons s' pre ih =>
    obtain ⟨d, hd⟩ := hpre s' List.mem_cons_self
    have hrest := ih fun s'' h'' => hpre s'' (List.mem_cons_of_mem s' h'')
    simpa [BuildContext.firstFailure?, hd] using hrest

/-- Where the compile steps are independent of each other and processes go by what the
    files show, every schedule of the compile steps comes to the same. -/
theorem executeBy_endsAlike (henv : env.Observant) (plan : BuildPlan) (h : Host)
    (ind : Independent env c plan.compileSteps h.files) (schedule : List Nat) :
    EndsAlike env c plan h schedule := by
  obtain ⟨h₀, hload, hfiles, -⟩ := FingerprintCache.runOn_load c.fingerprintPath env h
  have hloaded : c.loaded env h = h₀ := by rw [BuildContext.loaded, hload]
  have hcache : FingerprintCache.ofFile h.files env.cwd c.fingerprintPath = c.cacheBefore env h := rfl
  rw [hcache] at hload
  obtain ⟨h₁, hby, u₁⟩ := compileBy_underway (c.cacheBefore env h) ind hfiles schedule
  obtain ⟨h₂, hseq, u₂⟩ := compileBy_underway (c.cacheBefore env h) ind hfiles []
  have hout : (fun s => (s, alone env c (c.cacheBefore env h) h.files s)) =
      fun s => (s, ((c.compile (c.cacheBefore env h) s).runOn env h).1) := by
    funext s
    rw [result_compile]
  rw [hout] at hby hseq
  have hpar : (c.executeBy plan schedule).runOn env h =
      (c.conclude plan (c.cacheBefore env h) (plan.compileSteps.map fun s =>
        (s, ((c.compile (c.cacheBefore env h) s).runOn env h).1))).runOn env h₁ := by
    rw [BuildContext.executeBy, Action.runOn_bind, hload]
    simp only [Action.runOn_bind, hby]
  have hexec : (c.execute plan).runOn env h =
      (c.conclude plan (c.cacheBefore env h) (plan.compileSteps.map fun s =>
        (s, ((c.compile (c.cacheBefore env h) s).runOn env h).1))).runOn env h₂ := by
    rw [c.execute_eq_executeBy plan, BuildContext.executeBy, Action.runOn_bind, hload]
    simp only [Action.runOn_bind, hseq]
  obtain ⟨hres, halike⟩ := observant_conclude henv c (c.cacheBefore env h) plan
    (plan.compileSteps.map fun s => (s, ((c.compile (c.cacheBefore env h) s).runOn env h).1))
    h₁ h₂ (u₁.alike u₂)
  rw [← hpar, ← hexec] at hres halike
  refine ⟨hres, fun l => congrFun halike l, ?_, ?_, ?_, ?_⟩
  · unfold FingerprintCache.ofFile
    rw [halike.readFile]
  · rw [hloaded, hby]
  · intro s hs hstart
    have hruns := runs_of_started (h := { files := h.files }) rfl hstart
    have hthread : (s, Stage.done (alone env c (c.cacheBefore env h) h.files s)) ∈
        plan.compileSteps.map fun s => (s, Stage.done (alone env c (c.cacheBefore env h) h.files s)) :=
      List.mem_map.2 ⟨s, hs, rfl⟩
    obtain ⟨procs, hprocs⟩ := started_conclude env c (c.cacheBefore env h) plan h₁
      (plan.compileSteps.map fun s => (s, ((c.compile (c.cacheBefore env h) s).runOn env h).1))
    rw [hpar, hprocs]
    exact List.mem_append_left procs (u₁.ran s _ hthread hruns).2
  · intro saved pre s post e hplan hpre hs
    rw [hpar] at saved ⊢
    apply result_conclude _ saved
    rw [hplan]
    exact firstFailure?_of_first hpre hs

/-! ### Three steps at the same time -/

namespace Sample

theorem observant_telling (bad : String) : (tellingEnvironment bad).Observant := by
  intro t u i alike
  show (tellingRun bad t i).1 = (tellingRun bad u i).1 ∧
    FileTree.Alike (tellingRun bad t i).2 (tellingRun bad u i).2
  unfold tellingRun
  cases resultOf i.command.args with
  | none => exact ⟨rfl, alike⟩
  | some p => exact ⟨rfl, alike.set _ _⟩

/-- What the telling tools do for a step that says where they write. -/
theorem run_telling {bad : String} {i : Invocation} {o : Path} (h : resultOf i.command.args = some o)
    (u : FileTree) : ((tellingEnvironment bad).run u i).2 =
      u.set (o.locate []) (.file "made".toUTF8 false) := by
  show (tellingRun bad u i).2 = _
  unfold tellingRun
  rw [h]

theorem independent_manifestPlan (bad : String) :
    Independent (tellingEnvironment bad) manifestContext manifestPlan.compileSteps sources := by
  have hplans : (Project.of { manifest }).Plans manifestContext manifestPlan :=
    ⟨⟨rfl, rfl, rfl⟩, _, planned_manifest⟩
  have hresult : ∀ s ∈ manifestPlan.compileSteps, resultOf s.command.args = some s.output := by decide
  have hplace : ∀ s ∈ manifestPlan.compileSteps, s.output.locate [] ≠ [] := by decide
  refine ⟨?_, ?_, ?_, ?_⟩
  · have hway : sources.Straight [] manifestContext.outputDir ["p"] [".october", "target", "debug"] :=
      ⟨⟨["p"], by decide, rfl⟩, rfl, by decide⟩
    have hoff_way : ∀ s ∈ manifestPlan.compileSteps, s.output.locate [] ∉ manifestContext.outputDir.way [] := by
      decide
    exact .of_plans hplans closed_sources (by decide) hway hoff_way
  · intro s hs u grown
    have hmade (o : Path) (ho : ∃ s' ∈ manifestPlan.compileSteps, o = s'.output) :
        o ∈ manifestPlan.outputs ++ [manifestContext.fingerprintPath] := by
      obtain ⟨s', hs', rfl⟩ := ho
      exact List.mem_append_left _ (BuildPlan.object_mem_outputs hs')
    exact grown.withMade.ofStep_eq ((readsThere_manifestPlan s hs).mono hmade)
  · intro s hs u l hl
    rw [run_telling (hresult s hs), FileTree.node?_set, if_neg (fun h => hl h.2)]
  · intro s hs u grown
    refine ⟨?_, ?_⟩
    · show (tellingRun bad _ _).1 = (tellingRun bad _ _).1
      unfold tellingRun
      cases resultOf (manifestContext.compileCall s).command.args with
      | none => rfl
      | some p => rfl
    · have hown : s.output.locate (tellingEnvironment bad).cwd = s.output.locate [] := rfl
      have hcall : resultOf (manifestContext.compileCall s).command.args = some s.output := hresult s hs
      unfold left
      rw [run_telling hcall, run_telling hcall, hown,
        FileTree.node?_set_same _ _ (hplace s hs), FileTree.node?_set_same _ _ (hplace s hs)]

end Sample

/-- Two targets with three sources, one of which reads a header and one of which does not
    compile. -/
theorem executeBy_endsAlike_threeSteps :
    BuildPlan.ofTargets Sample.manifestContext Sample.manifest.targets = .ok Sample.manifestPlan ∧
      Sample.manifestPlan.compileSteps.length = 3 ∧
      EndsAlike (Sample.tellingEnvironment "b.c") Sample.manifestContext Sample.manifestPlan
        { files := Sample.sources } [2, 1, 0, 0, 2, 1, 1, 2, 0] :=
  ⟨Sample.planned_manifest, rfl,
    executeBy_endsAlike (Sample.observant_telling "b.c") Sample.manifestPlan { files := Sample.sources }
      (Sample.independent_manifestPlan "b.c") _⟩

/-! ### Steps in each other's way -/

/-- The outputs of compile steps are different places, no step reads what is there, and a
    compiler writes only its own. -/
structure OwnOutputs (env : Environment) (c : BuildContext) (ss : List CompileStep) : Prop where
  distinct : (ss.map fun s => s.output.locate env.cwd).Nodup
  unread : ∀ s ∈ ss, s.Unread env.cwd c.root (ss.map CompileStep.output)
  writes : ∀ s ∈ ss, ∀ u l, l ≠ s.output.locate env.cwd →
    (env.run u (c.compileCall s)).2.node? l = u.node? l

/-- A build by a schedule whose cache is known. -/
theorem BuildContext.runOn_executeBy_of_load (c : BuildContext) (plan : BuildPlan) (schedule : List Nat)
    {env : Environment} {h : Host} {cache : FingerprintCache}
    (load : (FingerprintCache.load c.fingerprintPath).runOn env h = (.ok cache, h)) :
    (c.executeBy plan schedule).runOn env h =
      (c.compileBy cache plan.compileSteps schedule >>= c.conclude plan cache).runOn env h := by
  unfold executeBy
  rw [Action.runOn_bind_of_ok load]

namespace Sample

def pairPlan (first second : CompileStep) : BuildPlan where
  profile := "debug"
  root := ⟨"/p"⟩
  compileSteps := [first, second]
  linkSteps := []

/-- A source that is there as soon as the directory for the objects is. -/
def roundaboutPlan : BuildPlan :=
  pairPlan (compileStep "out/../b.c" "/p/out/b.o") (compileStep "c.c" "/p/out/c.o")

/-- An object that is where another one has its directory. -/
def nestedPlan : BuildPlan := pairPlan (compileStep "b.c" "/p/o") (compileStep "c.c" "/p/o/c.o")

/-- An object on a way that goes up again from the directory of another one. -/
def upwardPlan : BuildPlan :=
  { pairPlan (compileStep "b.c" "/p/o/../b.o") { compileStep "c.c" "/p/o/c.o" with target := "c" } with
    linkSteps := [{ linkStep with objects := [⟨"/p/o/../b.o"⟩] }] }

def pair : Host where
  files := [(["p"], .dir), (["p", "b.c"], .file "int b;".toUTF8 false),
    (["p", "c.c"], .file "int c;".toUTF8 false)].foldl (fun t e => t.set e.1 e.2) ∅

/-- After a build the directory of the other object is removed. -/
@[irreducible] def withoutDir : Host where
  files := ((context.execute upwardPlan).runOn (writingEnvironment "-bad") pair).2.files.remove ["p", "o"]

@[irreducible] def upwardCache : FingerprintCache :=
  context.cacheRecorded upwardPlan (writingEnvironment "-bad") pair

theorem course_of_upward :
    failedToSave ((context.execute upwardPlan).runOn (writingEnvironment "-bad") pair).1 = false ∧
    ((context.proceed upwardCache upwardPlan).runOn (writingEnvironment "-bad") withoutDir).1.toOption.map
      (fun artifacts => artifacts.map Artifact.fresh) = some [false] ∧
    ((context.compileBy upwardCache upwardPlan.compileSteps [1, 1] >>=
      context.conclude upwardPlan upwardCache).runOn (writingEnvironment "-bad") withoutDir).1.toOption.map
        (fun artifacts => artifacts.map Artifact.fresh) = some [true] := by
  decide +kernel

theorem load_withoutDir :
    (FingerprintCache.load context.fingerprintPath).runOn (writingEnvironment "-bad") withoutDir =
      (.ok upwardCache, withoutDir) := by
  have hway : ∀ l ∈ context.fingerprintPath.way [], l ≠ [] → (["p", "o"] : Location).isPrefixOf l = false := by
    decide
  rw [upwardCache]
  refine context.runOn_load_of_kept upwardPlan _ pair ((cacheSaved_iff _).2 course_of_upward.1) fun l hl => ?_
  unfold withoutDir
  by_cases hroot : l = []
  · simp only [hroot, FileTree.node?, if_true]
  · rw [FileTree.node?_remove _ _ _ hroot, hway l hl hroot, if_neg Bool.false_ne_true]

theorem ownOutputs_writing {plan : BuildPlan}
    (distinct : (plan.compileSteps.map fun s => s.output.locate []).Nodup)
    (unread : ∀ s ∈ plan.compileSteps, s.Unread [] ⟨"/p"⟩ (plan.compileSteps.map CompileStep.output))
    (results : ∀ s ∈ plan.compileSteps, resultOf s.command.args = some s.output) :
    OwnOutputs (writingEnvironment "-bad") context plan.compileSteps where
  distinct := distinct
  unread := unread
  writes s hs u _ hl := (tidyRun_writing (i := context.compileCall s) (results s hs) u).elsewhere hl

end Sample

/-- It is not enough that outputs are different places and read by no step: a build whose
    second step goes first ends differently if the first step reads its source by way of the
    directory for objects, if the output of the first step is where that of the second needs a
    directory, and if the way to it goes up from a directory that is not there yet. -/
theorem schedules_differ :
    (OwnOutputs (Sample.writingEnvironment "-bad") Sample.context Sample.roundaboutPlan.compileSteps ∧
      ¬ EndsAlike (Sample.writingEnvironment "-bad") Sample.context Sample.roundaboutPlan Sample.pair
        [1, 1]) ∧
    (OwnOutputs (Sample.writingEnvironment "-bad") Sample.context Sample.nestedPlan.compileSteps ∧
      ¬ EndsAlike (Sample.writingEnvironment "-bad") Sample.context Sample.nestedPlan Sample.pair
        [1, 1]) ∧
    OwnOutputs (Sample.writingEnvironment "-bad") Sample.context Sample.upwardPlan.compileSteps ∧
      ¬ EndsAlike (Sample.writingEnvironment "-bad") Sample.context Sample.upwardPlan Sample.withoutDir
        [1, 1] := by
  refine ⟨⟨Sample.ownOutputs_writing (by decide) (by decide) (by decide), fun alike => ?_⟩,
    ⟨Sample.ownOutputs_writing (by decide) (by decide) (by decide), fun alike => ?_⟩,
    Sample.ownOutputs_writing (by decide) (by decide) (by decide), fun alike => ?_⟩
  · have hresults :
        ((Sample.context.executeBy Sample.roundaboutPlan [1, 1]).runOn (Sample.writingEnvironment "-bad")
            Sample.pair).1.isOk = true ∧
          ((Sample.context.execute Sample.roundaboutPlan).runOn (Sample.writingEnvironment "-bad")
            Sample.pair).1.isOk = false := by decide +kernel
    rw [alike.result, hresults.2] at hresults
    cases hresults.1
  · have hplaces :
        ((Sample.context.executeBy Sample.nestedPlan [1, 1]).runOn (Sample.writingEnvironment "-bad")
            Sample.pair).2.files.isDirAt ["p", "o"] = true ∧
          ((Sample.context.execute Sample.nestedPlan).runOn (Sample.writingEnvironment "-bad")
            Sample.pair).2.files.isDirAt ["p", "o"] = false := by decide +kernel
    rw [FileTree.isDirAt, alike.files, ← FileTree.isDirAt, hplaces.2] at hplaces
    cases hplaces.1
  · obtain ⟨-, hinOrder, hschedule⟩ := Sample.course_of_upward
    rw [← Sample.context.runOn_executeBy_of_load _ _ Sample.load_withoutDir, alike.result,
      Sample.context.runOn_execute_of_load _ Sample.load_withoutDir, hinOrder] at hschedule
    cases hschedule

end GrammarBuild
