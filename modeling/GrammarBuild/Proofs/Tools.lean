import GrammarBuild.Proofs.Trust
import GrammarBuild.Proofs.Ways

/-
  GrammarBuild/Proofs/Tools.lean
  ==============================
  **Tools that are functions** — whether a compiler exits with 0 and what it then makes is
  a function of what the step depends on, and likewise for a linker (`Tools`, `Govern`).

  Then every writer of a result has left what this function says (`Honest`), and along the
  turns of a build the files stay those of a ground without results, with results at their
  places and directories on the ways to them (`Filled`).  So `Compiles.ok_iff` and
  `Links.ok_iff`: a step comes out well exactly if the tools make something of what it
  depends on and the directory for its result can be made on the ground, fresh or not.
-/

namespace GrammarBuild

open FileTree

/-! ### What tools make -/

/-- What tools make of what a step depends on; nothing if they do not exit with 0. -/
structure Tools where
  object : CompileKey → Option ByteArray
  module : LinkKey → Option ByteArray

/-- A process comes out as one that makes this of the place `l`.  If it makes nothing, it
    leaves the place as it is. -/
def CameOut (made : Option ByteArray) (l : Location) (t : FileTree)
    (run : Except HostFault Completed × FileTree) : Prop :=
  match made with
  | some bytes => exitsZero run.1 = true ∧ ∃ x, run.2.node? l = some (.file bytes x)
  | none => exitsZero run.1 = false ∧ run.2.node? l = t.node? l

/-- The processes of a plan come out as the tools say, whatever the files are, except that
    nothing is said of a place where a directory is. -/
structure Tools.Govern (T : Tools) (env : Environment) (c : BuildContext) (plan : BuildPlan) :
    Prop where
  compile : ∀ s ∈ plan.compileSteps, ∀ t u i,
    CompileInputs.ofStep t env.cwd c.root s = .ok i → t.prepare env.cwd s.output = (.ok (), u) →
    u.isDirAt (s.output.locate env.cwd) = false →
    CameOut (T.object (i.key s c.toolchain.identity)) (s.output.locate env.cwd) u
      (env.run u (c.compileCall s))
  link : ∀ s ∈ plan.linkSteps, ∀ t u i,
    LinkInputs.ofStep t env.cwd s = .ok i → t.prepare env.cwd s.output = (.ok (), u) →
    u.isDirAt (s.output.locate env.cwd) = false →
    CameOut (T.module (i.key s)) (s.output.locate env.cwd) u (env.run u (c.linkCall s))

/-- A writer was recorded and has left what the tools make. -/
def Writer.Left {κ : Type} (make : κ → Option ByteArray) (w : Writer κ) : Prop :=
  w.fate = .saved ∧ ∃ bytes x, make w.key = some bytes ∧ w.left = some (.file bytes x)

/-- Every result was written as the tools say. -/
structure Tools.Honest (T : Tools) (W : Writers) : Prop where
  object : ∀ l w, W.objects l = some w → w.Left T.object
  module : ∀ l w, W.modules l = some w → w.Left T.module

theorem Writer.next_left {κ : Type} {make : κ → Option ByteArray} {w : Option (Writer κ)} {key : κ}
    {ran : Bool} {before after : Option Node} (hw : ∀ v, w = some v → v.Left make)
    (made : ran = true → ∃ bytes x, make key = some bytes ∧ after = some (.file bytes x))
    (idle : ran = false → after = before ∨ after = some .dir) {v : Writer κ}
    (hv : Writer.next w key ran true before after = some v) : v.Left make := by
  unfold Writer.next at hv
  split at hv
  · rename_i hwrote
    injection hv with hv
    subst hv
    cases ran with
    | true => exact ⟨rfl, made rfl⟩
    | false =>
      exfalso
      rcases hwrote with hfalse | ⟨hne, hnd⟩
      · cases hfalse
      · rcases idle rfl with h | h
        · exact hne h
        · exact hnd h
  · exact hw v hv

/-! ### The ground of a build -/

/-- What the builds of some plans of a project write: objects, modules and the cache. -/
inductive Project.Makes (P : Project) (K : BuildContext → BuildPlan → Prop) : Path → Prop where
  | object {c : BuildContext} {plan : BuildPlan} {s : CompileStep} (known : K c plan)
    (mem : s ∈ plan.compileSteps) : P.Makes K s.output
  | module {c : BuildContext} {plan : BuildPlan} {s : LinkStep} (known : K c plan)
    (mem : s ∈ plan.linkSteps) : P.Makes K s.output
  | cache : P.Makes K P.cachePath

/-- None of this is where another needs a directory. -/
def Project.Apart (P : Project) (cwd : Location) (K : BuildContext → BuildPlan → Prop) : Prop :=
  ∀ o o', P.Makes K o → P.Makes K o' → o.locate cwd ∉ o'.dirWay cwd

/-- `u` is `z` with files at the places of results and directories on the ways to them. -/
def Project.Filled (P : Project) (cwd : Location) (K : BuildContext → BuildPlan → Prop)
    (z u : FileTree) : Prop :=
  ∀ l, u.node? l = z.node? l ∨
    (u.isDirAt l = false ∧ ∃ o, P.Makes K o ∧ l = o.locate cwd) ∨
    (Gains z u l ∧ ∃ o, P.Makes K o ∧ l ∈ o.dirWay cwd)

/-- A ground for some plans of a project: there are no results on it. -/
structure Project.Ground (P : Project) (cwd : Location) (K : BuildContext → BuildPlan → Prop)
    (z : FileTree) : Prop where
  apart : P.Apart cwd K
  bare : ∀ o, P.Makes K o → z.node? (o.locate cwd) = none

section

variable {P : Project} {cwd : Location} {K : BuildContext → BuildPlan → Prop} {z t u v : FileTree}
  {o : Path} {l : Location}

namespace Project.Filled

theorem refl (z : FileTree) : P.Filled cwd K z z := fun _ => .inl rfl

/-- No directory is at the place of a result. -/
theorem notDir (f : P.Filled cwd K z u) (g : P.Ground cwd K z) (made : P.Makes K o) :
    u.isDirAt (o.locate cwd) = false := by
  rcases f (o.locate cwd) with heq | ⟨hnot, -⟩ | ⟨-, o', made', hmem⟩
  · exact isDirAt_false_of_none (heq.trans (g.bare o made))
  · exact hnot
  · exact absurd hmem (g.apart o o' made made')

theorem onWay (f : P.Filled cwd K z u) (g : P.Ground cwd K z) (made : P.Makes K o) :
    ∀ m ∈ o.dirWay cwd, u.node? m = z.node? m ∨ Gains z u m := by
  intro m hm
  rcases f m with heq | ⟨-, o', made', rfl⟩ | ⟨hgain, -⟩
  · exact .inl heq
  · exact absurd hm (g.apart o' o made' made)
  · exact .inr hgain

theorem dirs (f : P.Filled cwd K z t) (g : P.Ground cwd K z) (made : P.Makes K o)
    (adds : AddsDirs (o.dirWay cwd) t u) : P.Filled cwd K z u := by
  intro l
  rcases adds l with heq | ⟨hmem, hnone, hdir⟩
  · have hd : u.isDirAt l = t.isDirAt l := by rw [FileTree.isDirAt, heq, FileTree.isDirAt]
    rw [Gains, heq, hd]
    exact f l
  · rcases f l with heq | ⟨-, o', made', rfl⟩ | ⟨hgain, -⟩
    · exact .inr (.inr ⟨⟨heq.symm.trans hnone, hdir⟩, o, made, hmem⟩)
    · exact absurd hmem (g.apart o' o made' made)
    · rw [hgain.2] at hnone
      cases hnone

theorem file (f : P.Filled cwd K z t) (made : P.Makes K o)
    (elsewhere : ∀ l, l ≠ o.locate cwd → u.node? l = t.node? l)
    (file : u.isDirAt (o.locate cwd) = false) : P.Filled cwd K z u := by
  intro l
  by_cases hl : l = o.locate cwd
  · exact .inr (.inl ⟨hl ▸ file, o, made, hl⟩)
  · have hd : u.isDirAt l = t.isDirAt l := by
      rw [FileTree.isDirAt, elsewhere l hl, FileTree.isDirAt]
    rw [Gains, elsewhere l hl, hd]
    exact f l

end Project.Filled

theorem FileTree.keeps_file (file : t.isDirAt l = false)
    (elsewhere : ∀ m, m ≠ l → u.node? m = t.node? m)
    (there : (t.node? l).isSome = true → (u.node? l).isSome = true) : Keeps t u where
  dirs m hd := by
    have hm : m ≠ l := by
      rintro rfl
      rw [file] at hd
      cases hd
    rwa [FileTree.isDirAt, elsewhere m hm, ← FileTree.isDirAt]
  nodes m hn := by
    by_cases hm : m = l
    · rw [hm] at hn ⊢
      exact there hn
    · rwa [elsewhere m hm]

theorem CameOut.exited {made : Option ByteArray} {q : Except HostFault Completed}
    (h : CameOut made l t (q, u)) (exit : exitsZero q = true) :
    ∃ bytes x, made = some bytes ∧ u.node? l = some (.file bytes x) := by
  cases made with
  | some bytes =>
    obtain ⟨-, x, hx⟩ := h
    exact ⟨bytes, x, rfl, hx⟩
  | none =>
    have hexit : exitsZero q = false := h.1
    rw [exit] at hexit
    cases hexit

theorem CameOut.failed {made : Option ByteArray} {q : Except HostFault Completed}
    (h : CameOut made l t (q, u)) (exit : exitsZero q = false) :
    made = none ∧ u.node? l = t.node? l := by
  cases made with
  | some bytes =>
    have hexit : exitsZero q = true := h.1
    rw [exit] at hexit
    cases hexit
  | none => exact ⟨rfl, h.2⟩

theorem CameOut.place {made : Option ByteArray} {q : Except HostFault Completed}
    (h : CameOut made l t (q, u)) (file : t.isDirAt l = false) :
    u.isDirAt l = false ∧ ((t.node? l).isSome = true → (u.node? l).isSome = true) := by
  cases hq : exitsZero q with
  | true =>
    obtain ⟨bytes, x, -, hx⟩ := h.exited hq
    rw [FileTree.isDirAt, hx]
    exact ⟨rfl, fun _ => rfl⟩
  | false =>
    obtain ⟨-, hsame⟩ := h.failed hq
    rw [FileTree.isDirAt, hsame, ← FileTree.isDirAt]
    exact ⟨file, id⟩

namespace Project.Filled

variable {e : Except Failure Unit} {base : Location} {rest : List String} {n : String}

theorem prepared (f : P.Filled cwd K z t) (g : P.Ground cwd K z) (made : P.Makes K o)
    (dir : t.prepare cwd o = (e, u)) : P.Filled cwd K z u ∧ Keeps t u := by
  have adds := t.prepare_adds cwd o
  rw [dir] at adds
  exact ⟨f.dirs g made adds, adds.keeps⟩

theorem worked (f : P.Filled cwd K z t) (g : P.Ground cwd K z) (made : P.Makes K o)
    {b : Option ByteArray} {q : Except HostFault Completed} (dir : t.prepare cwd o = (e, u))
    (own : ∀ l, l ≠ o.locate cwd → v.node? l = u.node? l)
    (out : CameOut b (o.locate cwd) u (q, v)) : P.Filled cwd K z v ∧ Keeps t v := by
  obtain ⟨hf, hk⟩ := f.prepared g made dir
  have hplace := hf.notDir g made
  obtain ⟨hfile, hthere⟩ := out.place hplace
  exact ⟨hf.file made own hfile, hk.trans (keeps_file hplace own hthere)⟩

/-- The directory for a result is made or refused as on the ground. -/
theorem prepare_eq (f : P.Filled cwd K z t) (g : P.Ground cwd K z) (made : P.Makes K o)
    (closed : z.Closed) (straight : z.Straight cwd o base (rest ++ [n])) :
    (t.prepare cwd o).1 = (z.prepare cwd o).1 :=
  (prepare_over (f.onWay g made) closed straight).1

/-- What is on the way to a result, where nothing is on the ground, is a directory. -/
theorem reaches (f : P.Filled cwd K z t) (g : P.Ground cwd K z) (made : P.Makes K o)
    (straight : z.Straight cwd o base (rest ++ [n])) (bare : z.node? (base ++ rest) = none)
    (hne : rest ≠ []) (walk : t.walk base rest = .ok (base ++ rest)) : t.Reaches base rest := by
  have down : Downward rest := fun name hn => straight.downward name (List.mem_append_left [n] hn)
  have hsome := isSome_of_walk down hne walk
  refine ⟨walk, ?_⟩
  rcases f.onWay g made _ straight.mem_dirWay with heq | hgain
  · rw [heq, bare] at hsome
    cases hsome
  · rw [isDirAt_node?]
    exact hgain.2

end Project.Filled

end

/-! ### Turns of compile steps -/

section

variable {P : Project} {K : BuildContext → BuildPlan → Prop} {T : Tools} {env : Environment}
  {c : BuildContext} {plan : BuildPlan} {now : FingerprintCache} {W : Writers} {z t u : FileTree}
  {base : Location} {rest : List String} {n : String}

/-- What is there can be trusted if it was written as the tools say. -/
theorem FreshFrom.made {κ : Type} {make : κ → Option ByteArray} {m : Option Node} {w : Writer κ}
    {key : κ} (h : FreshFrom m w key) (left : w.Left make) (file : m ≠ some .dir) :
    ∃ bytes x, make key = some bytes ∧ m = some (.file bytes x) := by
  obtain ⟨hsaved, bytes, x, hmake, hleft⟩ := left
  have hm := h.left.resolve_right file
  have trusted := h.trusted_iff.2 ⟨hm, .inl hsaved⟩
  rw [trusted.current] at hmake
  exact ⟨bytes, x, hmake, hm.trans hleft⟩

section

variable {s : CompileStep} {r : Except Failure Compiled} {procs : List Invocation}

theorem Compiles.cameOut (f : P.Filled env.cwd K z t) (g : P.Ground env.cwd K z) (known : K c plan)
    (hs : s ∈ plan.compileSteps) (govern : T.Govern env c plan) {i : CompileInputs} {v : FileTree}
    {q : Except HostFault Completed} (inputs : CompileInputs.ofStep t env.cwd c.root s = .ok i)
    (dir : t.prepare env.cwd s.output = (.ok (), v)) (run : env.run v (c.compileCall s) = (q, u)) :
    CameOut (T.object (i.key s c.toolchain.identity)) (s.output.locate env.cwd) v (q, u) := by
  have made : P.Makes K s.output := .object known hs
  have out := govern.compile s hs t v i inputs dir ((f.prepared g made dir).1.notDir g made)
  rwa [run] at out

theorem Compiles.filled (h : Compiles env c now s t r u procs) (f : P.Filled env.cwd K z t)
    (g : P.Ground env.cwd K z) (known : K c plan) (hs : s ∈ plan.compileSteps)
    (govern : T.Govern env c plan) (own : WritesOwn env c plan) :
    P.Filled env.cwd K z u ∧ Keeps t u := by
  have made : P.Makes K s.output := .object known hs
  have hrun {i : CompileInputs} {v : FileTree} {q : Except HostFault Completed}
      (inputs : CompileInputs.ofStep t env.cwd c.root s = .ok i)
      (dir : t.prepare env.cwd s.output = (.ok (), v))
      (run : env.run v (c.compileCall s) = (q, u)) : P.Filled env.cwd K z u ∧ Keeps t u := by
    have hown := own.compile s hs v
    rw [run] at hown
    exact f.worked g made dir hown (Compiles.cameOut f g known hs govern inputs dir run)
  cases h with
  | unreadable => exact ⟨f, fun _ h => h, fun _ h => h⟩
  | fresh => exact ⟨f, fun _ h => h, fun _ h => h⟩
  | blocked _ _ dir => exact f.prepared g made dir
  | succeeded inputs _ dir run => exact hrun inputs dir run
  | failed inputs _ dir run => exact hrun inputs dir run

theorem Tools.Honest.afterCompile (honest : T.Honest W) (h : Compiles env c now s t r u procs)
    (f : P.Filled env.cwd K z t) (g : P.Ground env.cwd K z) (known : K c plan)
    (hs : s ∈ plan.compileSteps) (govern : T.Govern env c plan) :
    T.Honest (W.afterCompile env c true ⟨s, t, r, u⟩) where
  object := by
    intro l w hw
    by_cases hl : l = s.output.locate env.cwd
    · subst hl
      cases h with
      | @unreadable e inputs =>
        have hW : W.afterCompile env c true ⟨s, t, .error (e.inside (.readingSource s.source)), t⟩ = W := by
          unfold Writers.afterCompile
          simp only [inputs]
        rw [hW] at hw
        exact honest.object _ w hw
      | fresh inputs =>
        rw [Writers.objects_afterCompile true inputs] at hw
        exact Writer.next_left (honest.object _) (fun h => by cases h) (fun _ => .inl rfl) hw
      | blocked inputs _ dir =>
        rw [Writers.objects_afterCompile true inputs] at hw
        refine Writer.next_left (honest.object _) (fun h => by cases h) (fun _ => ?_) hw
        exact prepare_node?_or dir _
      | succeeded inputs _ dir run exit =>
        rw [Writers.objects_afterCompile true inputs] at hw
        refine Writer.next_left (honest.object _) (fun _ => ?_) (fun h => by cases h) hw
        exact (Compiles.cameOut f g known hs govern inputs dir run).exited exit
      | failed inputs _ dir run exit =>
        rw [Writers.objects_afterCompile true inputs] at hw
        refine Writer.next_left (honest.object _) (fun h => by cases h) (fun _ => ?_) hw
        rw [((Compiles.cameOut f g known hs govern inputs dir run).failed exit).2]
        exact prepare_node?_or dir _
    · rw [Writers.objects_afterCompile_ne true ⟨s, t, r, u⟩ hl] at hw
      exact honest.object l w hw
  module := by
    rw [Writers.modules_afterCompile]
    exact honest.module

variable (T env c z) in
/-- The tools make something of what a compile step depends on, and the directory for its
    object can be made. -/
def CanCompile (s : CompileStep) : Prop :=
  ∃ i, CompileInputs.ofStep z env.cwd c.root s = .ok i ∧
    (∃ bytes, T.object (i.key s c.toolchain.identity) = some bytes) ∧
    (z.prepare env.cwd s.output).1 = .ok ()

/-- A compile step comes out well exactly if it can, whether its object is fresh or not. -/
theorem Compiles.ok_iff (h : Compiles env c now s t r u procs) (f : P.Filled env.cwd K z t)
    (g : P.Ground env.cwd K z) (closed : z.Closed) (known : K c plan) (hs : s ∈ plan.compileSteps)
    (govern : T.Govern env c plan) (straight : z.Straight env.cwd s.output base (rest ++ [n]))
    (reads : CompileInputs.ofStep t env.cwd c.root s = CompileInputs.ofStep z env.cwd c.root s)
    (honest : T.Honest W) (worth : ObjectWorth env c W ⟨s, t, r, u⟩) :
    (∃ d, r = .ok d) ↔ CanCompile T env c z s := by
  have made : P.Makes K s.output := .object known hs
  have hplace := f.notDir g made
  have hprepare := f.prepare_eq g made closed straight
  have hfailed {e : Failure} : (∃ d, (Except.error e : Except Failure Compiled) = .ok d) ↔ False := by
    simp
  unfold CanCompile
  rw [← reads, ← hprepare]
  cases h with
  | unreadable inputs =>
    rw [hfailed, inputs, false_iff]
    rintro ⟨i, hi, -⟩
    cases hi
  | @fresh i inputs fresh =>
    refine iff_of_true ⟨_, rfl⟩ ⟨i, inputs, ?_, ?_⟩
    · obtain ⟨i', w, hi', hw, hfrom⟩ := worth _ rfl rfl
      obtain rfl : i = i' := Except.ok.inj (inputs.symm.trans hi')
      obtain ⟨bytes, x, hmake, -⟩ := hfrom.made (honest.object _ w hw) (by
        intro hdir
        rw [(isDirAt_node? t _).2 hdir] at hplace
        cases hplace)
      exact ⟨bytes, hmake⟩
    · obtain ⟨a, ha, -⟩ := straight.front
      rw [prepare_of_pathExists (FingerprintCache.objectFresh_iff.1 fresh).1 (by simp [ha])]
  | blocked inputs _ dir =>
    rw [hfailed, dir, false_iff]
    rintro ⟨i, -, -, hok⟩
    cases hok
  | @succeeded i _ _ _ inputs _ dir run exit =>
    obtain ⟨bytes, x, hmake, -⟩ := (Compiles.cameOut f g known hs govern inputs dir run).exited exit
    refine iff_of_true ⟨_, rfl⟩ ⟨i, inputs, ⟨bytes, hmake⟩, ?_⟩
    rw [dir]
  | failed inputs _ dir run exit =>
    rw [hfailed, false_iff]
    rintro ⟨i, hi, ⟨bytes, hbytes⟩, -⟩
    obtain rfl := Except.ok.inj (inputs.symm.trans hi)
    rw [((Compiles.cameOut f g known hs govern inputs dir run).failed exit).1] at hbytes
    cases hbytes

variable (T env c z) in
/-- At the place of a step's object there is what the tools make on the ground. -/
structure Stands (base : Location) (rest : List String) (s : CompileStep) (u : FileTree) : Prop where
  object : ∃ i bytes x, CompileInputs.ofStep z env.cwd c.root s = .ok i ∧
    T.object (i.key s c.toolchain.identity) = some bytes ∧
    u.node? (s.output.locate env.cwd) = some (.file bytes x)
  reached : u.Reaches base rest

theorem Stands.kept (h : Stands T env c z base rest s t) (k : Keeps t u)
    (same : u.node? (s.output.locate env.cwd) = t.node? (s.output.locate env.cwd)) :
    Stands T env c z base rest s u := by
  obtain ⟨i, bytes, x, hi, hmake, hx⟩ := h.object
  exact ⟨⟨i, bytes, x, hi, hmake, same.trans hx⟩, k.reaches h.reached⟩

theorem Compiles.stands (h : Compiles env c now s t r u procs) (f : P.Filled env.cwd K z t)
    (g : P.Ground env.cwd K z) (closed : z.Closed) (known : K c plan) (hs : s ∈ plan.compileSteps)
    (govern : T.Govern env c plan) (own : WritesOwn env c plan)
    (straight : z.Straight env.cwd s.output base (rest ++ [n]))
    (bare : z.node? (base ++ rest) = none) (hne : rest ≠ [])
    (reads : CompileInputs.ofStep t env.cwd c.root s = CompileInputs.ofStep z env.cwd c.root s)
    (honest : T.Honest W) (worth : ObjectWorth env c W ⟨s, t, r, u⟩) {d : Compiled} (ok : r = .ok d) :
    Stands T env c z base rest s u := by
  have made : P.Makes K s.output := .object known hs
  have hplace := f.notDir g made
  have hfilled := (h.filled f g known hs govern own).1
  have hstraight := straight.kept (f.onWay g made)
  cases h with
  | unreadable => cases ok
  | @fresh i inputs fresh =>
    have found := (FingerprintCache.objectFresh_iff.1 fresh).1
    refine ⟨?_, f.reaches g made straight bare hne (walk_of_pathExists hstraight found)⟩
    obtain ⟨i', w, hi', hw, hfrom⟩ := worth _ rfl rfl
    obtain rfl : i = i' := Except.ok.inj (inputs.symm.trans hi')
    obtain ⟨bytes, x, hmake, hx⟩ := hfrom.made (honest.object _ w hw) (by
      intro hdir
      rw [(isDirAt_node? t _).2 hdir] at hplace
      cases hplace)
    exact ⟨i, bytes, x, reads ▸ inputs, hmake, hx⟩
  | blocked => cases ok
  | @succeeded i v _ q inputs _ dir run exit =>
    have hground := straight.grounded (f.onWay g made) closed
    have out := Compiles.cameOut f g known hs govern inputs dir run
    have hown := own.compile s hs v
    rw [run] at hown
    obtain ⟨bytes, x, hmake, hx⟩ := out.exited exit
    refine ⟨⟨i, bytes, x, reads ▸ inputs, hmake, hx⟩, ?_⟩
    have hv := (f.prepared g made dir).1
    obtain ⟨hfile, hthere⟩ := out.place (hv.notDir g made)
    exact (keeps_file (hv.notDir g made) hown hthere).reaches
      (hv.reaches g made straight bare hne (walk_of_prepare hstraight hground hne dir))
  | failed => cases ok

end

/-! ### Turns of link steps -/

section

variable {s : LinkStep} {rebuilt : Bool} {r : Except Failure (Artifact × FingerprintCache)}
  {procs : List Invocation}

theorem Links.cameOut (f : P.Filled env.cwd K z t) (g : P.Ground env.cwd K z) (known : K c plan)
    (hs : s ∈ plan.linkSteps) (govern : T.Govern env c plan) {i : LinkInputs} {v : FileTree}
    {q : Except HostFault Completed} (inputs : LinkInputs.ofStep t env.cwd s = .ok i)
    (dir : t.prepare env.cwd s.output = (.ok (), v)) (run : env.run v (c.linkCall s) = (q, u)) :
    CameOut (T.module (i.key s)) (s.output.locate env.cwd) v (q, u) := by
  have made : P.Makes K s.output := .module known hs
  have out := govern.link s hs t v i inputs dir ((f.prepared g made dir).1.notDir g made)
  rwa [run] at out

theorem Links.filled (h : Links env c now rebuilt s t r u procs) (f : P.Filled env.cwd K z t)
    (g : P.Ground env.cwd K z) (known : K c plan) (hs : s ∈ plan.linkSteps)
    (govern : T.Govern env c plan) (own : WritesOwn env c plan) :
    P.Filled env.cwd K z u ∧ Keeps t u := by
  have made : P.Makes K s.output := .module known hs
  have hrun {i : LinkInputs} {v : FileTree} {q : Except HostFault Completed}
      (inputs : LinkInputs.ofStep t env.cwd s = .ok i)
      (dir : t.prepare env.cwd s.output = (.ok (), v))
      (run : env.run v (c.linkCall s) = (q, u)) : P.Filled env.cwd K z u ∧ Keeps t u := by
    have hown := own.link s hs v
    rw [run] at hown
    exact f.worked g made dir hown (Links.cameOut f g known hs govern inputs dir run)
  cases h with
  | unreadable => exact ⟨f, fun _ h => h, fun _ h => h⟩
  | fresh => exact ⟨f, fun _ h => h, fun _ h => h⟩
  | blocked _ _ dir => exact f.prepared g made dir
  | succeeded inputs _ dir run => exact hrun inputs dir run
  | failed inputs _ dir run => exact hrun inputs dir run

theorem Tools.Honest.afterLink (honest : T.Honest W) (h : Links env c now rebuilt s t r u procs)
    (f : P.Filled env.cwd K z t) (g : P.Ground env.cwd K z) (known : K c plan)
    (hs : s ∈ plan.linkSteps) (govern : T.Govern env c plan) :
    T.Honest (W.afterLink env true ⟨s, t, r, u⟩) where
  object := by
    rw [Writers.objects_afterLink]
    exact honest.object
  module := by
    intro l w hw
    by_cases hl : l = s.output.locate env.cwd
    · subst hl
      cases h with
      | @unreadable e inputs =>
        have hW : W.afterLink env true ⟨s, t, .error e, t⟩ = W := by
          unfold Writers.afterLink
          simp only [inputs]
        rw [hW] at hw
        exact honest.module _ w hw
      | fresh inputs =>
        rw [Writers.modules_afterLink true inputs] at hw
        exact Writer.next_left (honest.module _) (fun h => by cases h) (fun _ => .inl rfl) hw
      | blocked inputs _ dir =>
        rw [Writers.modules_afterLink true inputs] at hw
        refine Writer.next_left (honest.module _) (fun h => by cases h) (fun _ => ?_) hw
        exact prepare_node?_or dir _
      | succeeded inputs _ dir run exit =>
        rw [Writers.modules_afterLink true inputs] at hw
        refine Writer.next_left (honest.module _) (fun _ => ?_) (fun h => by cases h) hw
        exact (Links.cameOut f g known hs govern inputs dir run).exited exit
      | failed inputs _ dir run exit =>
        rw [Writers.modules_afterLink true inputs] at hw
        refine Writer.next_left (honest.module _) (fun h => by cases h) (fun _ => ?_) hw
        rw [((Links.cameOut f g known hs govern inputs dir run).failed exit).2]
        exact prepare_node?_or dir _
    · rw [Writers.modules_afterLink_ne true ⟨s, t, r, u⟩ hl] at hw
      exact honest.module l w hw

variable (T env z) in
/-- The tools make something of the objects of a link step, as they are in `t`, and the
    directory for its module can be made. -/
def CanLink (t : FileTree) (s : LinkStep) : Prop :=
  ∃ i, LinkInputs.ofStep t env.cwd s = .ok i ∧ (∃ bytes, T.module (i.key s) = some bytes) ∧
    (z.prepare env.cwd s.output).1 = .ok ()

variable (T env) in
/-- At the place of a step's module there is what the tools make of the objects in `t`. -/
def StandsFrom (t : FileTree) (s : LinkStep) (u : FileTree) : Prop :=
  ∃ i bytes x, LinkInputs.ofStep t env.cwd s = .ok i ∧ T.module (i.key s) = some bytes ∧
    u.node? (s.output.locate env.cwd) = some (.file bytes x)

/-- A link step comes out well exactly if it can, whether its module is fresh or not, and
    then there is what the tools make of the objects. -/
theorem Links.ok_iff (h : Links env c now rebuilt s t r u procs) (f : P.Filled env.cwd K z t)
    (g : P.Ground env.cwd K z) (closed : z.Closed) (known : K c plan) (hs : s ∈ plan.linkSteps)
    (govern : T.Govern env c plan) (straight : z.Straight env.cwd s.output base (rest ++ [n]))
    (honest : T.Honest W) (worth : ModuleWorth env W ⟨s, t, r, u⟩) :
    ((∃ a, r = .ok a) ↔ CanLink T env z t s) ∧ ((∃ a, r = .ok a) → StandsFrom T env t s u) := by
  have made : P.Makes K s.output := .module known hs
  have hplace := f.notDir g made
  have hprepare := f.prepare_eq g made closed straight
  have hfailed {e : Failure} :
      (∃ a, (Except.error e : Except Failure (Artifact × FingerprintCache)) = .ok a) ↔ False := by
    simp
  unfold CanLink StandsFrom
  rw [← hprepare]
  cases h with
  | unreadable inputs =>
    rw [hfailed, inputs, false_iff]
    refine ⟨?_, False.elim⟩
    rintro ⟨i, hi, -⟩
    cases hi
  | @fresh i inputs fresh =>
    obtain ⟨i', w, hi', hw, hfrom⟩ := worth _ _ rfl rfl
    obtain rfl : i = i' := Except.ok.inj (inputs.symm.trans hi')
    obtain ⟨bytes, x, hmake, hx⟩ := hfrom.made (honest.module _ w hw) (by
      intro hdir
      rw [(isDirAt_node? t _).2 hdir] at hplace
      cases hplace)
    refine ⟨iff_of_true ⟨_, rfl⟩ ⟨i, inputs, ⟨bytes, hmake⟩, ?_⟩, fun _ => ⟨i, bytes, x, inputs, hmake, hx⟩⟩
    obtain ⟨a, ha, -⟩ := straight.front
    rw [prepare_of_pathExists (FingerprintCache.linkFresh_iff.1 fresh).2.1 (by simp [ha])]
  | blocked inputs _ dir =>
    rw [hfailed, dir, false_iff]
    refine ⟨?_, False.elim⟩
    rintro ⟨i, -, -, hok⟩
    cases hok
  | @succeeded i _ _ _ inputs _ dir run exit =>
    obtain ⟨bytes, x, hmake, hx⟩ := (Links.cameOut f g known hs govern inputs dir run).exited exit
    refine ⟨iff_of_true ⟨_, rfl⟩ ⟨i, inputs, ⟨bytes, hmake⟩, ?_⟩, fun _ => ⟨i, bytes, x, inputs, hmake, hx⟩⟩
    rw [dir]
  | failed inputs _ dir run exit =>
    rw [hfailed, false_iff]
    refine ⟨?_, False.elim⟩
    rintro ⟨i, hi, ⟨bytes, hbytes⟩, -⟩
    obtain rfl := Except.ok.inj (inputs.symm.trans hi)
    rw [((Links.cameOut f g known hs govern inputs dir run).failed exit).1] at hbytes
    cases hbytes

end

end

end GrammarBuild
