import GrammarBuild.Proofs.Views

/-
  GrammarBuild/Proofs/PlannedCommands.lean
  ========================================
  **Planning keeps what is declared, in its order** — the plan for two lists of targets one
  after the other is the plan for the first followed by the plan for the second, and planning
  stops at the first target that is invalid (`planning_keeps_order`).

  Flags come from the target, the profile and the settings, and they pass through the
  context and a toolchain before they stand in a command.  `BuildPlan.Commands` says for a
  target of the plan what its commands are, argument by argument; the two manners of
  toolchains differ only in what stands around the lists (`CompileManner`, `LinkManner`).
-/

namespace GrammarBuild

/-! ### What toolchains add to what they are given -/

/-- How a toolchain asks for an object: what stands in front of everything else, what marks
    include directories and definitions, and how the output is told. -/
structure CompileManner where
  program : Path
  front : List String
  includeMark : String
  definitionMark : String
  outputArgs : Path → List String

/-- How a toolchain asks for a module: what stands in front, the output in it. -/
structure LinkManner where
  program : Path
  front : Path → List String

namespace Toolchain

def compileManner : Toolchain → CompileManner
  | gnu cc _ =>
    { program := cc, front := ["-c", "-fPIC"], includeMark := "-I", definitionMark := "-D"
      outputArgs := fun o => ["-o", o.text] }
  | msvc cl _ =>
    { program := cl, front := ["/nologo", "/c"], includeMark := "/I", definitionMark := "/D"
      outputArgs := fun o => ["/Fo" ++ o.text] }

def linkManner : Toolchain → LinkManner
  | gnu cc _ => { program := cc, front := fun o => ["-shared", "-o", o.text] }
  | msvc _ link => { program := link, front := fun o => ["/nologo", "/DLL", "/OUT:" ++ o.text] }

/-- A compile command is made of the lists that it is for, in this order and unchanged. -/
theorem argv_compileCommand (tc : Toolchain) (x : Compilation) :
    (tc.compileCommand x).argv =
      tc.compileManner.program.text :: (tc.compileManner.front ++
        x.includeDirs.map (fun d => tc.compileManner.includeMark ++ d.text) ++
        x.definitions.map (fun d => tc.compileManner.definitionMark ++ d.argument) ++
        x.flags ++ [x.source.text] ++ tc.compileManner.outputArgs x.output) := by
  cases tc with
  | gnu cc family => simp [compileCommand, compileManner, positionIndependent, Command.argv]
  | msvc cl link => simp [compileCommand, compileManner, Command.argv]

theorem argv_linkCommand (tc : Toolchain) (x : Linking) :
    (tc.linkCommand x).argv =
      tc.linkManner.program.text ::
        (tc.linkManner.front x.output ++ x.objects.map Path.text ++ x.flags) := by
  cases tc with
  | gnu cc family => rfl
  | msvc cl link => rfl

end Toolchain

/-! ### The commands of one target -/

/-- What the plan has for a target: a compile step for each source, in declared order, and a
    link step for the objects of these; every list that is declared or set stands in the
    commands as it is, the lists one after the other. -/
structure BuildPlan.Commands (plan : BuildPlan) (c : BuildContext) (t : Target) : Prop where
  sources : (plan.compileStepsFor t.name).map CompileStep.source = t.sources
  compile : ∀ s ∈ plan.compileStepsFor t.name,
    s.command.argv =
      c.toolchain.compileManner.program.text :: (c.toolchain.compileManner.front ++
        t.includeDirs.map (fun d => c.toolchain.compileManner.includeMark ++ d.text) ++
        t.definitions.map (fun d => c.toolchain.compileManner.definitionMark ++ d.argument) ++
        (c.toolchain.profileFlags c.profile ++ c.cflags ++ t.compileArgs) ++
        [s.source.text] ++ c.toolchain.compileManner.outputArgs s.output)
  link : ∃ l, plan.linkStepFor? t.name = some l ∧
    l.objects = (plan.compileStepsFor t.name).map CompileStep.output ∧
    l.command.argv =
      c.toolchain.linkManner.program.text :: (c.toolchain.linkManner.front l.output ++
        l.objects.map Path.text ++ (c.ldflags ++ t.linkArgs))

namespace BuildPlan

variable {c : BuildContext} {ts : List Target} {t : Target} {plan : BuildPlan}

theorem linkStepFor?_eq_head? (plan : BuildPlan) (name : String) :
    plan.linkStepFor? name = (plan.linkSteps.filter fun s => s.target == name).head? := by
  rw [linkStepFor?, List.head?_filter]

/-- In a plan for checked targets the steps of a name are those of its target. -/
theorem commands_of_checked (checked : CheckedTargets ts) (planned : ofTargets c ts = .ok plan)
    (ht : t ∈ ts) : plan.Commands c t := by
  rw [ofTargets_eq c checked.valid] at planned
  cases planned
  have hcompile : (ts.flatMap c.compileSteps).filter (fun s => s.target == t.name) =
      c.compileSteps t := by
    rw [c.filter_flatMap_compileSteps, checked.filter_name ht, List.flatMap_singleton]
  have hlink : (ts.map c.linkStep).filter (fun s => s.target == t.name) = [c.linkStep t] := by
    rw [c.filter_map_linkStep, checked.filter_name ht, List.map_singleton]
  constructor
  · rw [compileStepsFor, hcompile, BuildContext.compileSteps, List.map_map]
    exact List.map_id _
  · intro s hs
    rw [compileStepsFor, hcompile] at hs
    obtain ⟨source, -, rfl⟩ := List.mem_map.1 hs
    exact c.toolchain.argv_compileCommand _
  · refine ⟨c.linkStep t, ?_, ?_, ?_⟩
    · rw [linkStepFor?_eq_head?, hlink]
      rfl
    · rw [compileStepsFor, hcompile, BuildContext.compileSteps, List.map_map]
      rfl
    · exact c.toolchain.argv_linkCommand _

end BuildPlan

/-! ### Targets that are refused -/

/-- What is wrong with the first target that is invalid. -/
inductive FirstInvalid (ts : List Target) (e : TargetError) : Prop where
  | intro {before after : List Target} {t : Target} (split : ts = before ++ t :: after)
    (valid : ∀ u ∈ before, u.validate = .ok ()) (invalid : t.validate = .error e)

section

variable {t : Target} {ts : List Target} {e : TargetError}

theorem FirstInvalid.cons (valid : t.validate = .ok ()) (h : FirstInvalid ts e) :
    FirstInvalid (t :: ts) e := by
  obtain ⟨split, before, invalid⟩ := h
  exact ⟨by rw [split, List.cons_append], List.forall_mem_cons.2 ⟨valid, before⟩, invalid⟩

/-- Behind a valid target the first invalid one comes later. -/
theorem FirstInvalid.of_cons (valid : t.validate = .ok ()) (h : FirstInvalid (t :: ts) e) :
    FirstInvalid ts e := by
  obtain ⟨split, before, invalid⟩ := h
  rename_i front after u
  cases front with
  | nil =>
    cases split
    rw [valid] at invalid
    cases invalid
  | cons v front =>
    cases split
    exact ⟨rfl, (List.forall_mem_cons.1 before).2, invalid⟩

theorem validateAll_eq_error_iff : ts.forM Target.validate = .error e ↔ FirstInvalid ts e := by
  induction ts with
  | nil =>
    constructor
    · intro h
      cases h
    · rintro ⟨split, -, -⟩
      exact absurd split.symm (List.append_ne_nil_of_right_ne_nil _ (List.cons_ne_nil _ _))
  | cons t ts ih =>
    rw [List.forM_eq_forM, List.forM_cons, ← List.forM_eq_forM]
    cases hv : t.validate with
    | error e' =>
      constructor
      · intro h
        cases h
        exact ⟨(List.nil_append (t :: ts)).symm, fun _ h => absurd h List.not_mem_nil, hv⟩
      · rintro ⟨split, before, invalid⟩
        rename_i front after u
        cases front with
        | nil =>
          cases split
          rw [hv] at invalid
          exact invalid
        | cons v front =>
          cases split
          have hok := before t List.mem_cons_self
          rw [hv] at hok
          cases hok
    | ok _ => exact ih.trans ⟨.cons hv, .of_cons hv⟩

theorem validateAll_eq_ok_iff : ts.forM Target.validate = .ok () ↔ ∀ t ∈ ts, t.validate = .ok () := by
  induction ts with
  | nil => exact ⟨fun _ _ h => absurd h List.not_mem_nil, fun _ => rfl⟩
  | cons t ts ih =>
    rw [List.forM_eq_forM, List.forM_cons, ← List.forM_eq_forM, List.forall_mem_cons, ← ih]
    cases t.validate with
    | error e => exact ⟨fun h => (by cases h), fun h => (by cases h.1)⟩
    | ok _ => exact ⟨fun h => ⟨rfl, h⟩, fun h => h.2⟩

end

namespace BuildPlan

variable {c : BuildContext} {ts : List Target} {plan : BuildPlan}

/-- Planning fails for the first invalid target only. -/
theorem ofTargets_eq_error_iff {e : Failure} :
    ofTargets c ts = .error e ↔ ∃ cause, FirstInvalid ts cause ∧ e = .of (.target cause) := by
  unfold ofTargets
  cases hv : ts.forM Target.validate with
  | ok _ =>
    constructor
    · intro h
      cases h
    · rintro ⟨cause, first, -⟩
      rw [validateAll_eq_error_iff.2 first] at hv
      cases hv
  | error cause =>
    constructor
    · intro h
      cases h
      exact ⟨cause, validateAll_eq_error_iff.1 hv, rfl⟩
    · rintro ⟨cause', first, rfl⟩
      rw [validateAll_eq_error_iff.2 first] at hv
      cases hv
      rfl

/-- What is planned is planned for valid targets. -/
theorem ofTargets_eq_ok_iff :
    ofTargets c ts = .ok plan ↔ (∀ t ∈ ts, t.validate = .ok ()) ∧
      plan = { profile := c.profileName, root := c.root, compileSteps := ts.flatMap c.compileSteps,
               linkSteps := ts.map c.linkStep } := by
  constructor
  · intro h
    have valid : ∀ t ∈ ts, t.validate = .ok () := by
      rw [← validateAll_eq_ok_iff]
      cases hv : ts.forM Target.validate with
      | ok _ => rfl
      | error cause =>
        rw [ofTargets_eq_error_iff.2 ⟨cause, validateAll_eq_error_iff.1 hv, rfl⟩] at h
        cases h
    rw [ofTargets_eq c valid] at h
    cases h
    exact ⟨valid, rfl⟩
  · rintro ⟨valid, rfl⟩
    exact ofTargets_eq c valid

/-- One plan followed by another for the same context. -/
theorem ofTargets_append_eq_ok_iff {ts₁ ts₂ : List Target} :
    ofTargets c (ts₁ ++ ts₂) = .ok plan ↔ ∃ plan₁ plan₂,
      ofTargets c ts₁ = .ok plan₁ ∧ ofTargets c ts₂ = .ok plan₂ ∧
      plan = { profile := c.profileName, root := c.root
               compileSteps := plan₁.compileSteps ++ plan₂.compileSteps
               linkSteps := plan₁.linkSteps ++ plan₂.linkSteps } := by
  simp only [ofTargets_eq_ok_iff, List.forall_mem_append, List.flatMap_append, List.map_append]
  constructor
  · rintro ⟨⟨valid₁, valid₂⟩, rfl⟩
    exact ⟨_, _, ⟨valid₁, rfl⟩, ⟨valid₂, rfl⟩, rfl⟩
  · rintro ⟨_, _, ⟨valid₁, rfl⟩, ⟨valid₂, rfl⟩, rfl⟩
    exact ⟨⟨valid₁, valid₂⟩, rfl⟩

theorem exists_ofTargets_error_iff :
    (∃ e, ofTargets c ts = .error e) ↔ ∃ t ∈ ts, ∃ e, t.validate = .error e := by
  constructor
  · rintro ⟨e, h⟩
    obtain ⟨cause, ⟨split, -, invalid⟩, -⟩ := ofTargets_eq_error_iff.1 h
    exact ⟨_, by rw [split]; exact List.mem_append_right _ List.mem_cons_self, cause, invalid⟩
  · rintro ⟨t, ht, e, invalid⟩
    cases h : ofTargets c ts with
    | error e => exact ⟨e, rfl⟩
    | ok plan =>
      rw [(ofTargets_eq_ok_iff.1 h).1 t ht] at invalid
      cases invalid

/-- **Planning keeps what is declared, in its order.**  The plan for two lists of targets is
    there exactly if both lists can be planned, and has the steps of the one and then those
    of the other.  Planning fails exactly if a target is invalid, for the first such target.
    In a plan for targets with distinct names each of them has its commands. -/
theorem planning_keeps_order (c : BuildContext) :
    (∀ ts₁ ts₂ plan, ofTargets c (ts₁ ++ ts₂) = .ok plan ↔ ∃ plan₁ plan₂,
      ofTargets c ts₁ = .ok plan₁ ∧ ofTargets c ts₂ = .ok plan₂ ∧
      plan = { profile := c.profileName, root := c.root
               compileSteps := plan₁.compileSteps ++ plan₂.compileSteps
               linkSteps := plan₁.linkSteps ++ plan₂.linkSteps }) ∧
    (∀ ts, (∃ e, ofTargets c ts = .error e) ↔ ∃ t ∈ ts, ∃ e, t.validate = .error e) ∧
    (∀ ts e, ofTargets c ts = .error e ↔ ∃ cause, FirstInvalid ts cause ∧ e = .of (.target cause)) ∧
    ∀ ts plan, (ts.map Target.name).Nodup → ofTargets c ts = .ok plan →
      ∀ t ∈ ts, plan.Commands c t := by
  refine ⟨fun _ _ _ => ofTargets_append_eq_ok_iff, fun _ => exists_ofTargets_error_iff,
    fun _ _ => ofTargets_eq_error_iff, ?_⟩
  intro ts plan distinct planned t ht
  exact commands_of_checked ⟨(ofTargets_eq_ok_iff.1 planned).1, distinct⟩ planned ht

end BuildPlan

namespace Sample

/-- A context with flags of every kind. -/
def flaggedContext : BuildContext :=
  { manifestContext with
    toolchain := .msvc ⟨"cl"⟩ ⟨"link"⟩
    profile := { optLevel := "s", debug := true, cflags := ["/W4"] }
    cflags := ["/GS"]
    ldflags := ["/DEBUG"] }

def flaggedTarget : Target where
  name := "g.lang"
  sources := [⟨"src/parser.c"⟩, ⟨"src/scanner.c"⟩]
  compileArgs := ["/std:c11"]
  includeDirs := [⟨"src"⟩, ⟨"inc"⟩]
  definitions := [⟨"NDEBUG", none⟩, ⟨"LANG", some "x"⟩]
  linkArgs := ["/OPT:REF"]

end Sample

open Sample in
/-- The commands of a target with two sources that is planned behind another one. -/
theorem BuildPlan.planning_keeps_order_flagged :
    ([targetA, flaggedTarget].map Target.name).Nodup ∧
      ∃ plan, ofTargets flaggedContext [targetA, flaggedTarget] = .ok plan ∧
        (plan.compileStepsFor "g.lang").map CompileStep.source =
          [⟨"src/parser.c"⟩, ⟨"src/scanner.c"⟩] ∧
        (∀ s ∈ plan.compileStepsFor "g.lang", s.command.argv =
          ["cl", "/nologo", "/c", "/Isrc", "/Iinc", "/DNDEBUG", "/DLANG=x", "/O1", "/Zi", "/W4", "/GS",
            "/std:c11", s.source.text, "/Fo" ++ s.output.text]) ∧
        ∃ l, plan.linkStepFor? "g.lang" = some l ∧
          l.command.argv = ["link", "/nologo", "/DLL", "/OUT:" ++ l.output.text] ++
            (plan.compileStepsFor "g.lang").map (fun s => s.output.text) ++ ["/DEBUG", "/OPT:REF"] := by
  have distinct : ([targetA, flaggedTarget].map Target.name).Nodup := by decide
  have planned := ofTargets_eq flaggedContext
    (show ∀ t ∈ [targetA, flaggedTarget], t.validate = .ok () by decide)
  obtain ⟨-, -, -, commands⟩ := planning_keeps_order flaggedContext
  obtain ⟨hsources, hcompile, l, hl, hobjects, hlink⟩ :=
    commands _ _ distinct planned flaggedTarget (List.mem_cons_of_mem _ List.mem_cons_self)
  refine ⟨distinct, _, planned, hsources, hcompile, l, hl, ?_⟩
  rw [hlink, hobjects, List.map_map]
  rfl

end GrammarBuild
