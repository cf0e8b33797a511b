import GrammarBuild.Proofs.AbsolutePaths
import GrammarBuild.Proofs.Outputs
import GrammarBuild.Proofs.Phases

/-
  GrammarBuild/Proofs/Views.lean
  ==============================
  **All views of a build agree** — the commands shown for one target, the plan that is
  printed, the list that editors read and the processes that a build starts come from
  the same steps (`views_agree`).

  One target's steps are found again by name in the plan of a whole selection
  (`compileStepsFor_ofTargets`, `linkStepsFor_ofTargets`), which needs that names are
  distinct.  A build asked for its plan and the build that carries it out share all of
  their work before the plan is there (`build_eq`).
-/

namespace GrammarBuild

/-! ### The steps of one target -/

/-- The commands are exactly the steps that a plan has for their target. -/
structure TargetCommands.AreStepsIn (x : TargetCommands) (plan : BuildPlan) : Prop where
  compile : plan.compileSteps.filter (fun s => s.target == x.target) = x.compile
  link : plan.linkSteps.filter (fun s => s.target == x.target) = [x.link]

namespace BuildContext

variable (c : BuildContext)

theorem target_of_mem_compileSteps {t : Target} {s : CompileStep} (h : s ∈ c.compileSteps t) :
    s.target = t.name := by
  obtain ⟨source, -, rfl⟩ := List.mem_map.1 h
  rfl

theorem filter_compileSteps (t : Target) (name : String) :
    (c.compileSteps t).filter (fun s => s.target == name) =
      if t.name == name then c.compileSteps t else [] := by
  split
  · rename_i hn
    rw [List.filter_eq_self]
    intro s hs
    rw [c.target_of_mem_compileSteps hs]
    exact hn
  · rename_i hn
    rw [List.filter_eq_nil_iff]
    intro s hs
    rw [c.target_of_mem_compileSteps hs]
    exact hn

/-- The steps of a name are those of the targets of that name. -/
theorem filter_flatMap_compileSteps (ts : List Target) (name : String) :
    (ts.flatMap c.compileSteps).filter (fun s => s.target == name) =
      (ts.filter fun t => t.name == name).flatMap c.compileSteps := by
  induction ts with
  | nil => rfl
  | cons t ts ih =>
    rw [List.flatMap_cons, List.filter_append, ih, c.filter_compileSteps, List.filter_cons]
    split
    · rw [List.flatMap_cons]
    · rfl

theorem filter_map_linkStep (ts : List Target) (name : String) :
    (ts.map c.linkStep).filter (fun s => s.target == name) =
      (ts.filter fun t => t.name == name).map c.linkStep := by
  rw [List.filter_map]
  rfl

/-- The commands of a declared target are its steps. -/
theorem commands_of_target {m : Manifest} (h : CheckedTargets m.targets) {t : Target}
    (ht : t ∈ m.targets) :
    TargetCommands.of c m t.name = .ok ⟨t.name, c.compileSteps t, c.linkStep t⟩ := by
  have hone : ∀ u ∈ [t], u.validate = .ok () := by
    intro u hu
    rw [List.mem_singleton] at hu
    rw [hu]
    exact h.valid t ht
  have hcompile : (c.compileSteps t).filter (fun s => s.target == t.name) = c.compileSteps t := by
    rw [c.filter_compileSteps, beq_self_eq_true, if_pos rfl]
  unfold TargetCommands.of
  rw [Manifest.findTarget_of_mem h ht]
  simp only [bind, Except.bind, BuildPlan.ofTargets_eq c hone, BuildPlan.linkStepFor?,
    BuildPlan.compileStepsFor, List.map_cons, List.map_nil, List.flatMap_cons, List.flatMap_nil,
    List.append_nil, hcompile]
  have hlink : [c.linkStep t].find? (fun s => s.target == t.name) = some (c.linkStep t) := by
    rw [List.find?_cons_of_pos]
    exact beq_self_eq_true t.name
  rw [hlink]
  rfl

end BuildContext

/-! ### The list for editors -/

/-- The text is a list with one entry for each compile step, in the plan's order. -/
def BuildPlan.ListedIn (plan : BuildPlan) (text : String) : Prop :=
  ∃ entries, Json.read? text = some (.array entries) ∧
    entries.length = plan.compileSteps.length ∧
    ∀ (k : Nat) (s : CompileStep), plan.compileSteps[k]? = some s →
      ∃ e, entries[k]? = some e ∧
        e.member? "directory" = some (.string plan.root.text) ∧
        e.member? "file" = some (.string s.source.text) ∧
        e.member? "arguments" = some (.ofStrings (s.command.program.text :: s.command.args)) ∧
        e.member? "output" = some (.string s.output.text)

namespace BuildPlan

variable (plan : BuildPlan)

theorem plain_editorEntry (s : CompileStep) : (plan.editorEntry s).plain = true := by
  simp [editorEntry, Json.plain_ofMembers, Json.plain, Json.ofStrings, Json.plainItems_eq_all]

theorem listedIn_compileCommands : plan.ListedIn plan.compileCommands := by
  refine ⟨plan.compileSteps.map plan.editorEntry, ?_, List.length_map _, ?_⟩
  · apply Json.read?_pretty
    rw [Json.plain, Json.plainItems_eq_all, List.all_map, List.all_eq_true]
    intro s hs
    exact plan.plain_editorEntry s
  · intro k s hs
    refine ⟨plan.editorEntry s, ?_, rfl, rfl, rfl, rfl⟩
    rw [List.getElem?_map, hs, Option.map_some]

end BuildPlan

/-- What editors find after their list was written. -/
theorem BuildPlan.listedIn_of_emit {plan : BuildPlan} {p : Path} {env : Environment} {h h' : Host}
    (ok : (plan.emitCompileCommands p).runOn env h = (.ok (), h')) :
    ∃ text, h'.files.readText env.cwd p = .ok text ∧ plan.ListedIn text := by
  obtain ⟨_, h₁, hwrite, hlog⟩ := Action.runOn_bind_ok ok
  rw [Action.runOn_log] at hlog
  cases hlog
  rw [Action.runOn_within] at hwrite
  refine ⟨plan.compileCommands, ?_, plan.listedIn_compileCommands⟩
  rcases hs : (Action.writeString p plan.compileCommands).runOn env h with ⟨r, h₂⟩
  rw [hs] at hwrite
  cases r with
  | error e => cases hwrite
  | ok _ =>
    cases hwrite
    have htext := Action.readText_of_writeString hs
    exact htext

/-! ### The processes of a build -/

/-- The processes that a plan asks for, all of them at its root. -/
def BuildPlan.calls (plan : BuildPlan) : List Invocation :=
  plan.compileSteps.map (fun s => ⟨s.command, some plan.root⟩) ++
    plan.linkSteps.map fun s => ⟨s.command, some plan.root⟩

section Processes

variable {env : Environment} {c : BuildContext} {t t₁ : FileTree} {procs : List Invocation}

theorem Compiles.procs_sublist {cache : FingerprintCache} {s : CompileStep}
    {r : Except Failure Compiled} (h : Compiles env c cache s t r t₁ procs) :
    procs.Sublist [c.compileCall s] := by
  cases h
  all_goals first | exact List.nil_sublist _ | exact List.Sublist.refl _

theorem CompilesAll.procs_sublist {cache : FingerprintCache} {ss : List CompileStep}
    {turns : List CompileTurn} (h : CompilesAll env c cache t ss turns t₁ procs) :
    procs.Sublist (ss.map c.compileCall) := by
  induction h with
  | nil t => exact List.Sublist.refl _
  | cons first rest ih => exact first.procs_sublist.append ih

theorem Links.procs_sublist {cache : FingerprintCache} {rebuilt : Bool} {s : LinkStep}
    {r : Except Failure (Artifact × FingerprintCache)} (h : Links env c cache rebuilt s t r t₁ procs) :
    procs.Sublist [c.linkCall s] := by
  cases h
  all_goals first | exact List.nil_sublist _ | exact List.Sublist.refl _

theorem LinksAll.procs_sublist {rebuilt : List String} {cache : FingerprintCache}
    {ss : List LinkStep} {links : List LinkTurn}
    (h : LinksAll env c rebuilt cache t ss links t₁ procs) :
    procs.Sublist (ss.map c.linkCall) := by
  induction h with
  | nil cache t => exact List.Sublist.refl _
  | failed first => exact first.procs_sublist.trans (List.singleton_sublist.2 List.mem_cons_self)
  | cons first rest ih => exact first.procs_sublist.append ih

/-- A build starts no process that its plan does not ask for, and those that it starts
    come in the plan's order. -/
theorem Executes.procs_sublist {plan : BuildPlan} {turns : List CompileTurn} {links : List LinkTurn}
    {r : Except Failure (List Artifact)} (h : Executes env c plan t turns links r t₁ procs)
    (hroot : plan.root = c.root) : procs.Sublist plan.calls := by
  have hcalls : plan.calls = plan.compileSteps.map c.compileCall ++ plan.linkSteps.map c.linkCall := by
    unfold BuildPlan.calls
    rw [hroot]
    rfl
  rw [hcalls]
  cases h with
  | mk compiles finishes saves =>
    apply compiles.procs_sublist.append
    cases finishes with
    | stopped first => exact List.nil_sublist _
    | linked first links => exact links.procs_sublist

end Processes

/-! ### Up to the plan -/

/-- What a build does before it carries out its plan. -/
def plannedBuild (manifestPath : Path) (o : BuildOptions) : Action (BuildContext × BuildPlan) := do
  let (w, settings) ← loadWorkspace manifestPath o
  let targets ← Action.ofExcept (w.manifest.select o.targets)
  targets.forM fun t => do
    let _ ← t.resolveSources w.root
  let c ← BuildContext.detect w (← ToolchainSettings.forWorkspace w)
  Action.log .debug
    ("using " ++ c.toolchain.platform ++ " (" ++ c.toolchain.compiler.text ++ ") for `"
      ++ c.profileName ++ "` profile")
  let plan ← Action.ofExcept (BuildPlan.ofTargets c targets)
  if o.emitCompileCommands || settings.emitCompileCommands then
    plan.emitCompileCommands w.compileCommandsPath
  return (c, plan)

/-- What a build does with its plan. -/
def carryOut (o : BuildOptions) (c : BuildContext) (plan : BuildPlan) : Action BuildResult := do
  if o.planOnly then return { artifacts := [], plan := some plan }
  return { artifacts := ← c.executeAndReport o.verbose plan, plan := none }

theorem build_eq (manifestPath : Path) (o : BuildOptions) :
    build manifestPath o = plannedBuild manifestPath o >>= fun p => carryOut o p.1 p.2 := by
  unfold build plannedBuild carryOut
  simp only [bind_assoc]
  refine bind_congr fun (w, settings) => bind_congr fun targets => bind_congr fun _ =>
    bind_congr fun s => bind_congr fun c => bind_congr fun _ => bind_congr fun plan => ?_
  split
  · simp only [bind_assoc, pure_bind]
  · simp only [pure_bind]

/-! ### A build and its plan -/

section SameState

variable {env : Environment} {h h₁ : Host}

theorem host_bind {α β : Type} {x : Action α} {f : α → Action β} (hx : (x.runOn env h).2 = h)
    (hf : ∀ a, ((f a).runOn env h).2 = h) : ((x >>= f).runOn env h).2 = h := by
  rw [Action.runOn_bind]
  rcases hr : x.runOn env h with ⟨r, h'⟩
  rw [hr] at hx
  cases hx
  cases r with
  | error e => rfl
  | ok a => exact hf a

theorem host_checkSources (t : Target) (root : Path) (ss : List Path) :
    ((t.checkSources root ss).runOn env h).2 = h := by
  induction ss with
  | nil => rfl
  | cons s ss ih =>
    unfold Target.checkSources
    simp only [Action.runOn_bind, Action.runOn_pathExists, Action.isFile, Action.runOn_look,
      Action.runOn_ite, Action.runOn_fail]
    split
    · rfl
    split
    · rfl
    · exact ih

theorem host_resolveAll (root : Path) (ts : List Target) :
    ((ts.forM fun t => do let _ ← t.resolveSources root).runOn env h).2 = h := by
  induction ts with
  | nil => rfl
  | cons t ts ih =>
    rw [List.forM_eq_forM, List.forM_cons, ← List.forM_eq_forM]
    apply host_bind
    · apply host_bind
      · unfold Target.resolveSources
        apply host_bind
        · rfl
        · intro _
          apply host_bind
          · exact host_checkSources t root t.sources
          · intro _
            rfl
      · intro _
        rfl
    · intro _
      exact ih

theorem host_eq_of_resolveAll {root : Path} {ts : List Target} {r : Except Failure PUnit}
    (done : (ts.forM fun t => do let _ ← t.resolveSources root).runOn env h = (r, h₁)) : h₁ = h := by
  have hsame := congrArg Prod.snd done
  rw [host_resolveAll] at hsame
  exact hsame.symm

/-- The workspace is that of the manifest in the file. -/
theorem manifest_of_loadWorkspace {manifestPath : Path} {o : BuildOptions} {m : Manifest}
    {w : Workspace} {s : BuildSettings}
    (manifest : ((Manifest.load manifestPath).runOn env h).1 = .ok m)
    (ok : (loadWorkspace manifestPath o).runOn env h = (.ok (w, s), h₁)) : w.manifest = m := by
  unfold loadWorkspace at ok
  obtain ⟨w₁, h₂, hload, ok⟩ := Action.runOn_bind_ok ok
  obtain ⟨m₁, h₃, hm, hw⟩ := Action.runOn_bind_ok hload
  rw [hm] at manifest
  cases manifest
  cases hw
  obtain ⟨_, _, -, ok⟩ := Action.runOn_bind_ok ok
  obtain ⟨_, _, -, ok⟩ := Action.runOn_bind_ok ok
  obtain ⟨_, _, -, ok⟩ := Action.runOn_bind_ok ok
  cases ok
  rfl

theorem context_of_detect {w : Workspace} {s : ToolchainSettings} {c : BuildContext}
    (ok : (BuildContext.detect w s).runOn env h = (.ok c, h₁)) :
    ∃ toolchain, BuildContext.of w toolchain s = .ok c := by
  obtain ⟨toolchain, h₂, -, ok⟩ := Action.runOn_bind_ok ok
  rw [Action.runOn_ofExcept] at ok
  cases hc : BuildContext.of w toolchain s with
  | error e =>
    rw [hc] at ok
    cases ok
  | ok c' =>
    rw [hc] at ok
    cases ok
    exact ⟨toolchain, hc⟩

/-- Whether a build is asked for its plan alone or not, in the same state it comes to the
    same plan for the selected targets `ts`, or to the same failure.  The commands of a
    target that are shown in this state are those for the context of that plan. -/
inductive BuildsAlike (manifestPath : Path) (o : BuildOptions) (env : Environment) (h : Host)
    (m : Manifest) (ts : List Target) : Prop
  | refused {e : Failure} {h₁ : Host}
    (plan_only : (build manifestPath { o with planOnly := true }).runOn env h = (.error e, h₁))
    (full : (build manifestPath { o with planOnly := false }).runOn env h = (.error e, h₁))
  | planned {w : Workspace} {toolchain : Toolchain} {settings : ToolchainSettings}
    {c : BuildContext} {plan : BuildPlan} {h₁ : Host} (manifest : w.manifest = m)
    (context : BuildContext.of w toolchain settings = .ok c)
    (targets : BuildPlan.ofTargets c ts = .ok plan)
    (plan_only : (build manifestPath { o with planOnly := true }).runOn env h =
      (.ok { artifacts := [], plan := some plan }, h₁))
    (full : (build manifestPath { o with planOnly := false }).runOn env h =
      (do return { artifacts := ← c.executeAndReport o.verbose plan, plan := none } :
        Action BuildResult).runOn env h₁)
    (commands : ∀ t ∈ ts, ((flags manifestPath t.name o).runOn env h).1 = TargetCommands.of c m t.name)

theorem runOn_build_error {manifestPath : Path} {o : BuildOptions} {e : Failure}
    (hp : (plannedBuild manifestPath o).runOn env h = (.error e, h₁)) :
    (build manifestPath o).runOn env h = (.error e, h₁) := by
  rw [build_eq, Action.runOn_bind, hp]

theorem runOn_build_ok {manifestPath : Path} {o : BuildOptions} {c : BuildContext} {plan : BuildPlan}
    (hp : (plannedBuild manifestPath o).runOn env h = (.ok (c, plan), h₁)) :
    (build manifestPath o).runOn env h = (carryOut o c plan).runOn env h₁ := by
  rw [build_eq, Action.runOn_bind, hp]

theorem runOn_flags {manifestPath : Path} {o : BuildOptions} {name : String} {w : Workspace}
    {settings : BuildSettings} {s : ToolchainSettings} {t : Target} {c : BuildContext}
    {h₂ h₃ h₄ : Host}
    (load : (loadWorkspace manifestPath o).runOn env h = (.ok (w, settings), h₂))
    (found : w.manifest.findTarget name = .ok t)
    (settings_ok : (ToolchainSettings.forWorkspace w).runOn env h₂ = (.ok s, h₃))
    (detect : (BuildContext.detect w s).runOn env h₃ = (.ok c, h₄)) :
    ((flags manifestPath name o).runOn env h).1 = TargetCommands.of c w.manifest name := by
  unfold flags
  rw [Action.runOn_bind, load]
  simp only [Action.runOn_bind, Action.runOn_ofExcept, found, settings_ok, detect]

theorem buildsAlike {manifestPath : Path} {o : BuildOptions} {m : Manifest} {ts : List Target}
    (checked : CheckedTargets m.targets)
    (manifest : ((Manifest.load manifestPath).runOn env h).1 = .ok m)
    (selected : m.select o.targets = .ok ts) : BuildsAlike manifestPath o env h m ts := by
  have hplanned (b : Bool) :
      plannedBuild manifestPath { o with planOnly := b } = plannedBuild manifestPath o := rfl
  rcases hp : (plannedBuild manifestPath o).runOn env h with ⟨r, h₁⟩
  cases r with
  | error e =>
    apply BuildsAlike.refused
    · exact runOn_build_error ((hplanned true).symm ▸ hp)
    · exact runOn_build_error ((hplanned false).symm ▸ hp)
  | ok p =>
    obtain ⟨c, plan⟩ := p
    have hbuild (b : Bool) := runOn_build_ok ((hplanned b).symm ▸ hp)
    unfold plannedBuild at hp
    obtain ⟨⟨w, settings⟩, h₂, hload, hselecting⟩ := Action.runOn_bind_ok hp
    obtain rfl := manifest_of_loadWorkspace manifest hload
    obtain ⟨ts', h₃, hselect, hresolving⟩ := Action.runOn_bind_ok hselecting
    rw [Action.runOn_ofExcept, selected] at hselect
    cases hselect
    obtain ⟨_, h₃, hsources, hsetting⟩ := Action.runOn_bind_ok hresolving
    have hhost := host_eq_of_resolveAll hsources
    rw [hhost] at hsetting
    obtain ⟨s, h₄, hsettings, hdetecting⟩ := Action.runOn_bind_ok hsetting
    obtain ⟨c', h₅, hdetect, htelling⟩ := Action.runOn_bind_ok hdetecting
    obtain ⟨_, h₆, -, hplanning⟩ := Action.runOn_bind_ok htelling
    obtain ⟨plan', h₇, hplan, hlisting⟩ := Action.runOn_bind_ok hplanning
    have hplan' : BuildPlan.ofTargets c' ts = .ok plan' := by
      rw [Action.runOn_ofExcept] at hplan
      exact congrArg Prod.fst hplan
    have hsame : c' = c ∧ plan' = plan := by
      simp only [] at hlisting
      split at hlisting
      · obtain ⟨_, _, -, hlast⟩ := Action.runOn_bind_ok hlisting
        cases hlast
        exact ⟨rfl, rfl⟩
      · cases hlisting
        exact ⟨rfl, rfl⟩
    obtain ⟨rfl, rfl⟩ := hsame
    obtain ⟨toolchain, hcontext⟩ := context_of_detect hdetect
    refine .planned rfl hcontext hplan' (hbuild true) (hbuild false) ?_
    intro t ht
    have hfound := Manifest.findTarget_of_mem checked (Manifest.mem_of_select selected ht)
    exact runOn_flags hload hfound hsettings hdetect

end SameState

/-! ### All views -/

/-- The steps of a selected target, found in the plan of the whole selection. -/
theorem areStepsIn_of_mem (c : BuildContext) {ts : List Target} {plan : BuildPlan}
    (checked : CheckedTargets ts) (hplan : BuildPlan.ofTargets c ts = .ok plan) {t : Target}
    (ht : t ∈ ts) :
    TargetCommands.AreStepsIn ⟨t.name, c.compileSteps t, c.linkStep t⟩ plan := by
  rw [BuildPlan.ofTargets_eq c checked.valid] at hplan
  cases hplan
  constructor
  · simp only [c.filter_flatMap_compileSteps, checked.filter_name ht, List.flatMap_cons,
      List.flatMap_nil, List.append_nil]
  · simp only [c.filter_map_linkStep, checked.filter_name ht, List.map_cons, List.map_nil]

/-- Whatever the profile, the toolchain and its settings are, there is a plan for every
    selection of a manifest's targets.  The commands shown for one of them are its steps in
    the plan; the list written for editors has the plan's compile steps; the processes of a
    build come from the plan, run in its root and keep its order; and a build asked for the
    plan alone gives the one that it carries out otherwise. -/
theorem views_agree {text : String} {dir : Path} {m : Manifest}
    (parsed : Manifest.parse text dir = .ok m) {filter : List String} {ts : List Target}
    (selected : m.select filter = .ok ts) (c : BuildContext) :
    (∃ plan, BuildPlan.ofTargets c ts = .ok plan ∧ plan.root = c.root ∧
      (∀ t ∈ ts, ∃ commands, TargetCommands.of c m t.name = .ok commands ∧
        commands.target = t.name ∧ commands.AreStepsIn plan) ∧
      (∀ p env h h', (plan.emitCompileCommands p).runOn env h = (.ok (), h') →
        ∃ listing, h'.files.readText env.cwd p = .ok listing ∧ plan.ListedIn listing) ∧
      ∀ env h, ∃ procs, ((c.execute plan).runOn env h).2.started = h.started ++ procs ∧
        procs.Sublist plan.calls) ∧
    ∀ (manifestPath : Path) (o : BuildOptions) (env : Environment) (h : Host),
      ((Manifest.load manifestPath).runOn env h).1 = .ok m → o.targets = filter →
        BuildsAlike manifestPath o env h m ts := by
  have checked := Manifest.checked_of_parse parsed
  have checked_ts := Manifest.checked_of_select checked selected
  constructor
  · have hplan := BuildPlan.ofTargets_eq c checked_ts.valid
    refine ⟨_, hplan, rfl, ?_, ?_, ?_⟩
    · intro t ht
      refine ⟨_, c.commands_of_target checked (Manifest.mem_of_select selected ht), rfl, ?_⟩
      exact areStepsIn_of_mem c checked_ts hplan ht
    · intro p env h h' ok
      exact BuildPlan.listedIn_of_emit ok
    · intro env h
      obtain ⟨procs, ex, hs⟩ := c.executes_runOn _ env h
      exact ⟨procs, hs, ex.procs_sublist rfl⟩
  · intro manifestPath o env h load hfilter
    subst hfilter
    exact buildsAlike checked load selected

/-! ### A build that lists its commands -/

namespace Sample

/-- The project of the manifest, and a compiler. -/
def checkout : FileTree :=
  [(["p"], .dir), (["p", "October.toml"], .file manifestText.toUTF8 false), (["p", ".october"], .dir),
    (["p", "a.c"], .file "int a;".toUTF8 false), (["p", "b.c"], .file "int b;".toUTF8 false),
    (["d.c"], .file "int d;".toUTF8 false), (["bin"], .dir), (["bin", "gcc"], .file "".toUTF8 true)].foldl
    (fun t e => t.set e.1 e.2) ∅

/-- Surroundings that name the compiler. -/
def gccEnvironment : Environment := { (default : Environment) with cc := some "/bin/gcc" }

/-- The options of a build that lists its commands, of targets that are named in another
    order than they are declared in, one of them twice. -/
def listingOptions : BuildOptions where
  profile := some "debug"
  targets := ["b.c", "a", "b.c"]
  emitCompileCommands := true

/-- The manifest is loaded from wherever the tool is called. -/
theorem load_manifest {env : Environment} {h : Host}
    (read : h.files.readFile env.cwd ⟨"/p/October.toml"⟩ = .ok manifestText.toUTF8) :
    (Manifest.load ⟨"/p/October.toml"⟩).runOn env h = (.ok manifest, h) := by
  have hdir : ((⟨"/p/October.toml"⟩ : Path).absoluteFrom ⟨env.cwd.text⟩).parent?.getD
      ((⟨"/p/October.toml"⟩ : Path).absoluteFrom ⟨env.cwd.text⟩) = ⟨"/p"⟩ := by
    have habs : (⟨"/p/October.toml"⟩ : Path).isAbsolute = true := rfl
    rw [Path.absoluteFrom_absolute habs _ ⟨"/"⟩]
    rfl
  rw [Manifest.runOn_load (FileTree.readText_of_readFile read), hdir, parse_manifestText]
  rfl

theorem load_checkout : (Manifest.load ⟨"/p/October.toml"⟩).runOn gccEnvironment { files := checkout } =
    (.ok manifest, { files := checkout }) :=
  load_manifest rfl

theorem loadWorkspace_checkout :
    (loadWorkspace ⟨"/p/October.toml"⟩ listingOptions).runOn gccEnvironment { files := checkout } =
      (.ok ({ manifest }, {}), { files := checkout }) := by
  have hworkspace : (Workspace.load ⟨"/p/October.toml"⟩).runOn gccEnvironment { files := checkout } =
      (.ok { manifest }, { files := checkout }) := by
    unfold Workspace.load
    rw [Action.runOn_bind_of_ok load_checkout]
    rfl
  have hsettings : (BuildSettings.loadBoth (Caller.configPath gccEnvironment)
      ({ manifest } : Workspace).configPath).runOn gccEnvironment { files := checkout } =
        (.ok {}, { files := checkout }) := rfl
  have hprofile : (({ manifest } : Workspace).withProfile (listingOptions.profileName {})).profile =
      .ok .debugDefault := by
    rw [Workspace.profile, Manifest.profile, Workspace.withProfile, manifest, Manifest.get?_profilesOf]
    rfl
  unfold loadWorkspace
  rw [Action.runOn_bind_of_ok hworkspace, Action.runOn_bind_of_ok (Action.runOn_read _ _),
    Action.runOn_bind_of_ok hsettings]
  dsimp only
  rw [hprofile]
  rfl

/-- The list for editors can be written, whatever is in it. -/
theorem emitted_checkout (plan : BuildPlan) {h : Host} (files : h.files = checkout) :
    ∃ h₁, (plan.emitCompileCommands ⟨"/p/.october/compile_commands.json"⟩).runOn gccEnvironment h =
      (.ok (), h₁) := by
  obtain ⟨t, events, progress⟩ := h
  obtain rfl : t = checkout := files
  have hempty : ∃ h₁, (Action.writeString ⟨"/p/.october/compile_commands.json"⟩ "").runOn gccEnvironment
      ⟨checkout, events, progress⟩ = (.ok (), h₁) := ⟨_, rfl⟩
  obtain ⟨h₁, hempty⟩ := hempty
  obtain ⟨h₂, hwrite⟩ := Action.runOn_writeString_any hempty plan.compileCommands
  unfold BuildPlan.emitCompileCommands
  rw [Action.runOn_bind_of_ok (Action.runOn_within_ok.2 hwrite)]
  exact ⟨_, rfl⟩

/-- In the project there is a plan, and its commands are written down. -/
theorem plannedBuild_checkout : ∃ plan h h₁,
    BuildPlan.ofTargets manifestContext [targetB, targetA] = .ok plan ∧
      (plan.emitCompileCommands ⟨"/p/.october/compile_commands.json"⟩).runOn gccEnvironment h =
        (.ok (), h₁) ∧
      (plannedBuild ⟨"/p/October.toml"⟩ listingOptions).runOn gccEnvironment { files := checkout } =
        (.ok (manifestContext, plan), h₁) := by
  have hresolve : ([targetB, targetA].forM fun t => do
      let _ ← t.resolveSources ({ manifest } : Workspace).root
      pure ()).runOn gccEnvironment { files := checkout } = (.ok (), { files := checkout }) := rfl
  have hsettings : (ToolchainSettings.forWorkspace { manifest }).runOn gccEnvironment
      { files := checkout } = (.ok {}, { files := checkout }) := rfl
  obtain ⟨h, hdetect, hfiles⟩ : ∃ h, (Toolchain.detect {}).runOn gccEnvironment { files := checkout } =
      (.ok (.gnu ⟨"/bin/gcc"⟩ .gcc), h) ∧ h.files = checkout := ⟨_, rfl, rfl⟩
  have hcontext : (BuildContext.detect { manifest } {}).runOn gccEnvironment { files := checkout } =
      (.ok manifestContext, h) := by
    unfold BuildContext.detect
    rw [Action.runOn_bind_of_ok hdetect, contextOf_manifest]
    rfl
  have checked := (Manifest.checked_of_parse parse_manifestText).valid
  have hswapped : ∀ t ∈ [targetB, targetA], t.validate = .ok () := fun t ht =>
    checked t (List.mem_reverse.1 ht)
  obtain ⟨plan, hplan⟩ : ∃ plan, BuildPlan.ofTargets manifestContext [targetB, targetA] = .ok plan :=
    ⟨_, BuildPlan.ofTargets_eq manifestContext hswapped⟩
  obtain ⟨hl, hlog, hlogged⟩ : ∃ hl, (Action.log .debug
      ("using " ++ manifestContext.toolchain.platform ++ " (" ++ manifestContext.toolchain.compiler.text
        ++ ") for `" ++ manifestContext.profileName ++ "` profile")).runOn gccEnvironment h =
      (.ok (), hl) ∧ hl.files = checkout := ⟨_, rfl, hfiles⟩
  have hselect : (Action.ofExcept (manifest.select listingOptions.targets)).runOn gccEnvironment
      { files := checkout } = (.ok [targetB, targetA], { files := checkout }) := rfl
  have hplanned : (Action.ofExcept (BuildPlan.ofTargets manifestContext [targetB, targetA])).runOn
      gccEnvironment hl = (.ok plan, hl) := by
    rw [Action.runOn_ofExcept, hplan]
  obtain ⟨h₁, hemit⟩ := emitted_checkout plan hlogged
  refine ⟨plan, hl, h₁, hplan, hemit, ?_⟩
  unfold plannedBuild
  rw [Action.runOn_bind_of_ok loadWorkspace_checkout, Action.runOn_bind_of_ok hselect,
    Action.runOn_bind_of_ok hresolve, Action.runOn_bind_of_ok hsettings,
    Action.runOn_bind_of_ok hcontext, Action.runOn_bind_of_ok hlog,
    Action.runOn_bind_of_ok hplanned]
  exact Action.runOn_bind_of_ok hemit

end Sample

/-- Two targets, named in another order than they are declared in and one of them twice: the
    commands shown for each, the list for editors and the processes are those of the plan
    that is printed. -/
theorem views_agree_twoTargets : ∃ plan h h₁ listing procs,
    BuildPlan.ofTargets Sample.manifestContext [Sample.targetB, Sample.targetA] = .ok plan ∧
      (∀ t ∈ [Sample.targetB, Sample.targetA], ∃ commands,
        ((flags ⟨"/p/October.toml"⟩ t.name Sample.listingOptions).runOn Sample.gccEnvironment
          { files := Sample.checkout }).1 = .ok commands ∧
        commands.target = t.name ∧ commands.AreStepsIn plan) ∧
      (plan.emitCompileCommands ⟨"/p/.october/compile_commands.json"⟩).runOn Sample.gccEnvironment h =
        (.ok (), h₁) ∧
      h₁.files.readText [] ⟨"/p/.october/compile_commands.json"⟩ = .ok listing ∧ plan.ListedIn listing ∧
      (build ⟨"/p/October.toml"⟩ { Sample.listingOptions with planOnly := true }).runOn
        Sample.gccEnvironment { files := Sample.checkout } =
          (.ok { artifacts := [], plan := some plan }, h₁) ∧
      ((Sample.manifestContext.execute plan).runOn Sample.gccEnvironment h₁).2.started =
        h₁.started ++ procs ∧ procs.Sublist plan.calls := by
  obtain ⟨plan, h, h₁, hplan, hemit, hplanned⟩ := Sample.plannedBuild_checkout
  have hprinted := runOn_build_ok (o := { Sample.listingOptions with planOnly := true }) hplanned
  have hselect : Sample.manifest.select Sample.listingOptions.targets =
      .ok [Sample.targetB, Sample.targetA] := rfl
  obtain ⟨⟨_, hplan', -, -, hlisting, hprocs⟩, halike⟩ :=
    views_agree Sample.parse_manifestText hselect Sample.manifestContext
  obtain rfl := Except.ok.inj (hplan'.symm.trans hplan)
  obtain ⟨listing, hread, hlisted⟩ := hlisting _ _ _ _ hemit
  obtain ⟨procs, hstarted, hsub⟩ := hprocs Sample.gccEnvironment h₁
  refine ⟨_, h, h₁, listing, procs, hplan, ?_, hemit, hread, hlisted, hprinted, hstarted, hsub⟩
  cases halike _ Sample.listingOptions _ _ (congrArg Prod.fst Sample.load_checkout) rfl with
  | refused hrefused =>
    rw [hrefused] at hprinted
    cases hprinted
  | @planned w toolchain settings c plan h₂ hmanifest hcontext hplanc hplan_only hfull hcommands =>
    rw [hprinted] at hplan_only
    cases hplan_only
    obtain ⟨⟨_, hplanc', -, hflags, -, -⟩, -⟩ := views_agree Sample.parse_manifestText hselect c
    obtain rfl := Except.ok.inj (hplanc'.symm.trans hplanc)
    intro t ht
    rw [hcommands t ht]
    exact hflags t ht

end GrammarBuild
