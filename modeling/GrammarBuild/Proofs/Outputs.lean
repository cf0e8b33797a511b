import GrammarBuild.Build.Execute
import GrammarBuild.Proofs.Layout
import GrammarBuild.Proofs.Parents
import GrammarBuild.Proofs.PlainDocuments
import GrammarBuild.Proofs.Selections

/-
  GrammarBuild/Proofs/Outputs.lean
  ================================
  **The outputs of a plan, component by component** — what lies under an output
  directory of any spelling, and when two outputs are the same (`outputs_distinct`).

  A path that is continued by plain names has exactly these names more
  (`components_children`).  An object is `obj`, its target's name and `<stem>-<digest>`
  with an ending (`components_objectPath`), a module the parts of its target's name
  (`components_modulePath`).  The first has a dash in its last component and the second
  nowhere, and `<stem>-<digest>` is taken apart from behind, for a digest always has
  eight digits (`objectName_eq_iff`).
-/

namespace GrammarBuild

namespace Path

/-! ### Paths that are continued -/

theorem leadOf_eq_nil {t : List Char} (h : ∀ c ∈ componentsOf t, ∃ name, c = .normal name) :
    leadOf t = [] := by
  rw [componentsOf_eq] at h
  unfold leadOf at h ⊢
  split
  · rename_i hslash
    rw [if_pos hslash] at h
    obtain ⟨name, hn⟩ := h .root List.mem_cons_self
    cases hn
  · rename_i hslash
    rw [if_neg hslash] at h
    split
    · rename_i hhere
      rw [if_pos hhere] at h
      obtain ⟨name, hn⟩ := h .here List.mem_cons_self
      cases hn
    · rfl

/-- Joining appends components if all of the second path are names. -/
theorem components_join (p : Path) {q : Path} (h : ∀ c ∈ q.components, ∃ name, c = .normal name) :
    (p.join q).components = p.components ++ q.components := by
  have hlead := leadOf_eq_nil h
  have hq : q.components = (List.splitOn '/' q.text.toList).filterMap Component.ofPart? := by
    rw [components, componentsOf_eq, hlead, List.nil_append]
  have habs : q.isAbsolute = false := by
    unfold leadOf at hlead
    split at hlead
    · cases hlead
    · rename_i hslash
      simpa [isAbsolute] using hslash
  have hslash (v : List Char) :
      componentsOf (v ++ '/' :: q.text.toList) = componentsOf (v ++ ['/']) ++ q.components := by
    have hnil : Component.ofPart? [] = none := rfl
    rw [hq, componentsOf_eq, componentsOf_eq (v ++ ['/']), leadOf_append_cons,
      List.splitOn_append_cons_self, List.splitOn_append_cons_self]
    simp [hnil]
  unfold join
  rw [habs]
  simp only [Bool.false_eq_true, if_false]
  by_cases hempty : p.text = ""
  · have hnone : componentsOf [] = [] := rfl
    simp [hnone, components, hempty]
  by_cases hlast : p.text.toList.getLast? = some '/'
  · obtain ⟨v, hv⟩ := List.getLast?_eq_some_iff.1 hlast
    simp only [hlast, beq_self_eq_true, Bool.or_true, if_true]
    rw [components, components, String.toList_append, hv, List.append_assoc,
      List.singleton_append]
    exact hslash v
  · have hne : p.text.toList ≠ [] := fun hn => hempty (String.toList_eq_nil_iff.1 hn)
    have hbar : "/".toList = ['/'] := rfl
    simp only [String.isEmpty_iff, hempty, hlast, beq_iff_eq, Bool.or_eq_true, or_self, if_false]
    rw [components, String.toList_append, String.toList_append, hbar, List.append_assoc,
      List.singleton_append, hslash, componentsOf_slash hne]
    rfl

theorem components_name {name : String} (h : PlainName name) :
    (⟨name⟩ : Path).components = [.normal name] := by
  have hne : name.toList ≠ [] := fun hn => h.notEmpty (String.toList_eq_nil_iff.1 hn)
  have hdot : name.toList ≠ ['.'] := fun hn => h.notHere (String.toList_injective hn)
  have hup : name.toList ≠ ['.', '.'] := fun hn => h.notUp (String.toList_injective hn)
  have hpart : Component.ofPart? name.toList = some (.normal name) := by
    simp [Component.ofPart?, hne, hdot, hup]
  have hhead : name.toList.head? ≠ some '/' := by
    intro hh
    exact h.noSlash (List.mem_of_mem_head? hh)
  rw [components, componentsOf_eq, leadOf, if_neg hhead, List.splitOn_eq_singleton h.noSlash]
  simp [hdot, hpart]

theorem components_child {name : String} (h : PlainName name) (p : Path) :
    (p.child name).components = p.components ++ [.normal name] := by
  have hname := components_name h
  rw [child, components_join, hname]
  rw [hname]
  intro c hc
  exact ⟨name, List.mem_singleton.1 hc⟩

/-- A path continued by plain names has these names more. -/
theorem components_children {names : List String} (h : ∀ name ∈ names, PlainName name) (p : Path) :
    (p.children names).components = p.components ++ names.map .normal := by
  rw [children_eq_foldl]
  induction names generalizing p with
  | nil => simp
  | cons name names ih =>
    rw [List.foldl_cons, ih (fun n hn => h n (List.mem_cons_of_mem name hn)),
      components_child (h name List.mem_cons_self)]
    simp

end Path

/-! ### The names of objects -/

theorem length_hex (words : List Nat) : (Sha256.hex words).length = 8 * words.length := by
  induction words with
  | nil => rfl
  | cons w words ih =>
    rw [Sha256.hex, List.flatMap_cons, ← Sha256.hex, List.length_append, ih]
    simp only [List.length_map, List.length_cons, List.length_nil]
    omega

/-- The digest of a path has eight digits. -/
theorem length_ofPath (p : Path) : (Digest.ofPath p).toList.length = 8 := by
  have hdigest (message : List UInt8) : (Sha256.digest message).length = 8 := rfl
  rw [Digest.ofPath, Digest.ofTexts, Sha256.hexDigest, String.toList_ofList, String.toList_ofList,
    List.length_take, length_hex, hdigest]
  rfl

namespace BuildContext

/-- The stem of a source in the name of its object. -/
def stemFor (source : Path) : String := source.fileStem?.getD "source"

/-- Stems may have dashes and dots; what follows them has always the same length. -/
theorem objectName_eq_iff {source source' : Path} {ending : String} :
    objectName source ending = objectName source' ending ↔
      stemFor source = stemFor source' ∧ Digest.ofPath source = Digest.ofPath source' := by
  constructor
  · intro h
    have h := congrArg String.toList h
    simp only [objectName, String.toList_append, List.append_assoc] at h
    have hdash : "-".toList = ['-'] := rfl
    have hlen : (Digest.ofPath source).toList.length = (Digest.ofPath source').toList.length := by
      rw [length_ofPath, length_ofPath]
    obtain ⟨hstem, hrest⟩ := List.append_inj' h (by simp [hlen])
    obtain ⟨-, hrest⟩ := List.append_inj hrest rfl
    obtain ⟨hdigest, -⟩ := List.append_inj hrest hlen
    exact ⟨String.toList_injective hstem, String.toList_injective hdigest⟩
  · rintro ⟨hstem, hdigest⟩
    unfold stemFor at hstem
    rw [objectName, objectName, hstem, hdigest]

/-! ### Where outputs lie -/

variable (c : BuildContext) {t : Target}

theorem components_objectDir (h : t.Named) :
    (c.objectDir t).components = c.outputDir.components ++ [.normal "obj", .normal t.name] := by
  have hobj : PlainName "obj" := plainName_of_dotless (by decide) (by decide) (by decide)
  rw [objectDir, Path.components_child h.plainName.1, Path.components_child hobj]
  simp

/-- An object is one name below the directory of its target's objects. -/
theorem components_objectPath (source : Path) :
    (c.objectPath t source).components =
      (c.objectDir t).components ++ [.normal (objectName source c.toolchain.objectEnding)] :=
  Path.components_child (c.plainName_objectName source).1 _

/-- A module is one name or more below the output directory. -/
theorem components_modulePath (h : t.Named) :
    (c.modulePath t).components = c.outputDir.components ++ (c.moduleNames t).map .normal := by
  have hempty : (⟨""⟩ : Path).components = [] := rfl
  have hdir : t.moduleDir.components = t.dirNames.map .normal := by
    have hd := Path.components_children
      (fun name hn => Target.plainName_of_mem_dirNames h hn) ⟨""⟩
    rw [hempty, List.nil_append] at hd
    exact hd
  have hmodule : (t.modulePath c.toolchain.moduleEnding).components =
      (c.moduleNames t).map .normal := by
    rw [Target.modulePath, Path.components_child (c.plainName_moduleFileName h).1, hdir, moduleNames,
      List.map_append]
    rfl
  rw [modulePath, Path.components_join, hmodule]
  rw [hmodule]
  intro x hx
  obtain ⟨name, -, rfl⟩ := List.mem_map.1 hx
  exact ⟨name, rfl⟩

end BuildContext

/-! ### Outputs that are the same -/

theorem normal_injective : Function.Injective Component.normal := by
  intro a b h
  cases h
  rfl

namespace BuildContext

variable {c : BuildContext} {t u : Target}

theorem name_eq_of_modulePath (ht : t.Named) (hu : u.Named)
    (h : (c.modulePath t).components = (c.modulePath u).components) : t.name = u.name := by
  rw [c.components_modulePath ht, c.components_modulePath hu] at h
  have hnames := List.map_injective_iff.2 normal_injective (List.append_cancel_left h)
  exact name_eq_of_moduleNames ht hnames

/-- Two objects are the same file exactly if they are made for targets of one name from
    sources with one stem and one digest. -/
theorem objectPath_eq_iff (ht : t.Named) (hu : u.Named) {source source' : Path} :
    (c.objectPath t source).components = (c.objectPath u source').components ↔
      t.name = u.name ∧ stemFor source = stemFor source' ∧
        Digest.ofPath source = Digest.ofPath source' := by
  rw [c.components_objectPath, c.components_objectPath, c.components_objectDir ht,
    c.components_objectDir hu, List.append_assoc, List.append_assoc, List.append_cancel_left_eq]
  simp only [List.cons_append, List.nil_append, List.cons.injEq, Component.normal.injEq, true_and,
    and_true, objectName_eq_iff]

/-- An object's last component has a dash, a module's has none. -/
theorem objectPath_ne_modulePath (hu : u.Named) (source : Path) :
    (c.objectPath t source).components ≠ (c.modulePath u).components := by
  intro h
  have hlast := congrArg List.getLast? h
  rw [c.components_objectPath, c.components_modulePath hu, moduleNames, List.map_append,
    ← List.append_assoc, List.map_singleton, List.getLast?_concat, List.getLast?_concat] at hlast
  have hname := normal_injective (Option.some.inj hlast)
  apply (c.plainName_moduleFileName hu).2
  rw [← hname]
  exact (c.plainName_objectName source).2

end BuildContext

/-! ### The outputs of a plan -/

theorem compileStep_of_mem {c : BuildContext} {ts : List Target} {s : CompileStep}
    (h : s ∈ ts.flatMap c.compileSteps) :
    ∃ t ∈ ts, ∃ source ∈ t.sources, s = c.compileStep t source := by
  obtain ⟨t, ht, hs⟩ := List.mem_flatMap.1 h
  obtain ⟨source, hsource, rfl⟩ := List.mem_map.1 hs
  exact ⟨t, ht, source, hsource, rfl⟩

theorem linkStep_of_mem {c : BuildContext} {ts : List Target} {s : LinkStep}
    (h : s ∈ ts.map c.linkStep) : ∃ t ∈ ts, s = c.linkStep t := by
  obtain ⟨t, ht, rfl⟩ := List.mem_map.1 h
  exact ⟨t, ht, rfl⟩

/-- Every file that a plan's steps write. -/
def BuildPlan.outputs (plan : BuildPlan) : List Path :=
  plan.compileSteps.map CompileStep.output ++ plan.linkSteps.map LinkStep.output

namespace BuildPlan

variable {plan : BuildPlan}

theorem mem_outputs {o : Path} : o ∈ plan.outputs ↔
    (∃ s ∈ plan.compileSteps, s.output = o) ∨ ∃ s ∈ plan.linkSteps, s.output = o := by
  rw [outputs, List.mem_append, List.mem_map, List.mem_map]

theorem object_mem_outputs {s : CompileStep} (hs : s ∈ plan.compileSteps) : s.output ∈ plan.outputs :=
  mem_outputs.2 (.inl ⟨s, hs, rfl⟩)

theorem module_mem_outputs {s : LinkStep} (hs : s ∈ plan.linkSteps) : s.output ∈ plan.outputs :=
  mem_outputs.2 (.inr ⟨s, hs, rfl⟩)

end BuildPlan

/-- No two steps of a plan for the targets `ts` write one file, except that two sources of
    one target share their object if both their stems and their digests are the same. -/
structure BuildPlan.OutputsDistinct (plan : BuildPlan) (c : BuildContext) (ts : List Target) :
    Prop where
  object : ∀ s ∈ plan.compileSteps, ∃ t ∈ ts, s.target = t.name ∧
    ∃ name, s.output.components = (c.objectDir t).components ++ [.normal name]
  module : ∀ s ∈ plan.linkSteps, ∃ names, names ≠ [] ∧
    s.output.components = c.outputDir.components ++ names.map .normal
  modules : ∀ s ∈ plan.linkSteps, ∀ s' ∈ plan.linkSteps, s.target ≠ s'.target →
    s.output.components ≠ s'.output.components
  objects : ∀ s ∈ plan.compileSteps, ∀ s' ∈ plan.compileSteps,
    s.output.components = s'.output.components ↔ s.target = s'.target ∧
      BuildContext.stemFor s.source = BuildContext.stemFor s'.source ∧
      Digest.ofPath s.source = Digest.ofPath s'.source
  object_module : ∀ s ∈ plan.compileSteps, ∀ s' ∈ plan.linkSteps,
    s.output.components ≠ s'.output.components
  object_fingerprints : ∀ s ∈ plan.compileSteps,
    s.output.components ≠ c.fingerprintPath.components
  module_fingerprints : ∀ s ∈ plan.linkSteps,
    s.output.components ≠ c.fingerprintPath.components

/-- For every selection of a manifest's targets and every output directory, whatever the
    sources are called, the outputs of the plan are distinct. -/
theorem outputs_distinct {text : String} {dir : Path} {m : Manifest}
    (parsed : Manifest.parse text dir = .ok m) {filter : List String} {ts : List Target}
    (selected : m.select filter = .ok ts) (c : BuildContext)
    (fingerprints : c.fingerprintPath = c.outputDir.child ".fingerprints.json") :
    ∃ plan, BuildPlan.ofTargets c ts = .ok plan ∧ plan.OutputsDistinct c ts := by
  have checked := Manifest.checked_of_select (Manifest.checked_of_parse parsed) selected
  have named : ∀ t ∈ ts, t.Named := fun t ht => Target.named_of_validate (checked.valid t ht)
  have hfingerprints : c.fingerprintPath.components =
      c.outputDir.components ++ [.normal ".fingerprints.json"] := by
    have hplain : PlainName ".fingerprints.json" :=
      ⟨by decide, by decide, by decide, by decide⟩
    rw [fingerprints, Path.components_child hplain]
  refine ⟨_, BuildPlan.ofTargets_eq c checked.valid, ?_⟩
  constructor
  · intro s hs
    obtain ⟨t, ht, source, -, rfl⟩ := compileStep_of_mem hs
    rw [BuildContext.output_compileStep]
    exact ⟨t, ht, rfl, _, c.components_objectPath source⟩
  · intro s hs
    obtain ⟨t, ht, rfl⟩ := linkStep_of_mem hs
    rw [BuildContext.output_linkStep]
    exact ⟨_, by simp [BuildContext.moduleNames], c.components_modulePath (named t ht)⟩
  · intro s hs s' hs' hne h
    obtain ⟨t, ht, rfl⟩ := linkStep_of_mem hs
    obtain ⟨t', ht', rfl⟩ := linkStep_of_mem hs'
    rw [BuildContext.output_linkStep, BuildContext.output_linkStep] at h
    exact hne (BuildContext.name_eq_of_modulePath (named t ht) (named t' ht') h)
  · intro s hs s' hs'
    obtain ⟨t, ht, source, -, rfl⟩ := compileStep_of_mem hs
    obtain ⟨t', ht', source', -, rfl⟩ := compileStep_of_mem hs'
    rw [BuildContext.output_compileStep, BuildContext.output_compileStep]
    exact BuildContext.objectPath_eq_iff (named t ht) (named t' ht')
  · intro s hs s' hs'
    obtain ⟨t, ht, source, -, rfl⟩ := compileStep_of_mem hs
    obtain ⟨t', ht', rfl⟩ := linkStep_of_mem hs'
    rw [BuildContext.output_compileStep, BuildContext.output_linkStep]
    exact BuildContext.objectPath_ne_modulePath (named t' ht') source
  · intro s hs h
    obtain ⟨t, ht, source, -, rfl⟩ := compileStep_of_mem hs
    rw [BuildContext.output_compileStep, c.components_objectPath, c.components_objectDir (named t ht),
      hfingerprints, List.append_assoc] at h
    have hlength := congrArg List.length (List.append_cancel_left h)
    cases hlength
  · intro s hs h
    obtain ⟨t, ht, rfl⟩ := linkStep_of_mem hs
    rw [BuildContext.output_linkStep, c.components_modulePath (named t ht), hfingerprints,
      BuildContext.moduleNames, List.map_append, ← List.append_assoc] at h
    have hlast := (List.append_inj' h rfl).2
    exact c.moduleFileName_ne (named t ht) rfl (normal_injective (List.singleton_inj.1 hlast))

/-- The context of a profile that is defined. -/
theorem BuildContext.of_eq {w : Workspace} {profile : Profile}
    (h : w.manifest.profiles.get? w.profileName = some profile) (tc : Toolchain)
    (s : ToolchainSettings) :
    of w tc s = .ok
      { toolchain := tc, profile, profileName := w.profileName, outputDir := w.outputDir,
        root := w.root, fingerprintPath := w.fingerprintPath,
        cflags := s.cflags, ldflags := s.ldflags } := by
  unfold of Workspace.profile Manifest.profile
  rw [h]
  rfl

/-! ### Two targets -/

namespace Sample

def targetA : Target := { name := "a", sources := [⟨"a.c"⟩], includeDirs := [⟨"inc"⟩] }

def targetB : Target := { name := "b.c", sources := [⟨"b.c"⟩, ⟨"../d.c"⟩] }

def manifest : Manifest where
  package := { name := "x", version := "0.1.0" }
  targets := [targetA, targetB]
  profiles := Manifest.profilesOf []
  dir := ⟨"/p"⟩

def manifestText : String :=
  Toml.PlainLine.text (manifest.package.lines ++ manifest.targets.flatMap Target.lines)

theorem parse_manifestText : Manifest.parse manifestText ⟨"/p"⟩ = .ok manifest := by
  have hread : Declaration.read manifestText = .ok ⟨manifest.package, manifest.targets, []⟩ :=
    Declaration.read_text (by decide) rfl rfl
  rw [Manifest.parse_of_read hread]
  rfl

/-- The context of the manifest's debug profile. -/
def manifestContext : BuildContext where
  toolchain := .gnu ⟨"/bin/gcc"⟩ .gcc
  profile := .debugDefault
  profileName := "debug"
  outputDir := (Workspace.mk manifest "debug").outputDir
  root := ⟨"/p"⟩
  fingerprintPath := (Workspace.mk manifest "debug").fingerprintPath
  cflags := []
  ldflags := []

theorem contextOf_manifest :
    BuildContext.of { manifest } (.gnu ⟨"/bin/gcc"⟩ .gcc) {} = .ok manifestContext := by
  apply BuildContext.of_eq
  rw [manifest, Manifest.get?_profilesOf]
  rfl

/-- A compile step in the project of the manifest. -/
def compileTo (target source object : String) (dirs flags : List String) : CompileStep :=
  let output := "/p/.october/target/debug/obj/" ++ object
  { target, source := ⟨source⟩, output := ⟨output⟩, includeDirs := dirs.map Path.mk
    command := ⟨⟨"/bin/gcc"⟩, "-c" :: "-fPIC" :: (flags ++ ["-O0", "-g", source, "-o", output])⟩ }

/-- A link step in the project of the manifest. -/
def linkTo (target output : String) (objects : List String) : LinkStep :=
  { target, objects := objects.map Path.mk, output := ⟨output⟩
    command := ⟨⟨"/bin/gcc"⟩, "-shared" :: "-o" :: output :: objects⟩ }

/-- The plan for the manifest. -/
def manifestPlan : BuildPlan where
  profile := "debug"
  root := ⟨"/p"⟩
  compileSteps :=
    [compileTo "a" "a.c" "a/a-4d1e93e6.o" ["inc"] ["-Iinc"],
      compileTo "b.c" "b.c" "b.c/b-4c6b271f.o" [] [], compileTo "b.c" "../d.c" "b.c/d-c7b0a315.o" [] []]
  linkSteps :=
    [linkTo "a" "/p/.october/target/debug/a.so" ["/p/.october/target/debug/obj/a/a-4d1e93e6.o"],
      linkTo "b.c" "/p/.october/target/debug/b/c.so"
        ["/p/.october/target/debug/obj/b.c/b-4c6b271f.o",
          "/p/.october/target/debug/obj/b.c/d-c7b0a315.o"]]

theorem planned_manifest :
    BuildPlan.ofTargets manifestContext manifest.targets = .ok manifestPlan := by
  rw [BuildPlan.ofTargets_eq manifestContext (Manifest.checked_of_parse parse_manifestText).valid]
  decide +kernel

end Sample

/-- Two targets, one of them with a dotted name and a source outside of the project. -/
theorem outputs_distinct_twoTargets :
    ∃ c, BuildContext.of { manifest := Sample.manifest } (.gnu ⟨"/bin/gcc"⟩ .gcc) {} = .ok c ∧
      c.fingerprintPath = c.outputDir.child ".fingerprints.json" ∧
      ∃ plan, BuildPlan.ofTargets c [Sample.targetA, Sample.targetB] = .ok plan ∧
        plan.OutputsDistinct c [Sample.targetA, Sample.targetB] := by
  have hcontext := Sample.contextOf_manifest
  have hselect : Sample.manifest.select [] = .ok [Sample.targetA, Sample.targetB] := rfl
  exact ⟨_, hcontext, rfl, outputs_distinct Sample.parse_manifestText hselect _ rfl⟩

end GrammarBuild
