import GrammarBuild.Proofs.Nesting
import GrammarBuild.Proofs.Actions
import GrammarBuild.Proofs.Walks
import GrammarBuild.Project.Clean

/-
  GrammarBuild/Proofs/TargetDir.lean
  ==================================
  **What a build makes lies below the target directory** — as long as the profile's name,
  resolved from there, does (`outputs_below_iff`).  A profile is named by any key of the
  manifest, and its name is a path: `..` leads out of the target directory, and an absolute
  name leads anywhere.

  Locations are compared, that is, paths after `.` and `..` in them were resolved.  A
  cleaning that removed the target directory leaves nothing below it (`clean_removes`).
-/

namespace GrammarBuild

/-- A location strictly below another. -/
def Location.Below (l base : Location) : Prop := ∃ names, names ≠ [] ∧ l = base ++ names

theorem Location.below_iff {l base : Location} : l.Below base ↔ base <+: l ∧ l ≠ base := by
  constructor
  · rintro ⟨names, hne, rfl⟩
    exact ⟨⟨names, rfl⟩, fun h => hne (List.append_right_eq_self.1 h)⟩
  · rintro ⟨⟨names, rfl⟩, hne⟩
    exact ⟨names, fun h => hne (by rw [h, List.append_nil]), rfl⟩

instance (l base : Location) : Decidable (l.Below base) := decidable_of_iff _ Location.below_iff.symm

theorem Location.Below.append {l base : Location} (h : l.Below base) (names : List String) :
    Location.Below (l ++ names) base := by
  obtain ⟨first, hne, rfl⟩ := h
  refine ⟨first ++ names, ?_, List.append_assoc base first names⟩
  intro hnil
  exact hne (List.append_eq_nil_iff.1 hnil).1

/-! ### The places of a profile -/

namespace Workspace

theorem locate_targetDir (w : Workspace) (cwd : Location) :
    w.targetDir.locate cwd = w.root.locate cwd ++ [".october", "target"] := by
  have hproject : PlainName ".october" := ⟨by decide, by decide, by decide, by decide⟩
  have htarget : PlainName "target" := ⟨by decide, by decide, by decide, by decide⟩
  rw [targetDir, projectDir, locate_child htarget, locate_child hproject, List.append_assoc]
  rfl

/-- The profile's name is resolved from the target directory. -/
theorem locate_outputDir (w : Workspace) (cwd : Location) :
    w.outputDir.locate cwd = (⟨w.profileName⟩ : Path).locate (w.targetDir.locate cwd) :=
  FileTree.locate_join _ _ _

/-- A name that is one plain step is one step below the target directory. -/
theorem outputDir_below (w : Workspace) (h : PlainName w.profileName) (cwd : Location) :
    Location.Below (w.outputDir.locate cwd) (w.targetDir.locate cwd) :=
  ⟨[w.profileName], by simp, by rw [w.locate_outputDir, h.locate]⟩

end Workspace

theorem Project.Plans.output_below {P : Project} {c : BuildContext} {plan : BuildPlan}
    (h : P.Plans c plan) {p : Path} (hp : p ∈ plan.outputs) (cwd : Location) :
    Location.Below (p.locate cwd) (c.outputDir.locate cwd) := by
  obtain ⟨ts, named, hc, hl⟩ := h.steps_of_targets
  rcases BuildPlan.output_cases hc hl hp with ⟨t, ht, rfl⟩ | ⟨t, ht, source, -, rfl⟩
  · exact ⟨_, by simp, c.locate_modulePath (named t ht) cwd⟩
  · exact ⟨_, by simp, c.locate_objectPath (named t ht) source cwd⟩

/-! ### Cleaning -/

namespace FileTree

theorem node?_clear_append (t : FileTree) (l : Location) {k : Location} (hk : k ≠ []) :
    (t.clear l).node? (l ++ k) = none := by
  obtain ⟨name, k, rfl⟩ := List.exists_cons_of_ne_nil hk
  have hne : l ++ name :: k ≠ [] := by simp
  have hbranch : (mk (t.subtree l).here []).branch name = empty := rfl
  rw [node?, if_neg hne, clear, subtree_alter_append, subtree, hbranch, subtree_empty]
  rfl

theorem removeEmpty_ok {t u : FileTree} {cwd : Location} {p : Path}
    (h : t.removeEmpty cwd p = .ok u) : ∃ l, u = t.remove l := by
  unfold removeEmpty at h
  cases hp : t.parentOf cwd p with
  | error f =>
    rw [hp] at h
    cases h
  | ok parent =>
    obtain ⟨l, last⟩ := parent
    rw [hp] at h
    cases last with
    | none => cases h
    | some name =>
      by_cases hhere : name = "."
      · rw [hhere] at h
        cases h
      by_cases hup : name = ".."
      · rw [hup] at h
        cases h
      simp only [bind, Except.bind, if_neg hhere, if_neg hup] at h
      cases hs : t.stepFrom l name with
      | error f =>
        rw [hs] at h
        cases h
      | ok l' =>
        simp only [hs] at h
        split at h
        · cases h
        split at h
        · cases h
        · cases h
          exact ⟨l', rfl⟩

/-- Nothing is left below a directory that was removed. -/
theorem removeDir_ok {t u : FileTree} {cwd : Location} {p : Path}
    (h : t.removeDir cwd p = (.ok (), u)) {l : Location} (hl : l.Below (p.locate cwd)) :
    u.node? l = none := by
  obtain ⟨k, hk, rfl⟩ := hl
  have hne : p.locate cwd ++ k ≠ [] := by
    intro hnil
    exact hk (List.append_eq_nil_iff.1 hnil).2
  unfold removeDir at h
  cases hr : t.resolve cwd p with
  | error f =>
    rw [hr] at h
    cases h
  | ok place =>
    obtain rfl := resolve_ok hr
    have hclear := node?_clear_append t (p.locate cwd) hk
    rw [hr] at h
    simp only [] at h
    split at h
    · cases h
    split at h
    · rename_i v hv
      cases h
      obtain ⟨l, rfl⟩ := removeEmpty_ok hv
      rw [node?_remove _ _ _ hne, hclear, ite_self]
    · cases h
      exact hclear
    · cases h

end FileTree

/-- A cleaning that removed the target directory leaves nothing below it. -/
theorem clean_removes {manifestPath d : Path} {m : Manifest} {env : Environment} {h h' : Host}
    (manifest : ((Manifest.load manifestPath).runOn env h).1 = .ok m)
    (done : (clean manifestPath false).runOn env h = (.ok (some d), h')) {w : Workspace}
    (hw : w.manifest = m) {l : Location} (hl : l.Below (w.targetDir.locate env.cwd)) :
    h'.files.node? l = none := by
  subst hw
  unfold clean at done
  obtain ⟨w', h₁, hload, done⟩ := Action.runOn_bind_ok done
  obtain ⟨m', h₂, hm, hw'⟩ := Action.runOn_bind_ok hload
  rw [hm] at manifest
  cases manifest
  cases hw'
  simp only [Action.runOn_bind, Action.runOn_pathExists, Bool.false_eq_true, if_false] at done
  split at done
  · cases done
  · rename_i hexists
    obtain ⟨_, h₂, hremove, hlog⟩ := Action.runOn_bind_ok done
    simp only [Action.removeDirIfExists, Action.runOn_bind, Action.runOn_pathExists,
      Action.runOn_ite, Action.runOn_within, Action.runOn_changeWith] at hremove
    rw [if_pos (by simpa using hexists)] at hremove
    rcases hr : h₁.files.removeDir env.cwd w.targetDir with ⟨r, u⟩
    have htarget : ({ manifest := w.manifest } : Workspace).targetDir = w.targetDir := rfl
    rw [htarget, hr] at hremove
    cases r with
    | error f => cases hremove
    | ok _ =>
      cases hremove
      cases hlog
      exact FileTree.removeDir_ok hr hl

/-! ### All outputs -/

/-- The output directory, the fingerprint file and every output of a plan lie below the
    target directory, `.october/target` in the project, exactly if the name of the profile
    leads to a place below it; the name of one plain step does.  They are gone after a
    cleaning that removed the target directory. -/
theorem outputs_below_iff {w : Workspace} {toolchain : Toolchain} {settings : ToolchainSettings}
    {c : BuildContext} (context : BuildContext.of w toolchain settings = .ok c) {ts : List Target}
    {plan : BuildPlan} (targets : BuildPlan.ofTargets c ts = .ok plan) (cwd : Location) :
    w.targetDir.locate cwd = w.root.locate cwd ++ [".october", "target"] ∧
    (((c.outputDir.locate cwd).Below (w.targetDir.locate cwd) ∧
        (c.fingerprintPath.locate cwd).Below (w.targetDir.locate cwd) ∧
        ∀ p ∈ plan.outputs, (p.locate cwd).Below (w.targetDir.locate cwd)) ↔
      ((⟨w.profileName⟩ : Path).locate (w.targetDir.locate cwd)).Below (w.targetDir.locate cwd)) ∧
    (PlainName w.profileName →
      ((⟨w.profileName⟩ : Path).locate (w.targetDir.locate cwd)).Below (w.targetDir.locate cwd)) ∧
    ∀ manifestPath env h h' d, env.cwd = cwd →
      ((Manifest.load manifestPath).runOn env h).1 = .ok w.manifest →
      (clean manifestPath false).runOn env h = (.ok (some d), h') →
      ∀ l : Location, l.Below (w.targetDir.locate cwd) → h'.files.node? l = none := by
  have holds := Project.holds_of context
  have hplans : (Project.of w).Plans c plan := ⟨holds, ts, targets⟩
  have hout : c.outputDir = w.outputDir := holds.outputDir
  have hfingerprints : c.fingerprintPath.locate cwd =
      c.outputDir.locate cwd ++ [".fingerprints.json"] := by
    rw [holds.fingerprintPath, Project.locate_cachePath, holds.outputDir]
  refine ⟨w.locate_targetDir cwd, ?_, ?_, ?_⟩
  · rw [← w.locate_outputDir, hout]
    constructor
    · rintro ⟨hdir, -, -⟩
      exact hdir
    · intro hdir
      refine ⟨hdir, ?_, ?_⟩
      · rw [hfingerprints, hout]
        exact hdir.append _
      · intro p hp
        obtain ⟨names, -, hl⟩ := hplans.output_below hp cwd
        rw [hl, hout]
        exact hdir.append names
  · intro hplain
    rw [← w.locate_outputDir]
    exact w.outputDir_below hplain cwd
  · rintro manifestPath env h h' d rfl manifest done l hl
    exact clean_removes manifest done rfl hl

/-- The outputs of a debug build. -/
theorem outputs_below_debug :
    ∃ plan, BuildPlan.ofTargets Sample.manifestContext [Sample.targetA, Sample.targetB] = .ok plan ∧
      ∀ p ∈ plan.outputs, (p.locate []).Below ["p", ".october", "target"] := by
  have hplan : BuildPlan.ofTargets Sample.manifestContext [Sample.targetA, Sample.targetB] = .ok _ :=
    rfl
  obtain ⟨htarget, hiff, hplain, -⟩ := outputs_below_iff Sample.contextOf_manifest hplan []
  have hdebug : PlainName "debug" := ⟨by decide, by decide, by decide, by decide⟩
  have hroot : (⟨"/p"⟩ : Path).locate [] ++ [".october", "target"] = ["p", ".october", "target"] := rfl
  rw [← hroot, show (⟨"/p"⟩ : Path) = ({ manifest := Sample.manifest } : Workspace).root from rfl,
    ← htarget]
  exact ⟨_, hplan, (hiff.2 (hplain hdebug)).2.2⟩

/-! ### A profile that leads out of the target directory -/

namespace Sample

def upwardManifest : Manifest :=
  { manifest with
    targets := [targetA], profiles := Manifest.profilesOf [("..", { optLevel := some "1" })] }

def upwardText : String :=
  Toml.PlainLine.text (upwardManifest.package.lines ++ targetA.lines ++
    [.tableIn "profile" "..", .pair "opt_level" (.text "1")])

theorem parse_upwardText : Manifest.parse upwardText ⟨"/p"⟩ = .ok upwardManifest := by
  have hread : Declaration.read upwardText =
      .ok ⟨upwardManifest.package, [targetA], [("..", { optLevel := some "1" })]⟩ :=
    Declaration.read_text (by decide) rfl rfl
  rw [Manifest.parse_of_read hread]
  rfl

def upward : Workspace := ⟨upwardManifest, ".."⟩

def upwardContext : BuildContext :=
  { manifestContext with
    profile := { optLevel := "1", debug := true, cflags := [] }, profileName := ".."
    outputDir := upward.outputDir, fingerprintPath := upward.fingerprintPath }

theorem contextOf_upward :
    BuildContext.of upward (.gnu ⟨"/bin/gcc"⟩ .gcc) {} = .ok upwardContext := by
  apply BuildContext.of_eq
  rw [upward, upwardManifest, Manifest.get?_profilesOf]
  rfl

end Sample

/-- A manifest may define the profile `..`, and its modules and fingerprints are kept beside
    the target directory. -/
theorem outputs_beside_targetDir :
    ∃ text dir w tc s c plan, Manifest.parse text dir = .ok w.manifest ∧
      BuildContext.of w tc s = .ok c ∧ BuildPlan.ofTargets c w.manifest.targets = .ok plan ∧
      ¬ (c.fingerprintPath.locate []).Below (w.targetDir.locate []) ∧
      ∃ p ∈ plan.outputs, ¬ (p.locate []).Below (w.targetDir.locate []) := by
  have hbeside {name : String} (hname : name ≠ "target") :
      ¬ Location.Below ["p", ".october", name] ["p", ".october", "target"] := by
    rintro ⟨names, -, h⟩
    have hnames : ["p", ".october"] ++ [name] = ["p", ".october"] ++ "target" :: names := h
    exact hname (List.cons.inj (List.append_cancel_left hnames)).1
  refine ⟨_, _, Sample.upward, _, _, _, _, Sample.parse_upwardText, Sample.contextOf_upward, rfl,
    hbeside (by decide), Sample.upwardContext.modulePath Sample.targetA, ?_, hbeside (by decide)⟩
  exact List.mem_append_right _ List.mem_cons_self

end GrammarBuild
