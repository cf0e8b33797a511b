import GrammarBuild.Proofs.AbsolutePaths
import GrammarBuild.Proofs.Blame
import GrammarBuild.Proofs.CacheOnDisk
import GrammarBuild.Proofs.FirstManifest
import GrammarBuild.Proofs.Views

/-
  GrammarBuild/Proofs/Refusals.lean
  =================================
  **Builds that are refused before anything happens** — the manifest, the profile, the
  targets' names and the sources are checked in this order, and the first fault is the
  error (`Refusal`).  No process is started for it and no file is changed, whatever else
  was asked for.

  A build that is not refused finds all its sources, and then never fails for one
  (`build_refused`).
-/

namespace GrammarBuild

variable {env : Environment} {h h₁ h₂ : Host}

theorem Host.OnlyTold.trans (first : h.OnlyTold h₁) (second : h₁.OnlyTold h₂) : h.OnlyTold h₂ :=
  ⟨second.files.trans first.files, second.started.trans first.started⟩

/-! ### What is read first -/

theorem Manifest.host_load (p : Path) : ((load p).runOn env h).2 = h := by
  refine host_bind rfl fun text => ?_
  exact host_bind rfl fun dir => rfl

theorem BuildSettings.host_load (p : Path) : ((load p).runOn env h).2 = h :=
  host_bind rfl fun _ => rfl

/-- A settings file is at most complained about. -/
theorem runOn_orWarn {α : Type} (env : Environment) (h : Host) (p : Path) (default : α)
    {x : Action α} (same : (x.runOn env h).2 = h) :
    ∃ a h', (orWarn p default x).runOn env h = (.ok a, h') ∧ h.OnlyTold h' := by
  unfold orWarn
  simp only [Action.runOn_bind, Action.runOn_pathExists, Action.runOn_ite, Action.runOn_pure,
    Action.runOn_attempt]
  split
  · exact ⟨default, h, rfl, rfl, rfl⟩
  · rcases hx : x.runOn env h with ⟨r, h'⟩
    obtain rfl : h' = h := by rw [← same, hx]
    cases r with
    | ok a => exact ⟨a, h', rfl, rfl, rfl⟩
    | error e => exact ⟨default, _, rfl, rfl, Host.started_log h' _ _⟩

theorem BuildSettings.runOn_loadBoth (user project : Path) (env : Environment) (h : Host) :
    ∃ s h', (loadBoth user project).runOn env h = (.ok s, h') ∧ h.OnlyTold h' := by
  obtain ⟨s, h₁, hs, htold⟩ := runOn_orWarn env h user {} (host_load user)
  obtain ⟨t, h₂, ht, htold'⟩ := runOn_orWarn env h₁ project {} (host_load project)
  refine ⟨(({} : BuildSettings).merge s).merge t, h₂, ?_, htold.trans htold'⟩
  unfold loadBoth
  simp only [Action.runOn_bind, hs, ht, Action.runOn_pure]

/-- The options name this profile, or else the settings' files do. -/
def ProfileAsked (o : BuildOptions) (env : Environment) (h : Host) (m : Manifest) (name : String) :
    Prop :=
  ∃ s h', (BuildSettings.loadBoth (Caller.configPath env)
      ({ manifest := m } : Workspace).configPath).runOn env h = (.ok s, h') ∧
    name = o.profileName s

theorem exists_profileAsked (o : BuildOptions) (env : Environment) (h : Host) (m : Manifest) :
    ∃ name, ProfileAsked o env h m name := by
  obtain ⟨s, h', hs, -⟩ := BuildSettings.runOn_loadBoth (Caller.configPath env)
    ({ manifest := m } : Workspace).configPath env h
  exact ⟨_, s, h', hs, rfl⟩

section Loading

variable {manifestPath : Path} {o : BuildOptions} {m : Manifest} {e : Failure} {name : String}

theorem runOn_loadWorkspace_error (load : ((Manifest.load manifestPath).runOn env h).1 = .error e) :
    (loadWorkspace manifestPath o).runOn env h = (.error e, h) := by
  have hload : (Manifest.load manifestPath).runOn env h = (.error e, h) :=
    Prod.ext load (Manifest.host_load manifestPath)
  unfold loadWorkspace Workspace.load
  simp only [Action.runOn_bind, hload]

theorem Workspace.runOn_load (load : ((Manifest.load manifestPath).runOn env h).1 = .ok m) :
    (Workspace.load manifestPath).runOn env h = (.ok { manifest := m }, h) := by
  have hload : (Manifest.load manifestPath).runOn env h = (.ok m, h) :=
    Prod.ext load (Manifest.host_load manifestPath)
  rw [Workspace.load, Action.runOn_bind, hload]
  rfl

/-- Loading comes to the check of the profile. -/
theorem runOn_loadWorkspace (load : ((Manifest.load manifestPath).runOn env h).1 = .ok m)
    (asked : ProfileAsked o env h m name) :
    ∃ s h', h.OnlyTold h' ∧ (loadWorkspace manifestPath o).runOn env h =
      (match m.profiles.get? name with
        | some _ => .ok ({ manifest := m, profileName := name }, s)
        | none => .error (.of (.unknownProfile name m.profiles.keys)), h') := by
  have hload : (Manifest.load manifestPath).runOn env h = (.ok m, h) :=
    Prod.ext load (Manifest.host_load manifestPath)
  obtain ⟨s, h', hs, rfl⟩ := asked
  have htold : h.OnlyTold h' := by
    obtain ⟨s', h'', hs', htold⟩ := BuildSettings.runOn_loadBoth (Caller.configPath env)
      ({ manifest := m } : Workspace).configPath env h
    rw [hs] at hs'
    cases hs'
    exact htold
  refine ⟨s, h', htold, ?_⟩
  unfold loadWorkspace Workspace.load
  have hread : (read : Action Environment).runOn env h = (.ok env, h) := rfl
  simp only [Action.runOn_bind, hload, Action.runOn_pure, hread, hs, Action.runOn_ofExcept]
  unfold Workspace.profile Manifest.profile Workspace.withProfile
  dsimp only
  cases m.profiles.get? (o.profileName s) with
  | none => rfl
  | some p => rfl

/-- The targets of a manifest that was loaded passed the checks. -/
theorem checked_of_load (load : ((Manifest.load manifestPath).runOn env h).1 = .ok m) :
    CheckedTargets m.targets := by
  cases htext : h.files.readText env.cwd manifestPath with
  | error f =>
    unfold Manifest.load at load
    rw [Action.runOn_bind, Action.runOn_within, Action.runOn_readText, htext] at load
    cases load
  | ok text =>
    rw [Manifest.runOn_load htext] at load
    cases hparse : Manifest.parse text _ with
    | error e =>
      rw [hparse] at load
      cases load
    | ok m' =>
      rw [hparse] at load
      cases load
      exact Manifest.checked_of_parse hparse

end Loading

/-! ### Selections -/

namespace Manifest

variable {m : Manifest}

theorem findTarget_of_declared {name : String} (declared : name ∈ m.targetNames) :
    ∃ t, m.findTarget name = .ok t := by
  unfold findTarget target?
  cases hf : m.targets.find? fun t => t.name == name with
  | some t => exact ⟨t, rfl⟩
  | none =>
    obtain ⟨t, ht, rfl⟩ := List.mem_map.1 declared
    exact absurd (List.find?_eq_none.1 hf t ht) (by simp)

theorem findTarget_of_undeclared {name : String} (undeclared : name ∉ m.targetNames) :
    m.findTarget name = .error (.of (.unknownTarget name m.targetNames)) := by
  unfold findTarget target?
  have hnone : (m.targets.find? fun t => t.name == name) = none := by
    rw [List.find?_eq_none]
    intro t ht hn
    exact undeclared (List.mem_map.2 ⟨t, ht, by simpa using hn⟩)
  rw [hnone]

theorem selectFrom_of_declared {names : List String} (declared : ∀ n ∈ names, n ∈ m.targetNames)
    (seen : List String) : ∃ ts, m.selectFrom seen names = .ok ts := by
  induction names generalizing seen with
  | nil => exact ⟨[], rfl⟩
  | cons name names ih =>
    have hrest (seen : List String) := ih (fun n hn => declared n (List.mem_cons_of_mem _ hn)) seen
    unfold selectFrom
    split
    · exact hrest seen
    · obtain ⟨t, ht⟩ := findTarget_of_declared (declared name List.mem_cons_self)
      obtain ⟨ts, hts⟩ := hrest (name :: seen)
      exact ⟨t :: ts, by rw [ht]; simp only [bind, Except.bind, hts]; rfl⟩

/-- The first undeclared name of a filter is the error, names that were seen before being
    declared. -/
theorem selectFrom_of_undeclared {before after : List String} {name : String}
    (undeclared : name ∉ m.targetNames) (declared : ∀ n ∈ before, n ∈ m.targetNames)
    {seen : List String} (new : name ∉ seen) :
    m.selectFrom seen (before ++ name :: after) =
      .error (.of (.unknownTarget name m.targetNames)) := by
  induction before generalizing seen with
  | nil =>
    rw [List.nil_append, selectFrom, if_neg new, findTarget_of_undeclared undeclared]
    rfl
  | cons n before ih =>
    have hrest {seen : List String} (new : name ∉ seen) :=
      ih (fun n hn => declared n (List.mem_cons_of_mem _ hn)) new
    have hn := declared n List.mem_cons_self
    rw [List.cons_append, selectFrom]
    split
    · exact hrest new
    · obtain ⟨t, ht⟩ := findTarget_of_declared hn
      have hne : name ≠ n := fun he => undeclared (he ▸ hn)
      have hnew : name ∉ n :: seen := by simp [hne, new]
      rw [ht]
      simp only [bind, Except.bind, hrest hnew]

theorem select_of_declared {filter : List String} (declared : ∀ n ∈ filter, n ∈ m.targetNames) :
    ∃ ts, m.select filter = .ok ts := by
  unfold select
  split
  · exact ⟨_, rfl⟩
  · exact selectFrom_of_declared declared []

theorem select_of_undeclared {before after : List String} {name : String}
    (undeclared : name ∉ m.targetNames) (declared : ∀ n ∈ before, n ∈ m.targetNames) :
    m.select (before ++ name :: after) = .error (.of (.unknownTarget name m.targetNames)) := by
  unfold select
  rw [if_neg (by simp)]
  exact selectFrom_of_undeclared undeclared declared (by simp)

end Manifest

/-! ### Sources -/

/-- The source is the first that is no regular file, the targets being gone through in their
    order and each one's sources in declared order. -/
structure FirstFault (isFile : Path → Bool) (ts : List Target) (t : Target) (source : Path) :
    Prop where
  targets : ∃ before after, ts = before ++ t :: after ∧
    ∀ u ∈ before, ∀ s ∈ u.sources, isFile s = true
  sources : ∃ before after, t.sources = before ++ source :: after ∧ ∀ s ∈ before, isFile s = true
  fault : isFile source = false

/-- There is a first one if there is one at all. -/
theorem FirstFault.exists_of_exists {isFile : Path → Bool} {ts : List Target}
    (h : ∃ t ∈ ts, ∃ s ∈ t.sources, isFile s = false) : ∃ t s, FirstFault isFile ts t s := by
  have hfaulty : ∃ t ∈ ts, (t.sources.any fun s => !isFile s) = true := by
    simpa [List.any_eq_true] using h
  obtain ⟨t, ht⟩ := List.find?_isSome.2 hfaulty |> Option.isSome_iff_exists.1
  obtain ⟨hany, before, after, hts, hbefore⟩ := List.find?_eq_some_iff_append.1 ht
  obtain ⟨s, hs⟩ := List.find?_isSome.2 (List.any_eq_true.1 hany) |> Option.isSome_iff_exists.1
  obtain ⟨hfault, before', after', hss, hbefore'⟩ := List.find?_eq_some_iff_append.1 hs
  refine ⟨t, s, ⟨before, after, hts, fun u hu s hs => ?_⟩, ⟨before', after', hss, fun s hs => ?_⟩, ?_⟩
  · have := hbefore u hu
    simp at this
    exact this s hs
  · simpa using hbefore' s hs
  · simpa using hfault

namespace Target

variable {t : Target} {root : Path}

/-- Sources that are regular files pass the check. -/
theorem runOn_checkSources_append {before : List Path}
    (there : ∀ s ∈ before, h.files.isFile env.cwd (root.join s) = true) (after : List Path) :
    (t.checkSources root (before ++ after)).runOn env h = (t.checkSources root after).runOn env h := by
  induction before with
  | nil => rfl
  | cons s before ih =>
    have hs := there s List.mem_cons_self
    rw [List.cons_append, checkSources]
    simp only [Action.runOn_bind, Action.runOn_pathExists, Action.isFile, Action.runOn_look,
      FileTree.pathExists_of_isFile hs, hs, Bool.not_true, Bool.false_eq_true, if_false]
    exact ih fun s hs => there s (List.mem_cons_of_mem _ hs)

/-- The first source that is no regular file is the error. -/
theorem runOn_checkSources_cons {source : Path} {after : List Path}
    (fault : h.files.isFile env.cwd (root.join source) = false) :
    (t.checkSources root (source :: after)).runOn env h =
      (.error (.of (.target (if h.files.pathExists env.cwd (root.join source)
        then .sourceNotFile t.name source else .sourceNotFound t.name source))), h) := by
  rw [checkSources]
  simp only [Action.runOn_bind, Action.runOn_pathExists, Action.isFile, Action.runOn_look,
    Action.runOn_ite, Action.runOn_fail, fault]
  cases h.files.pathExists env.cwd (root.join source) with
  | true => rfl
  | false => rfl

theorem runOn_resolveSources (valid : t.validate = .ok ()) :
    (do let _ ← t.resolveSources root : Action PUnit).runOn env h =
      (t.checkSources root t.sources).runOn env h := by
  unfold resolveSources
  simp only [Action.runOn_bind, Action.runOn_ofExcept, valid, Failure.lift, Except.mapError,
    Action.runOn_pure]
  rcases hc : (t.checkSources root t.sources).runOn env h with ⟨r, h'⟩
  cases r with
  | ok _ => rfl
  | error e => rfl

/-- Targets whose sources are there are passed over. -/
theorem runOn_resolveAll_append {before : List Target} (valid : ∀ t ∈ before, t.validate = .ok ())
    (there : ∀ t ∈ before, ∀ s ∈ t.sources, h.files.isFile env.cwd (root.join s) = true)
    (after : List Target) :
    ((before ++ after).forM fun t => do let _ ← t.resolveSources root : Action PUnit).runOn env h =
      (after.forM fun t => do let _ ← t.resolveSources root : Action PUnit).runOn env h := by
  induction before with
  | nil => rfl
  | cons t before ih =>
    have hrest := ih (fun t ht => valid t (List.mem_cons_of_mem _ ht))
      fun t ht => there t (List.mem_cons_of_mem _ ht)
    have hcheck := runOn_checkSources_append (t := t) (there t List.mem_cons_self) []
    rw [List.append_nil] at hcheck
    rw [List.cons_append, List.forM_eq_forM, List.forM_cons, ← List.forM_eq_forM, Action.runOn_bind,
      runOn_resolveSources (valid t List.mem_cons_self), hcheck]
    exact hrest

/-- The first source that is no regular file stops the check of all targets. -/
theorem runOn_resolveAll_fault {ts : List Target} (valid : ∀ t ∈ ts, t.validate = .ok ())
    {source : Path}
    (first : FirstFault (fun s => h.files.isFile env.cwd (root.join s)) ts t source) :
    (ts.forM fun t => do let _ ← t.resolveSources root : Action PUnit).runOn env h =
      (.error (.of (.target (if h.files.pathExists env.cwd (root.join source)
        then .sourceNotFile t.name source else .sourceNotFound t.name source))), h) := by
  obtain ⟨⟨before, after, rfl, htargets⟩, ⟨before', after', hs, hsources⟩, hfault⟩ := first
  have hvalid : ∀ u ∈ before, u.validate = .ok () := fun u hu => valid u (List.mem_append_left _ hu)
  have ht : t.validate = .ok () := valid t (List.mem_append_right _ List.mem_cons_self)
  rw [runOn_resolveAll_append hvalid htargets, List.forM_eq_forM, List.forM_cons, Action.runOn_bind,
    runOn_resolveSources ht, hs, runOn_checkSources_append hsources, runOn_checkSources_cons hfault]

end Target

/-! ### Refusals -/

section Build

variable (manifestPath : Path) (o : BuildOptions) (env : Environment) (h : Host)

/-- The manifest loads, and has the profile that is asked for. -/
structure Ready (m : Manifest) : Prop where
  load : ((Manifest.load manifestPath).runOn env h).1 = .ok m
  profile : ∃ name p, ProfileAsked o env h m name ∧ m.profiles.get? name = some p

/-- The first source of a selection that is no regular file, seen from the root. -/
abbrev FaultySource (m : Manifest) (ts : List Target) (t : Target) (source : Path) : Prop :=
  FirstFault (fun s => h.files.isFile env.cwd (m.dir.join s)) ts t source

/-- Why a build is refused.  Each reason counts only where the ones above it do not. -/
inductive Refusal : Failure → Prop where
  | manifest {e : Failure} (load : ((Manifest.load manifestPath).runOn env h).1 = .error e) :
    Refusal e
  | profile {m : Manifest} {name : String}
    (load : ((Manifest.load manifestPath).runOn env h).1 = .ok m)
    (asked : ProfileAsked o env h m name) (unknown : m.profiles.get? name = none) :
    Refusal (.of (.unknownProfile name m.profiles.keys))
  | target {m : Manifest} (ready : Ready manifestPath o env h m) {before after : List String}
    {name : String} (filter : o.targets = before ++ name :: after)
    (declared : ∀ n ∈ before, n ∈ m.targetNames) (undeclared : name ∉ m.targetNames) :
    Refusal (.of (.unknownTarget name m.targetNames))
  | missing {m : Manifest} (ready : Ready manifestPath o env h m) {ts : List Target}
    (selected : m.select o.targets = .ok ts) {t : Target} {source : Path}
    (first : FaultySource env h m ts t source)
    (absent : h.files.pathExists env.cwd (m.dir.join source) = false) :
    Refusal (.of (.target (.sourceNotFound t.name source)))
  | irregular {m : Manifest} (ready : Ready manifestPath o env h m) {ts : List Target}
    (selected : m.select o.targets = .ok ts) {t : Target} {source : Path}
    (first : FaultySource env h m ts t source)
    (there : h.files.pathExists env.cwd (m.dir.join source) = true) :
    Refusal (.of (.target (.sourceNotFile t.name source)))

end Build

section Refused

variable {manifestPath : Path} {o : BuildOptions} {m : Manifest} {e : Failure}

theorem Ready.runOn_loadWorkspace (ready : Ready manifestPath o env h m) :
    ∃ w s h', h.OnlyTold h' ∧ w.manifest = m ∧
      (loadWorkspace manifestPath o).runOn env h = (.ok (w, s), h') := by
  obtain ⟨name, p, hasked, hp⟩ := ready.profile
  obtain ⟨s, h', htold, hload⟩ := GrammarBuild.runOn_loadWorkspace ready.load hasked
  rw [hp] at hload
  exact ⟨_, s, h', htold, rfl, hload⟩

/-- Where the selection fails. -/
theorem Ready.runOn_build_select_error (ready : Ready manifestPath o env h m)
    (refused : m.select o.targets = .error e) :
    ∃ h', (build manifestPath o).runOn env h = (.error e, h') ∧ h.OnlyTold h' := by
  obtain ⟨w, s, h', htold, rfl, hload⟩ := ready.runOn_loadWorkspace
  refine ⟨h', ?_, htold⟩
  rw [build_eq_afterSources, Action.runOn_bind, hload]
  simp only [Action.runOn_bind, Action.runOn_ofExcept, refused]

/-- Where the check of the sources fails, or passes. -/
theorem Ready.runOn_build (ready : Ready manifestPath o env h m) {ts : List Target}
    (selected : m.select o.targets = .ok ts) :
    ∃ w s h', h.OnlyTold h' ∧ w.manifest = m ∧
      (build manifestPath o).runOn env h = ((ts.forM fun t => do
        let _ ← t.resolveSources m.dir : Action PUnit) >>= fun _ => afterSources w s o ts).runOn
          env h' := by
  obtain ⟨w, s, h', htold, rfl, hload⟩ := ready.runOn_loadWorkspace
  refine ⟨w, s, h', htold, rfl, ?_⟩
  rw [build_eq_afterSources, Action.runOn_bind, hload]
  simp only [Action.runOn_bind, Action.runOn_ofExcept, selected]
  rfl

/-- Where there is a faulty source. -/
theorem Ready.runOn_build_faulty (ready : Ready manifestPath o env h m) {ts : List Target}
    (selected : m.select o.targets = .ok ts) {t : Target} {source : Path}
    (first : FaultySource env h m ts t source) :
    ∃ h', (build manifestPath o).runOn env h =
      (.error (.of (.target (if h.files.pathExists env.cwd (m.dir.join source)
        then .sourceNotFile t.name source else .sourceNotFound t.name source))), h') ∧
      h.OnlyTold h' := by
  obtain ⟨w, s, h', htold, -, hbuild⟩ := ready.runOn_build selected
  have hvalid := (Manifest.checked_of_select (checked_of_load ready.load) selected).valid
  refine ⟨h', ?_, htold⟩
  rw [hbuild, Action.runOn_bind, ← htold.files]
  rw [FaultySource, ← htold.files] at first
  rw [Target.runOn_resolveAll_fault hvalid first]

/-- A reason to refuse is the error, and nothing has happened. -/
theorem Refusal.runOn_build (refusal : Refusal manifestPath o env h e) :
    ∃ h', (build manifestPath o).runOn env h = (.error e, h') ∧ h.OnlyTold h' := by
  cases refusal with
  | manifest load =>
    refine ⟨h, ?_, rfl, rfl⟩
    rw [build_eq_afterSources, Action.runOn_bind, runOn_loadWorkspace_error load]
  | profile load asked unknown =>
    obtain ⟨s, h', htold, hload⟩ := runOn_loadWorkspace load asked
    refine ⟨h', ?_, htold⟩
    rw [build_eq_afterSources, Action.runOn_bind, hload, unknown]
  | target ready filter declared undeclared =>
    refine ready.runOn_build_select_error ?_
    rw [filter]
    exact Manifest.select_of_undeclared undeclared declared
  | missing ready selected first absent =>
    have hbuild := ready.runOn_build_faulty selected first
    simpa only [absent, Bool.false_eq_true, if_false] using hbuild
  | irregular ready selected first there =>
    have hbuild := ready.runOn_build_faulty selected first
    simpa only [there, if_true] using hbuild

end Refused

/-- A reason to refuse a build is its error, and then no process was started and no file
    changed.  A selection of a manifest's targets with a source that is no regular file has
    a first such source, which is such a reason.  Where all sources of the selection are
    regular files, the build never fails because of one. -/
theorem build_refused (manifestPath : Path) (o : BuildOptions) (env : Environment) (h : Host) :
    (∀ e, Refusal manifestPath o env h e →
      ∃ h', (build manifestPath o).runOn env h = (.error e, h') ∧ h.OnlyTold h') ∧
    (∀ m, Ready manifestPath o env h m → (∀ name ∈ o.targets, name ∈ m.targetNames) →
      ∃ ts, m.select o.targets = .ok ts ∧
        ((∃ t ∈ ts, ∃ s ∈ t.sources, h.files.isFile env.cwd (m.dir.join s) = false) →
          ∃ t source, FaultySource env h m ts t source)) ∧
    ∀ m ts, ((Manifest.load manifestPath).runOn env h).1 = .ok m → m.select o.targets = .ok ts →
      (∀ t ∈ ts, ∀ s ∈ t.sources, h.files.isFile env.cwd (m.dir.join s) = true) →
      ∀ e h', (build manifestPath o).runOn env h = (.error e, h') → e.cause.isAboutSource = false := by
  refine ⟨fun e refusal => refusal.runOn_build, fun m ready declared => ?_,
    fun m ts load selected there e h' failed => ?_⟩
  · obtain ⟨ts, hts⟩ := Manifest.select_of_declared declared
    exact ⟨ts, hts, FirstFault.exists_of_exists⟩
  · obtain ⟨name, hasked⟩ := exists_profileAsked o env h m
    cases hp : m.profiles.get? name with
    | none =>
      obtain ⟨h'', hbuild, -⟩ := (Refusal.profile load hasked hp).runOn_build
      rw [hbuild] at failed
      cases failed
      rfl
    | some p =>
      have ready : Ready manifestPath o env h m := ⟨load, name, p, hasked, hp⟩
      obtain ⟨w, s, h₁, htold, -, hbuild⟩ := ready.runOn_build selected
      have hvalid := (Manifest.checked_of_select (checked_of_load load) selected).valid
      rw [← htold.files] at there
      have hall := Target.runOn_resolveAll_append hvalid there []
      rw [List.append_nil] at hall
      rw [hbuild, Action.runOn_bind, hall] at failed
      have hspares := spares_afterSources w s o ts env h₁
      have hrest : (afterSources w s o ts).runOn env h₁ = (.error e, h') := failed
      rw [hrest] at hspares
      exact hspares

namespace Sample

/-- A project whose second target has no sources yet. -/
def unfinished : FileTree :=
  (((∅ : FileTree).set ["p"] .dir).set ["p", "October.toml"] (.file manifestText.toUTF8 false)).set
    ["p", "a.c"] (.file "int a;".toUTF8 false)

theorem ready_manifest {env : Environment} {h : Host} {o : BuildOptions}
    (read : h.files.readFile env.cwd ⟨"/p/October.toml"⟩ = .ok manifestText.toUTF8)
    (debug : o.profile = some "debug") : Ready ⟨"/p/October.toml"⟩ o env h manifest where
  load := congrArg Prod.fst (load_manifest read)
  profile := by
    obtain ⟨s, h', hs, -⟩ := BuildSettings.runOn_loadBoth (Caller.configPath env)
      ({ manifest } : Workspace).configPath env h
    refine ⟨_, .debugDefault, ⟨s, h', hs, rfl⟩, ?_⟩
    rw [BuildOptions.profileName, debug, manifest, Manifest.get?_profilesOf]
    rfl

end Sample

/-- All targets are wanted, and the list for editors: the first source that is missing is
    the error, and nothing is written. -/
theorem build_refused_unfinished :
    ∃ h', (build ⟨"/p/October.toml"⟩ { profile := some "debug", emitCompileCommands := true }).runOn
        default { files := Sample.unfinished } =
      (.error (.of (.target (.sourceNotFound "b.c" ⟨"b.c"⟩))), h') ∧
      ({ files := Sample.unfinished } : Host).OnlyTold h' := by
  have hthere : ∀ u ∈ [Sample.targetA], ∀ s ∈ u.sources,
      Sample.unfinished.isFile [] (Sample.manifest.dir.join s) = true := by
    intro u hu s hs
    obtain rfl := List.mem_singleton.1 hu
    obtain rfl := List.mem_singleton.1 hs
    rfl
  have hfirst : FaultySource default { files := Sample.unfinished } Sample.manifest
      Sample.manifest.targets Sample.targetB ⟨"b.c"⟩ :=
    ⟨⟨[Sample.targetA], [], rfl, hthere⟩, ⟨[], [⟨"../d.c"⟩], rfl, by simp⟩, rfl⟩
  exact (build_refused ⟨"/p/October.toml"⟩ _ default { files := Sample.unfinished }).1 _
    (.missing (Sample.ready_manifest rfl rfl) rfl hfirst rfl)

end GrammarBuild
