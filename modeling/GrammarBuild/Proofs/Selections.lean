import GrammarBuild.Build.Flags
import Mathlib.Data.List.Nodup

/-
  GrammarBuild/Proofs/Selections.lean
  ===================================
  **What is built of a manifest** — a manifest that was parsed has valid targets with
  distinct names (`checked_of_parse`), a selection has some of them, each once
  (`checked_of_select`), and the plan for targets that passed the checks is never
  refused (`ofTargets_eq`).
-/

namespace GrammarBuild

/-- Targets that are valid and have distinct names. -/
structure CheckedTargets (ts : List Target) : Prop where
  valid : ∀ t ∈ ts, t.validate = .ok ()
  distinct : (ts.map Target.name).Nodup

namespace CheckedTargets

variable {ts : List Target}

/-- A name leads to at most one target. -/
theorem eq_of_name (h : CheckedTargets ts) {t u : Target} (ht : t ∈ ts) (hu : u ∈ ts)
    (hn : t.name = u.name) : t = u :=
  List.inj_on_of_nodup_map h.distinct ht hu hn

/-- Some of the targets, each of them once. -/
theorem of_subset (h : CheckedTargets ts) {us : List Target} (sub : us ⊆ ts) (distinct : us.Nodup) :
    CheckedTargets us :=
  ⟨fun t ht => h.valid t (sub ht),
    distinct.map_on fun _ ht _ hu hn => h.eq_of_name (sub ht) (sub hu) hn⟩

theorem filter_name (h : CheckedTargets ts) {t : Target} (ht : t ∈ ts) :
    ts.filter (fun u => u.name == t.name) = [t] := by
  have hd := h.distinct
  clear h
  induction ts with
  | nil => cases ht
  | cons u ts ih =>
    rw [List.map_cons, List.nodup_cons] at hd
    obtain ⟨hnew, hd⟩ := hd
    rcases List.mem_cons.1 ht with rfl | ht
    · have hrest : ts.filter (fun u => u.name == t.name) = [] := by
        rw [List.filter_eq_nil_iff]
        intro u hu hn
        exact hnew (List.mem_map.2 ⟨u, hu, by simpa using hn⟩)
      simp [hrest]
    · have hn : u.name ≠ t.name := by
        intro hn
        exact hnew (List.mem_map.2 ⟨t, ht, hn.symm⟩)
      simp [hn, ih ht hd]

end CheckedTargets

/-! ### The checks of a manifest -/

namespace Manifest

/-- The checks go from one target to the next; `seen` are the names before. -/
theorem checkTargets_ok {seen : List String} {ts : List Target}
    (h : checkTargets seen ts = .ok ()) :
    CheckedTargets ts ∧ ∀ t ∈ ts, t.name ∉ seen := by
  induction ts generalizing seen with
  | nil => exact ⟨⟨by simp, by simp⟩, by simp⟩
  | cons t ts ih =>
    unfold checkTargets at h
    cases hv : t.validate with
    | error e =>
      rw [hv] at h
      cases h
    | ok _ =>
      rw [hv] at h
      by_cases hs : t.name ∈ seen
      · simp [hs, bind, Except.bind, throw, throwThe, MonadExceptOf.throw] at h
      · simp only [hs, if_false] at h
        obtain ⟨checked, hnew⟩ := ih h
        refine ⟨⟨?_, ?_⟩, ?_⟩
        · intro u hu
          rcases List.mem_cons.1 hu with rfl | hu
          · exact hv
          · exact checked.valid u hu
        · rw [List.map_cons, List.nodup_cons]
          refine ⟨?_, checked.distinct⟩
          intro hmem
          obtain ⟨u, hu, hn⟩ := List.mem_map.1 hmem
          exact hnew u hu (by rw [hn]; exact List.mem_cons_self)
        · intro u hu
          rcases List.mem_cons.1 hu with rfl | hu
          · exact hs
          · intro hmem
            exact hnew u hu (List.mem_cons_of_mem _ hmem)

theorem checked_of_ofDeclaration {d : Declaration} {dir : Path} {m : Manifest}
    (h : ofDeclaration d dir = .ok m) : CheckedTargets m.targets := by
  unfold ofDeclaration at h
  cases hv : d.package.readVersion with
  | error e =>
    rw [hv] at h
    cases h
  | ok v =>
    rw [hv] at h
    cases hc : checkTargets [] d.extensions with
    | error e =>
      cases he : d.extensions.isEmpty with
      | true =>
        rw [he] at h
        cases h
      | false =>
        rw [he, hc] at h
        cases h
    | ok u =>
      cases he : d.extensions.isEmpty with
      | true =>
        rw [he] at h
        cases h
      | false =>
        rw [he, hc] at h
        injection h with h
        subst h
        exact (checkTargets_ok hc).1

/-- A manifest that was parsed has valid targets with distinct names. -/
theorem checked_of_parse {text : String} {dir : Path} {m : Manifest}
    (h : parse text dir = .ok m) : CheckedTargets m.targets := by
  unfold parse at h
  cases hd : Declaration.read text with
  | error e =>
    rw [hd] at h
    cases h
  | ok d =>
    rw [hd] at h
    exact checked_of_ofDeclaration h

theorem parse_of_read {text : String} {d : Declaration} (h : Declaration.read text = .ok d)
    (dir : Path) : parse text dir = ofDeclaration d dir := by
  unfold parse
  rw [h]
  rfl

/-- The profile of a name: the last one declared under it, else a built-in one. -/
theorem get?_profilesOf (os : List (String × ProfileOverride)) (name : String) :
    (profilesOf os).get? name =
      ((os.filter fun o => o.1 == name).getLast?.map fun o => Profile.effective name o.2).or
        (if name = "debug" then some .debugDefault
          else if name = "release" then some .releaseDefault else none) := by
  have hkey (k : String) : (compare name k == .eq) = (k == name) := by
    by_cases hk : k = name
    · rw [hk]
      simp
    · have hne : compare name k ≠ .eq := by
        intro h
        exact hk (Std.LawfulEqOrd.eq_of_compare h).symm
      simp [hk, hne]
  have hfold : profilesOf os =
      (os.map fun o => (o.1, Profile.effective o.1 o.2)).foldl (fun t e => t.insert e.1 e.2)
        (Table.ofList [("debug", .debugDefault), ("release", .releaseDefault)]) := by
    rw [List.foldl_map]
    rfl
  rw [hfold, Table.get?_foldl_insert, Table.get?_ofList]
  simp only [hkey, List.filter_map, Function.comp_def]
  congr 1
  · rw [List.getLast?_map, Option.map_map]
    cases hl : (os.filter fun o => o.1 == name).getLast? with
    | none => rfl
    | some o =>
      have hname : o.1 = name := by
        have := (List.mem_filter.1 (List.mem_of_getLast? hl)).2
        simpa using this
      simp [hname]
  · by_cases hd : name = "debug"
    · rw [hd]; simp
    · by_cases hr : name = "release"
      · rw [hr]; simp
      · have h₁ : ("debug" == name) = false := by simpa using Ne.symm hd
        have h₂ : ("release" == name) = false := by simpa using Ne.symm hr
        simp [hd, hr, h₁, h₂]

/-! ### Selections -/

variable {m : Manifest}

theorem findTarget_ok {name : String} {t : Target} (h : m.findTarget name = .ok t) :
    t ∈ m.targets ∧ t.name = name := by
  unfold findTarget target? at h
  split at h
  · rename_i u hu
    injection h with h
    subst h
    exact ⟨List.mem_of_find?_eq_some hu, by simpa using List.find?_some hu⟩
  · cases h

/-- A name finds its target if no other target has it. -/
theorem findTarget_of_mem (h : CheckedTargets m.targets) {t : Target} (ht : t ∈ m.targets) :
    m.findTarget t.name = .ok t := by
  unfold findTarget target?
  rw [← List.head?_filter, h.filter_name ht]
  rfl

theorem selectFrom_ok {seen names : List String} {ts : List Target}
    (h : m.selectFrom seen names = .ok ts) :
    (ts.map Target.name).Nodup ∧ ∀ t ∈ ts, t ∈ m.targets ∧ t.name ∈ names ∧ t.name ∉ seen := by
  induction names generalizing seen ts with
  | nil =>
    injection h with h
    subst h
    simp
  | cons name names ih =>
    unfold selectFrom at h
    by_cases hs : name ∈ seen
    · rw [if_pos hs] at h
      obtain ⟨hnodup, hts⟩ := ih h
      refine ⟨hnodup, ?_⟩
      intro t ht
      obtain ⟨hm, hn, hnew⟩ := hts t ht
      exact ⟨hm, List.mem_cons_of_mem _ hn, hnew⟩
    · rw [if_neg hs] at h
      cases hf : m.findTarget name with
      | error e =>
        rw [hf] at h
        cases h
      | ok t =>
        cases hr : m.selectFrom (name :: seen) names with
        | error e =>
          rw [hf] at h
          simp only [bind, Except.bind, hr] at h
          cases h
        | ok rest =>
          rw [hf] at h
          simp only [bind, Except.bind, hr] at h
          injection h with h
          subst h
          obtain ⟨hmem, rfl⟩ := findTarget_ok hf
          obtain ⟨hnodup, hrest⟩ := ih hr
          refine ⟨?_, ?_⟩
          · rw [List.map_cons, List.nodup_cons]
            refine ⟨?_, hnodup⟩
            intro hn
            obtain ⟨u, hu, hun⟩ := List.mem_map.1 hn
            exact (hrest u hu).2.2 (by rw [hun]; exact List.mem_cons_self)
          · intro u hu
            rcases List.mem_cons.1 hu with rfl | hu
            · exact ⟨hmem, List.mem_cons_self, hs⟩
            · obtain ⟨hm, hn, hnew⟩ := hrest u hu
              exact ⟨hm, List.mem_cons_of_mem _ hn,
                fun hmem => hnew (List.mem_cons_of_mem _ hmem)⟩

theorem mem_of_select {filter : List String} {ts : List Target} (h : m.select filter = .ok ts)
    {t : Target} (ht : t ∈ ts) : t ∈ m.targets := by
  unfold select at h
  split at h
  · injection h with h
    subst h
    exact ht
  · exact ((selectFrom_ok h).2 t ht).1

/-- A selection has some of the targets, each once. -/
theorem checked_of_select (h : CheckedTargets m.targets) {filter : List String} {ts : List Target}
    (hs : m.select filter = .ok ts) : CheckedTargets ts := by
  refine ⟨fun t ht => h.valid t (mem_of_select hs ht), ?_⟩
  unfold select at hs
  split at hs
  · injection hs with hs
    subst hs
    exact h.distinct
  · exact (selectFrom_ok hs).1

end Manifest

/-! ### The plan of a selection -/

/-- The plan for one target. -/
def BuildContext.planFor (c : BuildContext) (t : Target) : BuildPlan where
  profile := c.profileName
  root := c.root
  compileSteps := c.compileSteps t
  linkSteps := [c.linkStep t]

namespace BuildPlan

/-- The plan for valid targets. -/
theorem ofTargets_eq (c : BuildContext) {ts : List Target} (h : ∀ t ∈ ts, t.validate = .ok ()) :
    ofTargets c ts = .ok
      { profile := c.profileName, root := c.root, compileSteps := ts.flatMap c.compileSteps,
        linkSteps := ts.map c.linkStep } := by
  have hv : ts.forM Target.validate = .ok () := by
    induction ts with
    | nil => rfl
    | cons t ts ih =>
      rw [List.forM_eq_forM, List.forM_cons, h t List.mem_cons_self]
      exact ih fun u hu => h u (List.mem_cons_of_mem t hu)
  unfold ofTargets
  rw [hv]
  rfl

/-- The plan for one target that is valid. -/
theorem ofTargets_singleton (c : BuildContext) {t : Target} (h : t.validate = .ok ()) :
    ofTargets c [t] = .ok (c.planFor t) := by
  rw [ofTargets_eq c fun u hu => List.mem_singleton.1 hu ▸ h, List.flatMap_singleton]
  rfl

/-- In a plan for checked targets each of them has one link step. -/
theorem linkTargets_nodup {c : BuildContext} {ts : List Target} (checked : CheckedTargets ts)
    {plan : BuildPlan} (planned : ofTargets c ts = .ok plan) :
    (plan.linkSteps.map LinkStep.target).Nodup := by
  rw [ofTargets_eq c checked.valid] at planned
  cases planned
  rw [List.map_map]
  exact checked.distinct

end BuildPlan

end GrammarBuild
