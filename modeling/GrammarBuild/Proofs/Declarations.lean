import GrammarBuild.Proofs.Outputs
import GrammarBuild.Proofs.Versions

/-
  GrammarBuild/Proofs/Declarations.lean
  =====================================
  **Which declarations are manifests** — those with a semantic version and with targets
  that are valid and have distinct names (`WellDeclared`); any other is refused for the
  first thing that is wrong with it (`Misdeclared`).  A manifest has the declared targets in
  their order, and a name leads to the one target that has it (`Manifest.parse_accepts`).

  The check of the targets is one loop over a growing list of names.  What one turn of it
  does is `checkTargets_accepted` and `checkTargets_rejected`; `checkTargets_append` is any
  number of good turns.
-/

namespace GrammarBuild

/-- A declaration with nothing wrong. -/
structure WellDeclared (d : Declaration) : Prop where
  version : ∃ v : Version, v.Spells d.package.version.toList
  declared : d.extensions ≠ []
  targets : CheckedTargets d.extensions

/-- What is wrong with a target when targets of some names stand before it.  That it is
    invalid counts more than that its name is taken. -/
inductive Rejected (before : List String) (t : Target) : TargetError → Prop where
  | invalid {e : TargetError} (h : t.validate = .error e) : Rejected before t e
  | repeated (valid : t.validate = .ok ()) (taken : t.name ∈ before) :
    Rejected before t (.duplicate t.name)

/-- What is wrong with the first target with which something is wrong. -/
inductive FirstRejected (ts : List Target) (e : TargetError) : Prop where
  | intro {before after : List Target} {t : Target} (split : ts = before ++ t :: after)
    (accepted : CheckedTargets before) (rejected : Rejected (before.map Target.name) t e)

/-- What is wrong with a declaration: its version, else that it has no targets, else one of
    them. -/
inductive Misdeclared (d : Declaration) : Failure → Prop where
  | version {fault : VersionFault} (h : Version.read d.package.version = .error fault) :
    Misdeclared d ((Failure.of (.version fault)).inside (.readingVersion d.package.version))
  | noTargets (version : ∃ v : Version, v.Spells d.package.version.toList)
    (h : d.extensions = []) : Misdeclared d (.of .noTargets)
  | target {e : TargetError} (version : ∃ v : Version, v.Spells d.package.version.toList)
    (h : FirstRejected d.extensions e) : Misdeclared d (.of (.target e))

/-! ### One target after the other -/

theorem CheckedTargets.cons_iff {t : Target} {ts : List Target} :
    CheckedTargets (t :: ts) ↔ t.validate = .ok () ∧ t.name ∉ ts.map Target.name ∧ CheckedTargets ts := by
  constructor
  · rintro ⟨valid, distinct⟩
    obtain ⟨ht, hts⟩ := List.forall_mem_cons.1 valid
    rw [List.map_cons, List.nodup_cons] at distinct
    exact ⟨ht, distinct.1, hts, distinct.2⟩
  · rintro ⟨ht, hnew, valid, distinct⟩
    refine ⟨List.forall_mem_cons.2 ⟨ht, valid⟩, ?_⟩
    rw [List.map_cons, List.nodup_cons]
    exact ⟨hnew, distinct⟩

namespace Manifest

variable {seen : List String} {t : Target} {ts : List Target} {e : TargetError}

theorem checkTargets_accepted (valid : t.validate = .ok ()) (fresh : t.name ∉ seen)
    (ts : List Target) : checkTargets seen (t :: ts) = checkTargets (t.name :: seen) ts := by
  rw [checkTargets, valid]
  simp only [fresh, if_false]
  rfl

theorem checkTargets_rejected (h : Rejected seen t e) (ts : List Target) :
    checkTargets seen (t :: ts) = .error e := by
  rw [checkTargets]
  cases h with
  | invalid h =>
    rw [h]
    rfl
  | repeated valid taken =>
    rw [valid]
    simp only [taken, if_true]
    rfl

/-- A target passes the check or is rejected for some reason. -/
theorem accepted_or_rejected (seen : List String) (t : Target) :
    (t.validate = .ok () ∧ t.name ∉ seen) ∨ ∃ e, Rejected seen t e := by
  cases hv : t.validate with
  | error e => exact .inr ⟨e, .invalid hv⟩
  | ok u =>
    by_cases taken : t.name ∈ seen
    · exact .inr ⟨_, .repeated hv taken⟩
    · exact .inl ⟨rfl, taken⟩

/-- After good targets their names are seen. -/
theorem checkTargets_append {before : List Target} (checked : CheckedTargets before)
    (fresh : ∀ t ∈ before, t.name ∉ seen) (rest : List Target) :
    checkTargets seen (before ++ rest) =
      checkTargets ((before.map Target.name).reverse ++ seen) rest := by
  induction before generalizing seen with
  | nil => rfl
  | cons t before ih =>
    obtain ⟨valid, hnew, checked⟩ := CheckedTargets.cons_iff.1 checked
    obtain ⟨ht, hbefore⟩ := List.forall_mem_cons.1 fresh
    have hfresh : ∀ u ∈ before, u.name ∉ t.name :: seen := by
      intro u hu hmem
      rcases List.mem_cons.1 hmem with hn | hmem
      · exact hnew (List.mem_map.2 ⟨u, hu, hn⟩)
      · exact hbefore u hu hmem
    rw [List.cons_append, checkTargets_accepted valid ht, ih checked hfresh, List.map_cons,
      List.reverse_cons, List.append_assoc, List.singleton_append]

theorem checkTargets_eq_ok_iff (ts : List Target) : checkTargets [] ts = .ok () ↔ CheckedTargets ts := by
  constructor
  · intro h
    exact (checkTargets_ok h).1
  · intro checked
    have hfresh : ∀ t ∈ ts, t.name ∉ ([] : List String) := fun _ _ => List.not_mem_nil
    have happend := checkTargets_append checked hfresh []
    rw [List.append_nil] at happend
    rw [happend]
    rfl

/-- Where the check stops, the targets before are good. -/
theorem exists_rejected (h : checkTargets seen ts = .error e) :
    ∃ before t after, ts = before ++ t :: after ∧ CheckedTargets before ∧
      (∀ u ∈ before, u.name ∉ seen) ∧ Rejected (before.map Target.name ++ seen) t e := by
  induction ts generalizing seen with
  | nil => cases h
  | cons t ts ih =>
    rcases accepted_or_rejected seen t with ⟨valid, fresh⟩ | ⟨e', rejected⟩
    · rw [checkTargets_accepted valid fresh] at h
      obtain ⟨before, u, after, rfl, checked, hfresh, rejected⟩ := ih h
      have hnew : t.name ∉ before.map Target.name := by
        intro hmem
        obtain ⟨w, hw, hn⟩ := List.mem_map.1 hmem
        exact hfresh w hw (hn ▸ List.mem_cons_self)
      refine ⟨t :: before, u, after, rfl, CheckedTargets.cons_iff.2 ⟨valid, hnew, checked⟩, ?_, ?_⟩
      · exact List.forall_mem_cons.2
          ⟨fresh, fun w hw hmem => hfresh w hw (List.mem_cons_of_mem _ hmem)⟩
      · cases rejected with
        | invalid h => exact .invalid h
        | repeated valid taken =>
          refine .repeated valid ?_
          rw [List.map_cons, List.cons_append, List.mem_cons, List.mem_append]
          rcases List.mem_append.1 taken with hmem | hmem
          · exact .inr (.inl hmem)
          · exact (List.mem_cons.1 hmem).imp_right .inr
    · rw [checkTargets_rejected rejected] at h
      cases h
      exact ⟨[], t, ts, rfl, ⟨fun _ hu => (List.not_mem_nil hu).elim, List.nodup_nil⟩,
        fun _ hu => (List.not_mem_nil hu).elim, rejected⟩

theorem checkTargets_eq_error_iff (ts : List Target) (e : TargetError) :
    checkTargets [] ts = .error e ↔ FirstRejected ts e := by
  constructor
  · intro h
    obtain ⟨before, t, after, rfl, checked, -, rejected⟩ := exists_rejected h
    rw [List.append_nil] at rejected
    exact ⟨rfl, checked, rejected⟩
  · rintro ⟨rfl, checked, rejected⟩
    rw [checkTargets_append checked (fun _ _ => List.not_mem_nil), List.append_nil]
    apply checkTargets_rejected
    cases rejected with
    | invalid h => exact .invalid h
    | repeated valid taken => exact .repeated valid (List.mem_reverse.2 taken)

/-! ### The checks in their order -/

variable {d : Declaration}

theorem readVersion_error {p : Package} {fault : VersionFault}
    (h : Version.read p.version = .error fault) :
    p.readVersion = .error ((Failure.of (.version fault)).inside (.readingVersion p.version)) := by
  rw [Package.readVersion, h]
  rfl

theorem readVersion_ok {p : Package} {v : Version} (h : v.Spells p.version.toList) :
    p.readVersion = .ok v := by
  rw [Package.readVersion, (Version.read_eq_ok_iff ..).2 h]
  rfl

/-- After a good version, and with targets, it is their check that decides. -/
theorem ofDeclaration_of_version (version : ∃ v : Version, v.Spells d.package.version.toList)
    (declared : d.extensions ≠ []) (dir : Path) :
    ofDeclaration d dir =
      (Failure.lift .target (checkTargets [] d.extensions)).map fun _ =>
        { package := d.package, targets := d.extensions, profiles := profilesOf d.profiles, dir } := by
  obtain ⟨v, hv⟩ := version
  have hsome : d.extensions.isEmpty = false := List.isEmpty_eq_false_iff.2 declared
  rw [ofDeclaration, readVersion_ok hv, hsome]
  cases checkTargets [] d.extensions with
  | error e => rfl
  | ok u => rfl

/-- A declaration is a manifest, or something is wrong with it. -/
theorem ofDeclaration_cases (d : Declaration) (dir : Path) :
    (WellDeclared d ∧ ofDeclaration d dir = .ok
      { package := d.package, targets := d.extensions, profiles := profilesOf d.profiles, dir }) ∨
    ∃ e, Misdeclared d e ∧ ofDeclaration d dir = .error e := by
  cases hv : Version.read d.package.version with
  | error fault =>
    refine .inr ⟨_, .version hv, ?_⟩
    rw [ofDeclaration, readVersion_error hv]
    rfl
  | ok v =>
    have version : ∃ v : Version, v.Spells d.package.version.toList :=
      ⟨v, (Version.read_eq_ok_iff ..).1 hv⟩
    by_cases declared : d.extensions = []
    · refine .inr ⟨_, .noTargets version declared, ?_⟩
      rw [ofDeclaration, readVersion_ok ((Version.read_eq_ok_iff ..).1 hv), declared]
      rfl
    · have decides := ofDeclaration_of_version version declared dir
      cases hc : checkTargets [] d.extensions with
      | error e =>
        rw [hc] at decides
        exact .inr ⟨_, .target version ((checkTargets_eq_error_iff ..).1 hc), decides⟩
      | ok u =>
        rw [hc] at decides
        exact .inl ⟨⟨version, declared, (checkTargets_eq_ok_iff _).1 hc⟩, decides⟩

/-- Nothing is wrong with a declaration in two ways. -/
theorem ofDeclaration_of_misdeclared {f : Failure} (h : Misdeclared d f) (dir : Path) :
    ofDeclaration d dir = .error f := by
  cases h with
  | version h =>
    rw [ofDeclaration, readVersion_error h]
    rfl
  | noTargets version h =>
    obtain ⟨v, hv⟩ := version
    rw [ofDeclaration, readVersion_ok hv, h]
    rfl
  | target version h =>
    have declared : d.extensions ≠ [] := by
      obtain ⟨split, -, -⟩ := h
      rw [split]
      exact List.append_ne_nil_of_right_ne_nil _ (List.cons_ne_nil _ _)
    rw [ofDeclaration_of_version version declared, (checkTargets_eq_error_iff ..).2 h]
    rfl

/-- A name leads to the one target that has it. -/
theorem target?_eq_some_iff {m : Manifest} (checked : CheckedTargets m.targets) (name : String)
    (t : Target) : m.target? name = some t ↔ t ∈ m.targets ∧ t.name = name := by
  unfold target?
  constructor
  · intro h
    have hname := List.find?_some h
    exact ⟨List.mem_of_find?_eq_some h, beq_iff_eq.1 hname⟩
  · rintro ⟨ht, rfl⟩
    rw [← List.head?_filter, checked.filter_name ht, List.head?_singleton]

/-- **Exactly the well-formed declarations are manifests.**  A manifest has the declared
    targets in their order, and its look-up finds for a name the one target that has it; a
    declaration that is no manifest is refused for the first thing that is wrong with it. -/
theorem parse_accepts {text : String} (h : Declaration.read text = .ok d) (dir : Path) :
    ((∃ m, parse text dir = .ok m) ↔ WellDeclared d) ∧
    (∀ m, parse text dir = .ok m → m.targets = d.extensions ∧
      ∀ name t, m.target? name = some t ↔ t ∈ m.targets ∧ t.name = name) ∧
    ∀ e, parse text dir = .error e ↔ Misdeclared d e := by
  rw [parse_of_read h]
  rcases ofDeclaration_cases d dir with ⟨well, accepts⟩ | ⟨f, misdeclared, refuses⟩
  · rw [accepts]
    refine ⟨iff_of_true ⟨_, rfl⟩ well, ?_, fun e => ⟨?_, fun hm => ?_⟩⟩
    · rintro m ⟨⟩
      exact ⟨rfl, target?_eq_some_iff well.targets⟩
    · rintro ⟨⟩
    · rw [← accepts, ofDeclaration_of_misdeclared hm]
  · rw [refuses]
    refine ⟨⟨?_, fun well => ?_⟩, ?_, fun e => ⟨?_, fun hm => ?_⟩⟩
    · rintro ⟨m, ⟨⟩⟩
    · rw [ofDeclaration_of_version well.version well.declared,
        (checkTargets_eq_ok_iff _).2 well.targets] at refuses
      cases refuses
    · rintro m ⟨⟩
    · rintro ⟨⟩
      exact misdeclared
    · rw [← refuses, ofDeclaration_of_misdeclared hm]

end Manifest

namespace Sample

/-- The second target repeats a name, the third has no name at all. -/
def repeatedDeclaration : Declaration where
  package := { name := "x", version := "0.1.0" }
  extensions := [targetA, { name := "a", sources := [⟨"b.c"⟩] }, { name := "", sources := [] }]
  profiles := []

def repeatedText : String :=
  Toml.PlainLine.text
    (repeatedDeclaration.package.lines ++ repeatedDeclaration.extensions.flatMap Target.lines)

theorem read_repeatedText : Declaration.read repeatedText = .ok repeatedDeclaration :=
  Declaration.read_text (by decide) rfl rfl

end Sample

/-- The name that is repeated is told, not that a name is missing. -/
theorem Manifest.parse_accepts_repeated :
    Declaration.read Sample.repeatedText = .ok Sample.repeatedDeclaration ∧
      Manifest.parse Sample.repeatedText ⟨"/p"⟩ = .error (.of (.target (.duplicate "a"))) := by
  have version : ∃ v : Version, v.Spells "0.1.0".toList :=
    ⟨_, (Version.read_eq_ok_iff "0.1.0" ⟨0, 1, 0, "", ""⟩).1 (by decide)⟩
  have first : CheckedTargets [Sample.targetA] := ⟨by decide, by decide⟩
  obtain ⟨-, -, refused⟩ := Manifest.parse_accepts Sample.read_repeatedText ⟨"/p"⟩
  refine ⟨Sample.read_repeatedText, (refused _).2 (.target version ⟨rfl, first, ?_⟩)⟩
  exact .repeated (by decide) (by decide)

end GrammarBuild
