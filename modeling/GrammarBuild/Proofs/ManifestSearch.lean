import GrammarBuild.Project.Discovery
import GrammarBuild.Proofs.Actions
import GrammarBuild.Proofs.Parents

/-
  GrammarBuild/Proofs/ManifestSearch.lean
  =======================================
  **The search for the manifest** — it goes from a directory to its parent by the text of
  the path, whatever is on the host, so it makes at most one round more than the path has
  components (`exists_searchEnds`).  It finds the manifest in the longest directory at or
  above the start that has one, and fails exactly if there is none
  (`findManifest_nearest`).

  The rounds of the search are a relation of their own (`SearchEnds`), on which the
  inductions run.
-/

namespace GrammarBuild

namespace Path

variable {p q : Path} {n m : Nat}

/-! ### The directories above a path -/

/-- The directory that is reached from a path by going to the parent so many times. -/
def above? (p : Path) : Nat → Option Path
  | 0 => some p
  | n + 1 => p.parent?.bind fun q => q.above? n

theorem above?_succ (h : p.parent? = some q) (n : Nat) : p.above? (n + 1) = q.above? n := by
  rw [above?, h, Option.bind_some]

theorem above?_top (h : p.parent? = none) (n : Nat) : p.above? (n + 1) = none := by
  rw [above?, h, Option.bind_none]

/-- A parent has one component less. -/
theorem length_components_of_parent? (h : p.parent? = some q) :
    q.components.length + 1 = p.components.length := by
  have hpos := List.length_pos_iff.2 (components_ne_nil_of_parent? h)
  rw [components_parent? h, List.length_dropLast]
  omega

/-- A parent is shorter than the path. -/
theorem length_text_of_parent? (h : p.parent? = some q) : q.text.length < p.text.length := by
  have hprefix := prefix_of_parent? h
  rw [← String.length_toList, ← String.length_toList]
  refine Nat.lt_of_le_of_ne hprefix.length_le fun hlength => ?_
  have hsame : q.components = p.components := by
    rw [components, hprefix.eq_of_length hlength, components]
  have hless := length_components_of_parent? h
  rw [hsame] at hless
  omega

/-- Only the empty path and the root have no parent. -/
theorem parent?_eq_none_iff : p.parent? = none ↔ p.components = [] ∨ p.components = [.root] := by
  constructor
  · intro h
    by_cases hnames : p.names = []
    · have hparts : (List.splitOn '/' p.text.toList).filterMap Component.ofPart? = [] := by
        rw [names, components, componentsOf_eq, List.filterMap_append, filterMap_name?_leadOf,
          List.nil_append, List.filterMap_eq_nil_iff] at hnames
        refine List.eq_nil_iff_forall_not_mem.2 fun c hc => ?_
        obtain ⟨part, -, hpart⟩ := List.mem_filterMap.1 hc
        have hname := isSome_name?_of_ofPart? hpart
        rw [hnames c hc] at hname
        cases hname
      have hlead : p.components = leadOf p.text.toList := by
        rw [components, componentsOf_eq, hparts, List.append_nil]
      rw [hlead]
      unfold leadOf at hlead ⊢
      split
      · exact .inr rfl
      split
      · -- a path of nothing but dots is in the empty path
        exfalso
        rename_i hroot hhere
        rw [if_neg hroot, if_pos hhere] at hlead
        have hempty : componentsOf [] = [] := rfl
        obtain ⟨u, hu⟩ := exists_front? (t := p.text.toList) List.nil_prefix hempty
        rw [parent?, hlead] at h
        simp only [List.getLast?_singleton, List.dropLast_singleton, hu] at h
        cases h
      · exact .inl rfl
    · obtain ⟨q, name, hq, -⟩ := exists_parent? hnames
      rw [h] at hq
      cases hq
  · rintro (h | h)
    · rw [parent?, h]
      rfl
    · rw [parent?, h]
      rfl

theorem length_components_of_above? (h : p.above? n = some q) :
    q.components.length + n = p.components.length := by
  induction n generalizing p with
  | zero =>
    cases h
    rfl
  | succ n ih =>
    obtain ⟨r, hr, hq⟩ := Option.bind_eq_some_iff.1 h
    have hless := length_components_of_parent? hr
    have hrest := ih hq
    omega

theorem length_text_of_above? (h : p.above? n = some q) : q.text.length + n ≤ p.text.length := by
  induction n generalizing p with
  | zero =>
    cases h
    exact Nat.le_refl _
  | succ n ih =>
    obtain ⟨r, hr, hq⟩ := Option.bind_eq_some_iff.1 h
    have hless := length_text_of_parent? hr
    have hrest := ih hq
    omega

theorem above?_add (p : Path) (n m : Nat) : p.above? (n + m) = (p.above? n).bind fun q => q.above? m := by
  induction n generalizing p with
  | zero => rw [Nat.zero_add, above?, Option.bind_some]
  | succ n ih =>
    rw [Nat.add_right_comm]
    cases hq : p.parent? with
    | none => rw [above?_top hq, above?_top hq, Option.bind_none]
    | some q => rw [above?_succ hq, above?_succ hq, ih]

/-- The directories above a path are told apart by their lengths. -/
theorem eq_of_above? {d e : Path} (hd : p.above? n = some d) (he : p.above? m = some e)
    (hlength : d.text.length = e.text.length) : d = e := by
  have hlater {n m : Nat} {d e : Path} (hd : p.above? n = some d) (he : p.above? m = some e)
      (hlength : d.text.length = e.text.length) (hle : n ≤ m) : d = e := by
    obtain ⟨k, rfl⟩ := Nat.exists_eq_add_of_le hle
    rw [above?_add, hd, Option.bind_some] at he
    have hshort := length_text_of_above? he
    obtain rfl : k = 0 := by omega
    exact Option.some.inj he
  rcases Nat.le_total n m with hle | hle
  · exact hlater hd he hlength hle
  · exact (hlater he hd hlength.symm hle).symm

end Path

/-! ### The rounds of the search -/

section

variable {t : FileTree} {l : Location} {dir d d' p : Path} {n : Nat} {r : Option Path}

/-- The search from a directory ends after so many rounds, with this manifest or none. -/
inductive SearchEnds (t : FileTree) (l : Location) : (dir : Path) → Nat → Option Path → Prop where
  | here {dir : Path} (there : t.isFile l (dir.child Manifest.fileName) = true) :
    SearchEnds t l dir 1 (some (dir.child Manifest.fileName))
  | top {dir : Path} (missing : t.isFile l (dir.child Manifest.fileName) = false)
    (top : dir.parent? = none) : SearchEnds t l dir 1 none
  | up {dir parent : Path} {n : Nat} {r : Option Path}
    (missing : t.isFile l (dir.child Manifest.fileName) = false) (up : dir.parent? = some parent)
    (rest : SearchEnds t l parent n r) : SearchEnds t l dir (n + 1) r

/-- **The search ends**, at the latest when the path has no component left. -/
theorem exists_searchEnds (t : FileTree) (l : Location) (dir : Path) :
    ∃ n r, SearchEnds t l dir n r ∧ n ≤ dir.components.length + 1 := by
  induction hn : dir.components.length generalizing dir with
  | zero =>
    have htop : dir.parent? = none :=
      Path.parent?_eq_none_iff.2 (.inl (List.length_eq_zero_iff.1 hn))
    cases hfile : t.isFile l (dir.child Manifest.fileName) with
    | true => exact ⟨1, _, .here hfile, Nat.le_refl 1⟩
    | false => exact ⟨1, _, .top hfile htop, Nat.le_refl 1⟩
  | succ k ih =>
    cases hfile : t.isFile l (dir.child Manifest.fileName) with
    | true => exact ⟨1, _, .here hfile, by omega⟩
    | false =>
      cases hup : dir.parent? with
      | none => exact ⟨1, _, .top hfile hup, by omega⟩
      | some parent =>
        have hless := Path.length_components_of_parent? hup
        obtain ⟨n, r, hrest, hle⟩ := ih parent (by omega)
        exact ⟨n + 1, r, .up hfile hup hrest, by omega⟩

/-- One round of the search. -/
theorem runOn_nearestManifest? (dir : Path) (env : Environment) (h : Host) :
    (nearestManifest? dir).runOn env h =
      if h.files.isFile env.cwd (dir.child Manifest.fileName) then
        (.ok (some (dir.child Manifest.fileName)), h)
      else
        match dir.parent? with
        | some parent => (nearestManifest? parent).runOn env h
        | none => (.ok none, h) := by
  rw [nearestManifest?]
  simp only [manifestIn?, Action.runOn_bind, Action.isFile, Action.runOn_look, Action.runOn_pure]
  cases h.files.isFile env.cwd (dir.child Manifest.fileName) with
  | true => rfl
  | false =>
    simp only [Bool.false_eq_true, if_false]
    split
    · rename_i parent hup
      rw [hup]
    · rename_i htop
      rw [htop]
      rfl

/-- The search that is carried out. -/
theorem SearchEnds.runOn {env : Environment} {h : Host} (ends : SearchEnds h.files env.cwd dir n r) :
    (nearestManifest? dir).runOn env h = (.ok r, h) := by
  induction ends with
  | here there => rw [runOn_nearestManifest?, if_pos there]
  | top missing top => rw [runOn_nearestManifest?, missing, if_neg Bool.false_ne_true, top]
  | up missing up _ ih =>
    rw [runOn_nearestManifest?, missing, if_neg Bool.false_ne_true, up]
    exact ih

/-! ### The nearest manifest -/

/-- Of a directory and those above it, `d` is the longest with a manifest. -/
structure LongestWithManifest (t : FileTree) (l : Location) (dir d : Path) : Prop where
  above : ∃ n, dir.above? n = some d
  there : t.isFile l (d.child Manifest.fileName) = true
  longest : ∀ n e, dir.above? n = some e → t.isFile l (e.child Manifest.fileName) = true →
    e.text.length ≤ d.text.length

/-- There is no manifest in a directory and those above it. -/
def NoManifest (t : FileTree) (l : Location) (dir : Path) : Prop :=
  ∀ n d, dir.above? n = some d → t.isFile l (d.child Manifest.fileName) = false

theorem LongestWithManifest.unique (h : LongestWithManifest t l dir d)
    (h' : LongestWithManifest t l dir d') : d = d' := by
  obtain ⟨n, hn⟩ := h.above
  obtain ⟨m, hm⟩ := h'.above
  exact Path.eq_of_above? hn hm
    (Nat.le_antisymm (h'.longest n d hn h.there) (h.longest m d' hm h'.there))

theorem LongestWithManifest.not_noManifest (h : LongestWithManifest t l dir d) :
    ¬ NoManifest t l dir := by
  intro hno
  obtain ⟨n, hn⟩ := h.above
  have hmissing := hno n d hn
  rw [h.there] at hmissing
  cases hmissing

/-- A search that finds a manifest finds that of the longest directory. -/
theorem SearchEnds.longest (ends : SearchEnds t l dir n (some p)) :
    ∃ d, LongestWithManifest t l dir d ∧ p = d.child Manifest.fileName := by
  generalize hr : some p = r at ends
  induction ends with
  | @here dir there =>
    cases hr
    refine ⟨dir, ⟨⟨0, rfl⟩, there, fun n e he _ => ?_⟩, rfl⟩
    have hshort := Path.length_text_of_above? he
    omega
  | top => cases hr
  | @up dir parent _ _ missing up _ ih =>
    obtain ⟨d, ⟨⟨n, hn⟩, hthere, hlongest⟩, hp⟩ := ih hr
    refine ⟨d, ⟨⟨n + 1, (Path.above?_succ up n).trans hn⟩, hthere, fun m e he hfile => ?_⟩, hp⟩
    cases m with
    | zero =>
      cases he
      rw [missing] at hfile
      cases hfile
    | succ m => exact hlongest m e ((Path.above?_succ up m).symm.trans he) hfile

/-- A search that finds nothing has looked everywhere. -/
theorem SearchEnds.noManifest (ends : SearchEnds t l dir n none) : NoManifest t l dir := by
  generalize hr : (none : Option Path) = r at ends
  induction ends with
  | here => cases hr
  | @top dir missing top =>
    intro m d hd
    cases m with
    | zero =>
      cases hd
      exact missing
    | succ m =>
      rw [Path.above?_top top] at hd
      cases hd
  | @up dir parent _ _ missing up _ ih =>
    intro m d hd
    cases m with
    | zero =>
      cases hd
      exact missing
    | succ m => exact ih hr m d ((Path.above?_succ up m).symm.trans hd)

end

theorem runOn_findManifest (c : Caller) {env : Environment} {h : Host} {n : Nat} {r : Option Path}
    (ends : SearchEnds h.files env.cwd c.cwd n r) :
    c.findManifest.runOn env h =
      ((match r with
        | some p => .ok p
        | none => .error (.of (.noManifest c.cwd))), h) := by
  unfold Caller.findManifest
  rw [Action.runOn_bind, ends.runOn]
  cases r with
  | some p => rfl
  | none => rfl

/-- **The nearest manifest is found.**  The search ends after at most one round more than the
    working directory has components, going up to the root or the empty path at most.  It
    gives the manifest of the longest directory at or above the working directory that has
    one, and fails, naming the working directory, exactly if there is none.  The host stays as
    it is. -/
theorem findManifest_nearest (c : Caller) (env : Environment) (h : Host) :
    (∃ rounds r, SearchEnds h.files env.cwd c.cwd rounds r ∧ rounds ≤ c.cwd.components.length + 1 ∧
      (nearestManifest? c.cwd).runOn env h = (.ok r, h)) ∧
    (∀ n d, c.cwd.above? n = some d → d.components.length + n = c.cwd.components.length ∧
      (d.parent? = none ↔ d.components = [] ∨ d.components = [.root])) ∧
    (∀ p h', c.findManifest.runOn env h = (.ok p, h') ↔ h' = h ∧
      ∃ d, LongestWithManifest h.files env.cwd c.cwd d ∧ p = d.child Manifest.fileName) ∧
    (∀ e h', c.findManifest.runOn env h = (.error e, h') ↔ h' = h ∧
      NoManifest h.files env.cwd c.cwd ∧ e = .of (.noManifest c.cwd)) := by
  obtain ⟨n, r, ends, hle⟩ := exists_searchEnds h.files env.cwd c.cwd
  refine ⟨⟨n, r, ends, hle, ends.runOn⟩,
    fun _ _ hd => ⟨Path.length_components_of_above? hd, Path.parent?_eq_none_iff⟩, ?_, ?_⟩
  · intro p h'
    rw [runOn_findManifest c ends]
    constructor
    · intro hrun
      cases r with
      | none => cases hrun
      | some q =>
        cases hrun
        exact ⟨rfl, ends.longest⟩
    · rintro ⟨rfl, d, hd, rfl⟩
      cases r with
      | none => exact absurd ends.noManifest hd.not_noManifest
      | some q =>
        obtain ⟨d', hd', rfl⟩ := ends.longest
        rw [hd.unique hd']
  · intro e h'
    rw [runOn_findManifest c ends]
    constructor
    · intro hrun
      cases r with
      | none =>
        cases hrun
        exact ⟨rfl, ends.noManifest, rfl⟩
      | some q => cases hrun
    · rintro ⟨rfl, hno, rfl⟩
      cases r with
      | none => rfl
      | some q =>
        obtain ⟨d, hd, -⟩ := ends.longest
        exact absurd hno hd.not_noManifest

end GrammarBuild
