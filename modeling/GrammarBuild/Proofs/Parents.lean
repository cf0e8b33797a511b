import GrammarBuild.Proofs.Locations

/-
  GrammarBuild/Proofs/Parents.lean
  ================================
  **The parent of a path** — every path that names anything has one (`exists_parent?`),
  its names are the path's own without the last (`names_of_parent?`), it is part of the
  path's text (`prefix_of_parent?`), and it does not end in a `.` after a slash
  (`tight_of_parent?`).

  `parent?` is given by what it must be and searched for from the end of the text.  That
  the search finds something is by the way a text grows: what comes after its last slash
  is one component more or none (`componentsOf_append_cons`).
-/

namespace GrammarBuild

/-- What a component is called between slashes, if it takes a step at all. -/
def Component.name? : Component → Option String
  | root => none
  | here => none
  | up => some ".."
  | normal name => some name

namespace Path

/-- The steps that a path takes. -/
def names (p : Path) : List String := p.components.filterMap Component.name?

/-! ### Components and text -/

/-- What the beginning of a text stands for before any step is taken. -/
def leadOf (t : List Char) : List Component :=
  if t.head? = some '/' then [.root]
  else if (List.splitOn '/' t).head? = some ['.'] then [.here] else []

theorem componentsOf_eq (t : List Char) :
    componentsOf t = leadOf t ++ (List.splitOn '/' t).filterMap Component.ofPart? := by
  unfold componentsOf leadOf
  split
  · simp [List.splitOn_cons_eq_if_modifyHead, Component.ofPart?]
  · rename_i hslash
    have hhead : t.head? ≠ some '/' := by
      intro h
      cases t with
      | nil => cases h
      | cons c r => exact hslash r (by rw [Option.some.inj h])
    rw [if_neg hhead]
    split
    · rename_i parts hparts
      simp [hparts, Component.ofPart?]
    · rename_i hparts
      have hfirst : (List.splitOn '/' t).head? ≠ some ['.'] := by
        intro h
        cases hs : List.splitOn '/' t with
        | nil => exact absurd hs (List.splitOn_ne_nil '/' t)
        | cons part parts =>
          rw [hs] at h
          exact hparts parts (by rw [hs, Option.some.inj h])
      rw [if_neg hfirst]
      rfl

/-- What comes after a slash does not change how a text begins. -/
theorem leadOf_append_cons (v w : List Char) : leadOf (v ++ '/' :: w) = leadOf (v ++ ['/']) := by
  have hsplit : (List.splitOn '/' (v ++ '/' :: w)).head? = (List.splitOn '/' (v ++ ['/'])).head? := by
    rw [List.splitOn_append_cons_self, List.splitOn_append_cons_self]
    cases hs : List.splitOn '/' v with
    | nil => exact absurd hs (List.splitOn_ne_nil '/' v)
    | cons part parts => rfl
  have hhead : (v ++ '/' :: w).head? = (v ++ ['/']).head? := by
    cases v with
    | nil => rfl
    | cons c v => rfl
  rw [leadOf, hsplit, hhead, leadOf]

/-- After the last slash there is at most one more component. -/
theorem componentsOf_append_cons (v : List Char) {w : List Char} (hw : '/' ∉ w) :
    componentsOf (v ++ '/' :: w) = componentsOf (v ++ ['/']) ++ (Component.ofPart? w).toList := by
  have hnil : Component.ofPart? [] = none := rfl
  rw [componentsOf_eq, componentsOf_eq, leadOf_append_cons v w, List.splitOn_append_cons_self,
    List.splitOn_append_cons_self, List.splitOn_eq_singleton hw, List.filterMap_append,
    List.filterMap_append]
  cases h : Component.ofPart? w with
  | none => simp [h, hnil]
  | some c => simp [h, hnil]

theorem componentsOf_slash {v : List Char} (hv : v ≠ []) :
    componentsOf (v ++ ['/']) = componentsOf v := by
  have hnil : Component.ofPart? [] = none := rfl
  have hlead : leadOf (v ++ ['/']) = leadOf v := by
    have hsplit : (List.splitOn '/' (v ++ ['/'])).head? = (List.splitOn '/' v).head? := by
      rw [List.splitOn_append_cons_self]
      cases hs : List.splitOn '/' v with
      | nil => exact absurd hs (List.splitOn_ne_nil '/' v)
      | cons part parts => rfl
    have hhead : (v ++ ['/']).head? = v.head? := by
      cases v with
      | nil => exact absurd rfl hv
      | cons c v => rfl
    rw [leadOf, hsplit, hhead, leadOf]
  rw [componentsOf_eq, componentsOf_eq, hlead, List.splitOn_append_cons_self, List.filterMap_append]
  simp [hnil]

/-- A text is either without slashes or has a last one. -/
theorem notMem_or_last_slash (t : List Char) : '/' ∉ t ∨ ∃ v w, t = v ++ '/' :: w ∧ '/' ∉ w := by
  by_cases h : '/' ∈ t
  · right
    obtain ⟨w, v, hwv, hw⟩ := List.eq_append_cons_of_mem (List.mem_reverse.2 h)
    refine ⟨v.reverse, w.reverse, ?_, fun hm => hw (List.mem_reverse.1 hm)⟩
    rw [← List.reverse_reverse t, hwv]
    simp
  · exact .inl h

/-! ### Names -/

theorem isSome_name?_of_ofPart? {part : List Char} {c : Component}
    (h : Component.ofPart? part = some c) : c.name?.isSome = true := by
  unfold Component.ofPart? at h
  split at h
  · cases h
  split at h
  · rw [← Option.some.inj h]
    rfl
  · rw [← Option.some.inj h]
    rfl

theorem filterMap_name?_leadOf (t : List Char) : (leadOf t).filterMap Component.name? = [] := by
  unfold leadOf
  split
  · rfl
  split
  · rfl
  · rfl

/-- A path that takes a step ends in one. -/
theorem getLast?_components {p : Path} (h : p.names ≠ []) :
    ∃ c, p.components.getLast? = some c ∧ c.name?.isSome = true := by
  have hparts : (List.splitOn '/' p.text.toList).filterMap Component.ofPart? ≠ [] := by
    intro hnil
    apply h
    rw [names, components, componentsOf_eq, List.filterMap_append, filterMap_name?_leadOf, hnil]
    rfl
  obtain ⟨front, c, hfront⟩ := (List.eq_nil_or_concat _).resolve_left hparts
  refine ⟨c, ?_, ?_⟩
  · rw [components, componentsOf_eq, hfront, List.concat_eq_append, ← List.append_assoc]
    simp
  · have hc : c ∈ (List.splitOn '/' p.text.toList).filterMap Component.ofPart? := by
      rw [hfront]
      simp
    obtain ⟨part, -, hpart⟩ := List.mem_filterMap.1 hc
    exact isSome_name?_of_ofPart? hpart

/-- The names between the slashes of a path, the single dots left out. -/
theorem filter_stepsOf (p : Path) : (FileTree.stepsOf p).filter (· ≠ ".") = p.names := by
  have hparts (parts : List (List Char)) :
      ((parts.filter (· ≠ [])).map String.ofList).filter (· ≠ ".") =
        (parts.filterMap Component.ofPart?).filterMap Component.name? := by
    induction parts with
    | nil => rfl
    | cons part parts ih =>
      have hdot : String.ofList ['.'] = "." := rfl
      have hup : String.ofList ['.', '.'] = ".." := rfl
      by_cases h0 : part = []
      · subst h0
        simpa [Component.ofPart?] using ih
      by_cases h1 : part = ['.']
      · subst h1
        simpa [Component.ofPart?] using ih
      by_cases h2 : part = ['.', '.']
      · subst h2
        simpa [Component.ofPart?, Component.name?] using ih
      have hn1 : String.ofList part ≠ "." := fun h => h1 (by simpa using congrArg String.toList h)
      simpa [Component.ofPart?, Component.name?, h0, h1, h2, hn1] using ih
  rw [names, components, componentsOf_eq, List.filterMap_append, filterMap_name?_leadOf,
    List.nil_append]
  exact hparts _

theorem names_join {p q : Path} (hq : q.isAbsolute = false) : (p.join q).names = p.names ++ q.names := by
  rw [← filter_stepsOf, FileTree.stepsOf_join hq, List.filter_append, filter_stepsOf, filter_stepsOf]

/-! ### What the search for a parent finds -/

theorem suffix_of_mem_tails {r t : List Char} (h : r ∈ tails t) : r <:+ t := by
  induction t with
  | nil =>
    obtain rfl := List.mem_singleton.1 h
    exact List.suffix_refl []
  | cons c t ih =>
    rcases List.mem_cons.1 h with rfl | h
    · exact List.suffix_refl _
    · exact (ih h).trans (List.suffix_cons c t)

theorem mem_tails {r t : List Char} (h : r <:+ t) : r ∈ tails t := by
  induction t with
  | nil =>
    rw [List.suffix_nil.1 h]
    exact List.mem_singleton.2 rfl
  | cons c t ih =>
    rcases List.suffix_cons_iff.1 h with rfl | h
    · exact List.mem_cons_self
    · exact List.mem_cons_of_mem _ (ih h)

/-- A part of the text in front with the right components is enough for the search. -/
theorem exists_front? {cs : List Component} {t u : List Char} (hu : u <+: t)
    (hcs : componentsOf u = cs) : ∃ r, front? cs t = some r := by
  have hmem : u.reverse ∈ tails t.reverse := mem_tails (List.reverse_suffix.2 hu)
  have hfits : decide (componentsOf u.reverse.reverse = cs) = true := by
    simpa using hcs
  unfold front?
  generalize tails t.reverse = l at hmem
  have hne : ((l.dropWhile fun r => !decide (componentsOf r.reverse = cs)).takeWhile
      fun r => decide (componentsOf r.reverse = cs)) ≠ [] := by
    induction l with
    | nil => cases hmem
    | cons r l ih =>
      by_cases hr : componentsOf r.reverse = cs
      · simp [hr]
      · rcases List.mem_cons.1 hmem with rfl | hmem
        · exact absurd (by simpa using hfits) hr
        · simpa [hr] using ih hmem
  obtain ⟨r, hr⟩ := Option.isSome_iff_exists.1 (List.getLast?_isSome.2 hne)
  exact ⟨r.reverse, by simp only [hr, Option.map_some]⟩

theorem prefix_of_front? {cs : List Component} {t u : List Char} (h : front? cs t = some u) :
    u <+: t := by
  obtain ⟨r, hr, rfl⟩ := Option.map_eq_some_iff.1 h
  have hmem : r ∈ tails t.reverse :=
    (List.dropWhile_sublist _).subset ((List.takeWhile_sublist _).subset (List.mem_of_getLast? hr))
  have hsuffix := List.reverse_prefix.2 (suffix_of_mem_tails hmem)
  rwa [List.reverse_reverse] at hsuffix

theorem getLast?_takeWhile_tails {fits : List Char → Bool} {t r : List Char}
    (h : ((tails t).takeWhile fits).getLast? = some r) : r = [] ∨ fits r.tail = false := by
  induction t with
  | nil =>
    have hr : r ∈ tails [] := (List.takeWhile_sublist fits).subset (List.mem_of_getLast? h)
    exact .inl (List.mem_singleton.1 hr)
  | cons c t ih =>
    have htails : tails (c :: t) = (c :: t) :: tails t := rfl
    rw [htails, List.takeWhile_cons] at h
    split at h
    · rw [List.getLast?_cons] at h
      cases hl : ((tails t).takeWhile fits).getLast? with
      | some x =>
        rw [hl] at h
        apply ih
        rw [hl]
        exact h
      | none =>
        rw [hl] at h
        right
        have hnil : (tails t).takeWhile fits = [] := List.getLast?_eq_none_iff.1 hl
        rw [← Option.some.inj h]
        cases t with
        | nil => simpa [tails, List.takeWhile_cons] using hnil
        | cons d t => simpa [tails, List.takeWhile_cons] using hnil
    · cases h

/-- The text that the search finds cannot be shortened. -/
theorem shortest_of_front? {cs : List Component} {t u : List Char} (h : front? cs t = some u) :
    u = [] ∨ componentsOf u.dropLast ≠ cs := by
  obtain ⟨r, hr, rfl⟩ := Option.map_eq_some_iff.1 h
  have hend : r = [] ∨ decide (componentsOf r.tail.reverse = cs) = false := by
    generalize t.reverse = l at hr
    induction l with
    | nil =>
      have hmem : r ∈ tails [] := (List.dropWhile_sublist _).subset
        ((List.takeWhile_sublist _).subset (List.mem_of_getLast? hr))
      exact .inl (List.mem_singleton.1 hmem)
    | cons c l ih =>
      have htails : tails (c :: l) = (c :: l) :: tails l := rfl
      rw [htails, List.dropWhile_cons] at hr
      split at hr
      · exact ih hr
      · rw [← htails] at hr
        exact getLast?_takeWhile_tails hr
  rcases hend with rfl | hend
  · exact .inl rfl
  · right
    rw [List.dropLast_reverse]
    exact of_decide_eq_false hend

/-! ### Parents -/

/-- A text with a component has a part in front with all components but the last. -/
theorem exists_prefix (t : List Char) :
    ∃ u, u <+: t ∧ componentsOf u = (componentsOf t).dropLast := by
  induction hn : t.length using Nat.strongRecOn generalizing t with
  | ind n ih =>
    subst hn
    rcases notMem_or_last_slash t with hslash | ⟨v, w, rfl, hw⟩
    · refine ⟨[], List.nil_prefix, ?_⟩
      have hlead : leadOf t = [] ∨ Component.ofPart? t = none := by
        unfold leadOf
        split
        · rename_i h
          exact absurd (List.mem_of_head? h) hslash
        split
        · rename_i h
          rw [List.splitOn_eq_singleton hslash] at h
          rw [Option.some.inj h]
          exact .inr rfl
        · exact .inl rfl
      have hlen : (leadOf t).length ≤ 1 := by
        unfold leadOf
        split
        · exact Nat.le_refl 1
        split
        · exact Nat.le_refl 1
        · exact Nat.zero_le 1
      have hone : (componentsOf t).length ≤ 1 := by
        rw [componentsOf_eq, List.splitOn_eq_singleton hslash]
        rcases hlead with h | h
        · rw [h]
          cases hp : Component.ofPart? t with
          | none => simp [hp]
          | some c => simp [hp]
        · simpa [h] using hlen
      have hdrop : (componentsOf t).dropLast = [] := by
        rw [← List.length_eq_zero_iff, List.length_dropLast]
        omega
      rw [hdrop]
      rfl
    · have hsame : v ++ '/' :: w = (v ++ ['/']) ++ w := by simp
      cases hp : Component.ofPart? w with
      | some c =>
        refine ⟨v ++ ['/'], ?_, ?_⟩
        · rw [hsame]
          exact List.prefix_append _ w
        · rw [componentsOf_append_cons v hw, hp]
          simp
      | none =>
        by_cases hempty : w = []
        · subst hempty
          by_cases hv : v = []
          · subst hv
            exact ⟨[], List.nil_prefix, rfl⟩
          · obtain ⟨u, hu, hcs⟩ := ih v.length (by simp) v rfl
            refine ⟨u, hu.trans (List.prefix_append v ['/']), ?_⟩
            rw [hcs, componentsOf_slash hv]
        · have hshort : (v ++ ['/']).length < (v ++ '/' :: w).length := by
            have := List.length_pos_iff.2 hempty
            simp only [List.length_append, List.length_cons, List.length_nil]
            omega
          obtain ⟨u, hu, hcs⟩ := ih _ hshort (v ++ ['/']) rfl
          refine ⟨u, ?_, ?_⟩
          · rw [hsame]
            exact hu.trans (List.prefix_append _ w)
          · rw [hcs, componentsOf_append_cons v hw, hp]
            simp

/-- The parent of a path that takes a step, and the step that is left. -/
theorem exists_parent? {p : Path} (h : p.names ≠ []) :
    ∃ q name, p.parent? = some q ∧ p.names = q.names ++ [name] := by
  obtain ⟨c, hc, hname⟩ := getLast?_components h
  obtain ⟨name, hname⟩ := Option.isSome_iff_exists.1 hname
  obtain ⟨u, hu, hcs⟩ := exists_prefix p.text.toList
  obtain ⟨r, hr⟩ := exists_front? hu hcs
  have hparent : p.parent? = some ⟨String.ofList r⟩ := by
    unfold parent?
    rw [hc]
    cases c with
    | root => cases hname
    | here => cases hname
    | up => simp only [components, hr, Option.map_some]
    | normal n => simp only [components, hr, Option.map_some]
  refine ⟨_, name, hparent, ?_⟩
  obtain ⟨front, hfront⟩ := List.getLast?_eq_some_iff.1 hc
  rw [names, names, components_parent? hparent, hfront, List.dropLast_concat, List.filterMap_append]
  simp [hname]

theorem front?_of_parent? {p q : Path} (h : p.parent? = some q) :
    front? p.components.dropLast p.text.toList = some q.text.toList := by
  unfold parent? at h
  split at h
  · cases h
  · cases h
  · obtain ⟨t, ht, rfl⟩ := Option.map_eq_some_iff.1 h
    rw [ht, String.toList_ofList]

theorem prefix_of_parent? {p q : Path} (h : p.parent? = some q) : q.text.toList <+: p.text.toList :=
  prefix_of_front? (front?_of_parent? h)

/-- A path that names nothing, or that ends in a step that is no dot. -/
def Tight (p : Path) : Prop :=
  p.names = [] ∨ (FileTree.stepsOf p).getLast? ≠ some "." ∧ FileTree.endsInSlash p = false

theorem tight_of_parent? {p q : Path} (h : p.parent? = some q) : q.Tight := by
  have hshort : q.text.toList = [] ∨ componentsOf q.text.toList.dropLast ≠ q.components := by
    rw [components_parent? h]
    exact shortest_of_front? (front?_of_parent? h)
  rcases hshort with hnil | hshort
  · left
    rw [names, components, hnil]
    rfl
  rcases notMem_or_last_slash q.text.toList with hslash | ⟨v, w, ht, hw⟩
  · by_cases hdot : q.text.toList = ['.']
    · left
      rw [names, components, hdot]
      rfl
    · right
      constructor
      · intro hlast
        rw [FileTree.stepsOf, List.splitOn_eq_singleton hslash] at hlast
        by_cases hq : q.text.toList = []
        · simp [hq] at hlast
        · have : q.text = "." := by simpa [hq] using hlast
          exact hdot (by rw [this]; rfl)
      · rw [FileTree.endsInSlash, beq_eq_false_iff_ne]
        intro hlast
        exact hslash (List.mem_of_getLast? hlast)
  · by_cases hempty : w = []
    · subst hempty
      by_cases hv : v = []
      · left
        rw [names, components, ht, hv]
        rfl
      · exfalso
        apply hshort
        rw [components, ht, List.dropLast_concat, componentsOf_slash hv]
    · right
      constructor
      · intro hlast
        apply hshort
        have hdot : String.ofList w = "." := by
          simpa [FileTree.stepsOf, ht, List.splitOn_append_cons_self, List.splitOn_eq_singleton hw,
            hempty] using hlast
        have hw' : w = ['.'] := by simpa using congrArg String.toList hdot
        subst hw'
        have hdrop : (v ++ '/' :: ['.']).dropLast = v ++ ['/'] := by
          rw [show v ++ '/' :: ['.'] = (v ++ ['/']) ++ ['.'] by simp, List.dropLast_concat]
        rw [components, ht, hdrop, componentsOf_append_cons v hw]
        simp [Component.ofPart?]
      · rw [FileTree.endsInSlash, beq_eq_false_iff_ne]
        intro hlast
        have hsame : v ++ '/' :: w = (v ++ ['/']) ++ w := by simp
        rw [ht, hsame, List.getLast?_append, List.getLast?_eq_some_getLast hempty, Option.some_or] at hlast
        exact hw (Option.some.inj hlast ▸ List.getLast_mem hempty)

/-! ### Absolute paths -/

theorem components_head? (p : Path) : p.isAbsolute = true ↔ p.components.head? = some .root := by
  rw [isAbsolute, beq_iff_eq, components, componentsOf_eq, leadOf]
  constructor
  · intro h
    rw [if_pos h]
    rfl
  · intro h
    by_cases habs : p.text.toList.head? = some '/'
    · exact habs
    rw [if_neg habs] at h
    split at h
    · cases h
    · rw [List.nil_append, List.head?_eq_some_iff] at h
      obtain ⟨cs, hcs⟩ := h
      have hroot : Component.root ∈ (List.splitOn '/' p.text.toList).filterMap Component.ofPart? := by
        rw [hcs]
        exact List.mem_cons_self
      obtain ⟨part, -, hpart⟩ := List.mem_filterMap.1 hroot
      cases isSome_name?_of_ofPart? hpart

/-- The parent of a path that takes a step begins where the path does. -/
theorem isAbsolute_parent? {p q : Path} (h : p.parent? = some q) (hn : p.names ≠ []) :
    q.isAbsolute = p.isAbsolute := by
  rw [Bool.eq_iff_iff, components_head?, components_head?, components_parent? h]
  obtain ⟨c, hc, hname⟩ := getLast?_components hn
  obtain ⟨front, hfront⟩ := List.getLast?_eq_some_iff.1 hc
  rw [hfront, List.dropLast_concat]
  cases front with
  | nil =>
    constructor
    · intro h
      cases h
    · intro h
      rw [List.nil_append, List.head?_cons, Option.some.injEq] at h
      rw [h] at hname
      cases hname
  | cons d front => rfl

end Path

end GrammarBuild
