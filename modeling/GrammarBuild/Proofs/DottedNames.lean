import GrammarBuild.Proofs.Locations
import GrammarBuild.Target.Basic

/-
  GrammarBuild/Proofs/DottedNames.lean
  ====================================
  **Which names are loadable** — exactly the identifiers joined by single dots
  (`DottedName`), where an identifier is `[A-Za-z_][A-Za-z0-9_]*` in ASCII.  Any other name
  is refused, and the reason is what is wrong with its leftmost component that is no
  identifier (`Misnamed`).

  The check cuts a name at its dots and looks at one piece after the other; the grammar
  speaks of names put together from the left.  `cut_induction` goes over a name as the check
  does, and everything here is one induction along it.
-/

namespace GrammarBuild

/-! ### The grammar -/

/-- `[A-Za-z_]` -/
def IdentifierStart (c : Char) : Prop := 'A' ≤ c ∧ c ≤ 'Z' ∨ 'a' ≤ c ∧ c ≤ 'z' ∨ c = '_'

/-- `[0-9]` -/
def IdentifierDigit (c : Char) : Prop := '0' ≤ c ∧ c ≤ '9'

/-- `[A-Za-z_][A-Za-z0-9_]*` -/
inductive Identifier : List Char → Prop where
  | intro {c : Char} {rest : List Char} (start : IdentifierStart c)
    (later : ∀ d ∈ rest, IdentifierStart d ∨ IdentifierDigit d) : Identifier (c :: rest)

/-- Pieces of one kind joined by single dots. -/
inductive Dotted (P : List Char → Prop) : List Char → Prop where
  | single {w : List Char} (h : P w) : Dotted P w
  | dot {w r : List Char} (h : P w) (rest : Dotted P r) : Dotted P (w ++ '.' :: r)

/-- Identifiers joined by single dots. -/
abbrev DottedName : List Char → Prop := Dotted Identifier

/-- What is wrong with a component that is no identifier. -/
inductive Misspelled : List Char → NameFault → Prop where
  | empty : Misspelled [] .emptyComponent
  | digit {c : Char} {rest : List Char} (first : IdentifierDigit c) :
    Misspelled (c :: rest) .leadingDigit
  | start {c : Char} {rest : List Char} (digit : ¬ IdentifierDigit c)
    (start : ¬ IdentifierStart c) : Misspelled (c :: rest) .badStart
  | later {c d : Char} {rest : List Char} (start : IdentifierStart c) (mem : d ∈ rest)
    (bad : ¬ (IdentifierStart d ∨ IdentifierDigit d)) : Misspelled (c :: rest) .badCharacter

/-- What is wrong with the leftmost component that is no identifier. -/
inductive LeftmostMisspelled : List Char → NameFault → Prop where
  | last {w : List Char} {f : NameFault} (dotless : '.' ∉ w) (h : Misspelled w f) :
    LeftmostMisspelled w f
  | here {w r : List Char} {f : NameFault} (dotless : '.' ∉ w) (h : Misspelled w f) :
    LeftmostMisspelled (w ++ '.' :: r) f
  | later {w r : List Char} {f : NameFault} (h : Identifier w) (rest : LeftmostMisspelled r f) :
    LeftmostMisspelled (w ++ '.' :: r) f

/-- What is wrong with a name. -/
inductive Misnamed : List Char → NameFault → Prop where
  | empty : Misnamed [] .empty
  | component {s : List Char} {f : NameFault} (ne : s ≠ []) (h : LeftmostMisspelled s f) :
    Misnamed s f

/-! ### Texts cut at their dots -/

/-- Every text is one piece without a separator, or such a piece, a separator and a text. -/
@[elab_as_elim]
theorem cut_induction (sep : Char) {motive : List Char → Prop}
    (whole : ∀ w, sep ∉ w → motive w)
    (cut : ∀ w r, sep ∉ w → motive r → motive (w ++ sep :: r)) (s : List Char) : motive s := by
  by_cases hs : sep ∈ s
  · obtain ⟨w, r, hcut, hw⟩ := List.eq_append_cons_of_mem hs
    have hshorter : r.length < s.length := by
      rw [hcut, List.length_append, List.length_cons]
      omega
    rw [hcut]
    exact cut w r hw (cut_induction sep whole cut r)
  · exact whole s hs
termination_by s.length

/-- A text is pieces of one kind joined by dots exactly if all that is between its dots is
    of that kind. -/
theorem dotted_iff {P : List Char → Prop} (dotless : ∀ w, P w → '.' ∉ w) (s : List Char) :
    Dotted P s ↔ ∀ w ∈ List.splitOn '.' s, P w := by
  constructor
  · intro h
    induction h with
    | single hw =>
      rw [List.splitOn_eq_singleton (dotless _ hw), List.forall_mem_singleton]
      exact hw
    | dot hw _ ih =>
      rw [List.splitOn_append_cons_self, List.splitOn_eq_singleton (dotless _ hw),
        List.singleton_append, List.forall_mem_cons]
      exact ⟨hw, ih⟩
  · intro h
    induction s using cut_induction '.' with
    | whole w hw =>
      rw [List.splitOn_eq_singleton hw, List.forall_mem_singleton] at h
      exact .single h
    | cut w r hw ih =>
      rw [List.splitOn_append_cons_self, List.splitOn_eq_singleton hw, List.singleton_append,
        List.forall_mem_cons] at h
      exact .dot h.1 (ih h.2)

/-! ### Characters and components -/

namespace Target

theorem isNameStart_iff (c : Char) : isNameStart c = true ↔ IdentifierStart c := by
  unfold isNameStart IdentifierStart Char.isAlpha Char.isUpper Char.isLower
  simp [Char.le_def, or_assoc]

theorem isDigit_iff (c : Char) : c.isDigit = true ↔ IdentifierDigit c := by
  simp [IdentifierDigit, Char.isDigit, Char.le_def]

theorem isNameChar_iff (c : Char) :
    isNameChar c = true ↔ IdentifierStart c ∨ IdentifierDigit c := by
  rw [← isNameStart_iff, ← isDigit_iff]
  simp only [isNameChar, isNameStart, Char.isAlphanum, Bool.or_eq_true]
  exact or_right_comm

/-- A digit starts no identifier. -/
theorem not_identifierStart_of_digit {c : Char} (h : IdentifierDigit c) : ¬ IdentifierStart c := by
  intro hs
  rcases hs with ⟨h₁, -⟩ | ⟨h₁, -⟩ | rfl
  · exact absurd (Char.le_trans h₁ h.2) (by decide)
  · exact absurd (Char.le_trans h₁ h.2) (by decide)
  · exact absurd h.2 (by decide)

theorem componentFault?_of_misspelled {w : List Char} {f : NameFault} (h : Misspelled w f) :
    componentFault? w = some f := by
  cases h with
  | empty => rfl
  | @digit c rest first =>
    have hdigit := (isDigit_iff c).2 first
    simp [componentFault?, hdigit]
  | @start c rest digit start =>
    have hdigit : c.isDigit = false := Bool.eq_false_iff.2 (mt (isDigit_iff c).1 digit)
    have hstart : isNameStart c = false := Bool.eq_false_iff.2 (mt (isNameStart_iff c).1 start)
    simp [componentFault?, hdigit, hstart]
  | @later c d rest start mem bad =>
    have hdigit : c.isDigit = false :=
      Bool.eq_false_iff.2 fun hd => not_identifierStart_of_digit ((isDigit_iff c).1 hd) start
    have hstart : isNameStart c = true := (isNameStart_iff c).2 start
    have hrest : rest.all isNameChar = false :=
      List.all_eq_false.2 ⟨d, mem, mt (isNameChar_iff d).1 bad⟩
    simp [componentFault?, hdigit, hstart, hrest]

theorem componentFault?_of_identifier {w : List Char} (h : Identifier w) :
    componentFault? w = none := by
  cases h with
  | @intro c rest start later =>
    have hdigit : c.isDigit = false :=
      Bool.eq_false_iff.2 fun hd => not_identifierStart_of_digit ((isDigit_iff c).1 hd) start
    have hstart : isNameStart c = true := (isNameStart_iff c).2 start
    have hrest : rest.all isNameChar = true :=
      List.all_eq_true.2 fun d hd => (isNameChar_iff d).2 (later d hd)
    simp [componentFault?, hdigit, hstart, hrest]

/-- A component is an identifier or misspelled in one of the ways. -/
theorem identifier_or_misspelled (w : List Char) : Identifier w ∨ ∃ f, Misspelled w f := by
  cases w with
  | nil => exact .inr ⟨_, .empty⟩
  | cons c rest =>
    by_cases hdigit : IdentifierDigit c
    · exact .inr ⟨_, .digit hdigit⟩
    by_cases hstart : IdentifierStart c
    · by_cases hlater : ∀ d ∈ rest, IdentifierStart d ∨ IdentifierDigit d
      · exact .inl ⟨hstart, hlater⟩
      · obtain ⟨d, hbad⟩ := Classical.not_forall.1 hlater
        obtain ⟨hd, hbad⟩ := Classical.not_imp.1 hbad
        exact .inr ⟨_, .later hstart hd hbad⟩
    · exact .inr ⟨_, .start hdigit hstart⟩

theorem componentFault?_eq_none_iff (w : List Char) : componentFault? w = none ↔ Identifier w := by
  constructor
  · intro h
    rcases identifier_or_misspelled w with hw | ⟨f, hf⟩
    · exact hw
    · rw [componentFault?_of_misspelled hf] at h
      cases h
  · exact componentFault?_of_identifier

theorem componentFault?_eq_some_iff (w : List Char) (f : NameFault) :
    componentFault? w = some f ↔ Misspelled w f := by
  constructor
  · intro h
    rcases identifier_or_misspelled w with hw | ⟨g, hg⟩
    · rw [componentFault?_of_identifier hw] at h
      cases h
    · rw [componentFault?_of_misspelled hg] at h
      cases h
      exact hg
  · exact componentFault?_of_misspelled

/-! ### Names -/

/-- No dot is in an identifier. -/
theorem dot_notMem {w : List Char} (h : Identifier w) : '.' ∉ w := by
  cases h with
  | intro start later =>
    have hdot : ¬ (IdentifierStart '.' ∨ IdentifierDigit '.') := by
      simp only [IdentifierStart, IdentifierDigit]
      decide
    intro hm
    rcases List.mem_cons.1 hm with rfl | hm
    · exact hdot (.inl start)
    · exact hdot (later _ hm)

/-- The faults that a check of all pieces finds, as the check goes from piece to piece. -/
theorem firstFault_cut {w : List Char} (hw : '.' ∉ w) (r : List Char) :
    (List.splitOn '.' (w ++ '.' :: r)).findSome? componentFault? =
      (componentFault? w).or ((List.splitOn '.' r).findSome? componentFault?) := by
  rw [List.splitOn_append_cons_self, List.splitOn_eq_singleton hw, List.singleton_append,
    List.findSome?_cons]
  cases componentFault? w with
  | none => rfl
  | some f => rfl

theorem firstFault_whole {w : List Char} (hw : '.' ∉ w) :
    (List.splitOn '.' w).findSome? componentFault? = componentFault? w := by
  rw [List.splitOn_eq_singleton hw, List.findSome?_singleton]

theorem firstFault_eq_none_iff (s : List Char) :
    (List.splitOn '.' s).findSome? componentFault? = none ↔ DottedName s := by
  have hpieces : DottedName s ↔ _ := dotted_iff (fun _ hw => dot_notMem hw) s
  rw [List.findSome?_eq_none_iff, hpieces]
  exact forall_congr' fun w => imp_congr_right fun _ => componentFault?_eq_none_iff w

theorem firstFault_eq_some_iff (s : List Char) (f : NameFault) :
    (List.splitOn '.' s).findSome? componentFault? = some f ↔ LeftmostMisspelled s f := by
  constructor
  · intro h
    induction s using cut_induction '.' with
    | whole w hw =>
      rw [firstFault_whole hw] at h
      exact .last hw ((componentFault?_eq_some_iff w f).1 h)
    | cut w r hw ih =>
      rw [firstFault_cut hw] at h
      rcases identifier_or_misspelled w with hi | ⟨g, hg⟩
      · rw [componentFault?_of_identifier hi] at h
        exact .later hi (ih h)
      · rw [componentFault?_of_misspelled hg] at h
        cases h
        exact .here hw hg
  · intro h
    induction h with
    | last hw hf =>
      rw [firstFault_whole hw]
      exact componentFault?_of_misspelled hf
    | here hw hf =>
      rw [firstFault_cut hw, componentFault?_of_misspelled hf]
      rfl
    | later hw _ ih =>
      rw [firstFault_cut (dot_notMem hw), componentFault?_of_identifier hw, ih]
      rfl

theorem ne_nil_of_dottedName {s : List Char} (h : DottedName s) : s ≠ [] := by
  cases h with
  | single hw =>
    cases hw with
    | intro => exact List.cons_ne_nil _ _
  | dot => exact List.append_ne_nil_of_right_ne_nil _ (List.cons_ne_nil _ _)

theorem nameFault?_eq_none_iff (s : List Char) : nameFault? s = none ↔ DottedName s := by
  unfold nameFault?
  split
  · rename_i hs
    constructor
    · intro h
      cases h
    · intro h
      exact absurd hs (ne_nil_of_dottedName h)
  · exact firstFault_eq_none_iff s

theorem nameFault?_eq_some_iff (s : List Char) (f : NameFault) :
    nameFault? s = some f ↔ Misnamed s f := by
  unfold nameFault?
  split
  · rename_i hs
    subst hs
    constructor
    · intro h
      cases h
      exact .empty
    · intro h
      cases h with
      | empty => rfl
      | component hne => exact absurd rfl hne
  · rename_i hs
    rw [firstFault_eq_some_iff]
    constructor
    · intro h
      exact .component hs h
    · intro h
      cases h with
      | empty => exact absurd rfl hs
      | component _ h => exact h

/-- A name is accepted exactly if it is identifiers joined by single dots; every other name is
    refused for what is wrong with it, and for nothing else. -/
theorem validateName_iff_dotted (t : Target) :
    (t.validateName = .ok () ↔ DottedName t.name.toList) ∧
    ∀ e, t.validateName = .error e ↔
      ∃ f, Misnamed t.name.toList f ∧ e = .invalidName t.name f := by
  unfold validateName
  constructor
  · rw [← nameFault?_eq_none_iff]
    cases nameFault? t.name.toList with
    | none => simp
    | some f => simp
  · intro e
    simp only [← nameFault?_eq_some_iff]
    cases nameFault? t.name.toList with
    | none => simp
    | some f => simp [eq_comm]

end Target

end GrammarBuild
