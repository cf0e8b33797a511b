import GrammarBuild.Glob.Pattern

/-
  GrammarBuild/Proofs/LiteralPatterns.lean
  ========================================
  **Text that stands for itself in a pattern** — text without wildcards is read to its own
  characters whatever stands around it (`tokens_append`), and is then the only text that
  matches (`literal?_chars`).  A star before such text matches every name that ends in it
  (`matchesName_star`).
-/

namespace GrammarBuild.Pattern

/-- Characters that mean nothing else in a pattern. -/
def StandsForItself (c : Char) : Prop := c ≠ '?' ∧ c ≠ '*' ∧ c ≠ '['

instance (c : Char) : Decidable (StandsForItself c) :=
  inferInstanceAs (Decidable (c ≠ '?' ∧ c ≠ '*' ∧ c ≠ '['))

/-- The pattern of a text that stands for itself. -/
def ofChars (s : List Char) : Pattern := s.map .char

/-! ### Reading -/

theorem tokens_cons {c : Char} (hc : StandsForItself c) (fuel i : Nat) (before : Option Char)
    (s : List Char) :
    tokens (fuel + 1) i before (c :: s) =
      (tokens fuel (i + 1) (some c) s).map (GlobToken.char c :: ·) := by
  rw [tokens, if_neg hc.1, if_neg hc.2.1, if_neg hc.2.2]
  cases tokens fuel (i + 1) (some c) s with
  | error e => rfl
  | ok p => rfl

/-- Text that stands for itself is read, and then what comes after it. -/
theorem tokens_append {a : List Char} (ha : ∀ c ∈ a, StandsForItself c) (fuel i : Nat)
    (before : Option Char) (b : List Char) :
    tokens (a.length + fuel) i before (a ++ b) =
      (tokens fuel (i + a.length) (a.getLast?.or before) b).map (ofChars a ++ ·) := by
  induction a generalizing i before with
  | nil =>
    simp only [List.length_nil, Nat.zero_add, Nat.add_zero, List.nil_append, List.getLast?_nil,
      Option.none_or]
    cases tokens fuel i before b with
    | error e => rfl
    | ok p => rfl
  | cons c a ih =>
    have hlast : (c :: a).getLast?.or before = a.getLast?.or (some c) := by
      cases a with
      | nil => rfl
      | cons d a => simp [List.getLast?_cons]
    have hlength : (c :: a).length + fuel = a.length + fuel + 1 := by
      rw [List.length_cons]
      omega
    rw [hlength, List.cons_append, tokens_cons (ha c List.mem_cons_self),
      ih (fun d hd => ha d (List.mem_cons_of_mem c hd)), hlast, List.length_cons,
      Nat.add_assoc i 1, Nat.add_comm 1]
    cases tokens fuel (i + (a.length + 1)) (a.getLast?.or (some c)) b with
    | error e => rfl
    | ok p => rfl

theorem read_append {a : List Char} (ha : ∀ c ∈ a, StandsForItself c) (b : List Char) :
    read (a ++ b) = (tokens b.length a.length a.getLast? b).map (ofChars a ++ ·) := by
  rw [read, List.length_append, tokens_append ha, Nat.zero_add, Option.or_none]

theorem read_ofChars {a : List Char} (ha : ∀ c ∈ a, StandsForItself c) :
    read a = .ok (ofChars a) := by
  have hread := read_append ha []
  rw [List.append_nil] at hread
  rw [hread]
  simp [tokens, Except.map]

/-! ### Matching -/

theorem literal?_ofChars (s : List Char) : literal? (ofChars s) = some (String.ofList s) := by
  have hchars : (ofChars s).mapM GlobToken.char? = some s := by
    induction s with
    | nil => rfl
    | cons c s ih =>
      rw [ofChars] at ih
      simp [ofChars, GlobToken.char?, ih]
  rw [literal?, hchars]
  rfl

/-- A text compared with one that stands for itself. -/
theorem compareChars_ofChars (e s : List Char) :
    (compareChars (ofChars e) s = .equal ↔ s = e) ∧
      (compareChars (ofChars e) s = .tooShort → s.length < e.length) := by
  induction e generalizing s with
  | nil =>
    cases s with
    | nil => simp [ofChars, compareChars]
    | cons c s => simp [ofChars, compareChars]
  | cons d e ih =>
    cases s with
    | nil => simp [ofChars, compareChars, GlobToken.isText]
    | cons c s =>
      have hstep : compareChars (ofChars (d :: e)) (c :: s) =
          if c = d then compareChars (ofChars e) s else .different := by
        simp [ofChars, compareChars, GlobToken.isText, GlobToken.admits]
      rw [hstep]
      by_cases hc : c = d
      · simpa [hc] using ih s
      · simp [hc]

/-- After a star, an ending that stands for itself: the text must end in it. -/
theorem compareChars_anyText_cons (e : List Char) (c : Char) (s : List Char) :
    compareChars (.anyText :: ofChars e) (c :: s) =
      match compareChars (ofChars e) (c :: s) with
      | .different => compareChars (.anyText :: ofChars e) s
      | found => found := by
  rw [compareChars]
  rfl

theorem compareChars_star (e s : List Char) :
    compareChars (.anyText :: ofChars e) s = .equal ↔ e <:+ s := by
  induction s with
  | nil =>
    have hstep : compareChars (.anyText :: ofChars e) [] = compareChars (ofChars e) [] := by
      simp [compareChars, GlobToken.isText]
    rw [hstep, (compareChars_ofChars e []).1, List.suffix_nil, eq_comm]
  | cons c s ih =>
    obtain ⟨hequal, hshort⟩ := compareChars_ofChars e (c :: s)
    rw [compareChars_anyText_cons, List.suffix_cons_iff]
    cases hc : compareChars (ofChars e) (c :: s) with
    | equal => simp [hequal.1 hc]
    | different =>
      have hne : e ≠ c :: s := fun h => by
        rw [hequal.2 h.symm] at hc
        cases hc
      simp [hne, ih]
    | tooShort =>
      have hlength := hshort hc
      have hne : e ≠ c :: s := fun h => by
        rw [h] at hlength
        omega
      have hnot : ¬ e <:+ s := fun h => by
        have hle := h.length_le
        rw [List.length_cons] at hlength
        omega
      simp [hne, hnot]

/-- A star and an ending match the names that end in it. -/
theorem matchesName_star (e : List Char) (name : String) :
    matchesName (.anyText :: ofChars e) name = true ↔ e <:+ name.toList := by
  rw [matchesName, beq_iff_eq, compareChars_star]

end GrammarBuild.Pattern
