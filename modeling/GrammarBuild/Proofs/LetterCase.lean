import GrammarBuild.Text.Blank

/-
  GrammarBuild/Proofs/LetterCase.lean
  ===================================
  **Words in texts, and the case of letters** — a word is in a text if it stands there in
  one piece (`contains_iff`).  Among the ASCII letters, a lower-case letter is what two
  letters come to in lower case (`toLower_eq_iff`), and texts that are the same in upper
  case are the same in lower case (`map_toUpper_eq_iff`).
-/

namespace GrammarBuild.Text

/-! ### Words -/

theorem occursIn_iff (part s : List Char) : occursIn part s = true ↔ part <:+: s := by
  induction s with
  | nil => rw [occursIn, List.isEmpty_iff, List.infix_nil]
  | cons c s ih =>
    rw [occursIn, Bool.or_eq_true, List.isPrefixOf_iff_prefix, ih, List.infix_cons_iff]

theorem contains_iff (s part : String) : contains s part = true ↔ part.toList <:+: s.toList :=
  occursIn_iff part.toList s.toList

/-! ### Letters -/

section

variable {c : Char}

theorem not_lower_of_upper (upper : 'A'.val ≤ c.val ∧ c.val ≤ 'Z'.val) :
    ¬ ('a'.val ≤ c.val ∧ c.val ≤ 'z'.val) := by
  simp only [UInt32.le_iff_toNat_le, Char.reduceVal, UInt32.reduceToNat] at upper ⊢
  omega

/-- A character is the same in lower case or in upper case. -/
theorem toLower_or_toUpper (c : Char) : c.toLower = c ∨ c.toUpper = c := by
  by_cases upper : 'A'.val ≤ c.val ∧ c.val ≤ 'Z'.val
  · exact .inr (dif_neg (not_lower_of_upper upper))
  · exact .inl (dif_neg upper)

/-- In upper case a character stays as it is or becomes an upper-case letter. -/
theorem toUpper_or_isUpper (c : Char) : c.toUpper = c ∨ c.toUpper.isUpper = true := by
  unfold Char.toUpper
  split
  · rename_i lower
    right
    unfold Char.isUpper
    simp only [ge_iff_le, UInt32.le_iff_toNat_le, Char.reduceVal, UInt32.reduceToNat,
      UInt32.toNat_add, UInt32.reduceSub, decide_eq_true_iff] at lower ⊢
    omega
  · exact .inl rfl

theorem toLower_toUpper (c : Char) : c.toUpper.toLower = c.toLower := by
  unfold Char.toUpper Char.toLower
  split
  · rename_i lower
    rw [dif_neg fun upper => not_lower_of_upper upper lower, dif_pos ?_]
    · apply Char.ext
      simp [UInt32.add_assoc]
    · simp only [ge_iff_le, UInt32.le_iff_toNat_le, Char.reduceVal, UInt32.reduceToNat,
        UInt32.toNat_add, UInt32.reduceSub] at lower ⊢
      omega
  · rfl

theorem toUpper_toLower (c : Char) : c.toLower.toUpper = c.toUpper := by
  unfold Char.toUpper Char.toLower
  split
  · rename_i upper
    rw [dif_neg (not_lower_of_upper upper), dif_pos ?_]
    · apply Char.ext
      simp [UInt32.add_assoc]
    · simp only [ge_iff_le, UInt32.le_iff_toNat_le, Char.reduceVal, UInt32.reduceToNat,
        UInt32.toNat_add, UInt32.reduceSub] at upper ⊢
      omega
  · rfl

end

/-- A letter comes to a lower-case one if it is that letter or its upper case. -/
theorem toLower_eq_iff {c d : Char} (lower : d.toLower = d) :
    c.toLower = d ↔ c = d ∨ c = d.toUpper := by
  constructor
  · rintro rfl
    rw [toUpper_toLower]
    exact (toLower_or_toUpper c).imp Eq.symm Eq.symm
  · rintro (rfl | rfl)
    · exact lower
    · rw [toLower_toUpper, lower]

/-- Upper case and lower case tell the same letters apart. -/
theorem toUpper_eq_iff (c d : Char) : c.toUpper = d.toUpper ↔ c.toLower = d.toLower := by
  constructor
  · intro h
    rw [← toLower_toUpper c, h, toLower_toUpper]
  · intro h
    rw [← toUpper_toLower c, h, toUpper_toLower]

theorem map_toUpper_eq_iff (s s' : List Char) :
    s.map Char.toUpper = s'.map Char.toUpper ↔ s.map Char.toLower = s'.map Char.toLower := by
  induction s generalizing s' with
  | nil => rw [List.map_nil, List.map_nil, eq_comm, List.map_eq_nil_iff, eq_comm (a := []),
      List.map_eq_nil_iff]
  | cons c s ih =>
    cases s' with
    | nil => exact iff_of_false (fun h => nomatch h) (fun h => nomatch h)
    | cons d s' =>
      rw [List.map_cons, List.map_cons, List.map_cons, List.map_cons, List.cons.injEq,
        List.cons.injEq, toUpper_eq_iff, ih]

/-- Texts that are one but for the case of letters. -/
theorem lowerAscii_eq_iff (s s' : String) :
    lowerAscii s = lowerAscii s' ↔ s.toList.map Char.toUpper = s'.toList.map Char.toUpper := by
  rw [map_toUpper_eq_iff, lowerAscii, lowerAscii, String.ofList_inj]

end GrammarBuild.Text
