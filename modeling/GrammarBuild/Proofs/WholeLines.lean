import GrammarBuild.Proofs.DottedNames
import GrammarBuild.Proofs.Layout
import Mathlib.Data.List.TakeWhile

/-
  GrammarBuild/Proofs/WholeLines.lean
  ===================================
  **Lines and blanks of a text** — which lines a text has (`WholeLine`), told without
  cutting it up, and what a text is without the blanks at its ends (`trimChars_eq_iff`).

  A line stands in a text up to its line feed, carriage return included.  When the lines are
  read off, one carriage return before the line feed is dropped, so that a property of lines
  is read off only if that character makes no difference to it (`exists_linesOf_iff`).
  Lines stay whole when a text grows, provided that the last one is ended first
  (`WholeLine.feed`, `Ended.wholeLine_append_iff`).
-/

namespace GrammarBuild.Text

/-! ### Lines where they stand -/

/-- A line of a text: what stands up to a line feed, or up to the end of the text if there
    is anything. -/
inductive WholeLine : List Char → List Char → Prop where
  | ended {l : List Char} (h : '\n' ∉ l) (rest : List Char) : WholeLine (l ++ '\n' :: rest) l
  | last {l : List Char} (h : '\n' ∉ l) (ne : l ≠ []) : WholeLine l l
  | later {w rest l : List Char} (h : '\n' ∉ w) (line : WholeLine rest l) :
    WholeLine (w ++ '\n' :: rest) l

variable {s t w r l : List Char}

theorem wholeLine_of_notMem_iff (hw : '\n' ∉ w) : WholeLine w l ↔ w ≠ [] ∧ l = w := by
  constructor
  · intro h
    cases h with
    | ended => simp at hw
    | last _ ne => exact ⟨ne, rfl⟩
    | later => simp at hw
  · rintro ⟨ne, rfl⟩
    exact .last hw ne

/-- The first line and the later ones. -/
theorem wholeLine_cut_iff (hw : '\n' ∉ w) :
    WholeLine (w ++ '\n' :: r) l ↔ l = w ∨ WholeLine r l := by
  have hfirst {v q : List Char} (hv : '\n' ∉ v) (same : w ++ '\n' :: r = v ++ '\n' :: q) :
      w = v ∧ r = q := by
    have hsplit := congrArg (List.splitOn '\n') same
    simp only [List.splitOn_append_cons_self, List.splitOn_eq_singleton hw,
      List.splitOn_eq_singleton hv, List.singleton_append, List.cons.injEq] at hsplit
    exact ⟨hsplit.1, splitOn_injective '\n' hsplit.2⟩
  constructor
  · intro h
    generalize hs : w ++ '\n' :: r = s at h
    cases h with
    | ended hl rest => exact .inl (hfirst hl hs).1.symm
    | last hl => simp [← hs] at hl
    | later hv line =>
      obtain ⟨-, rfl⟩ := hfirst hv hs
      exact .inr line
  · rintro (rfl | line)
    · exact .ended hw r
    · exact .later hw line

/-! ### Lines of a text that grows -/

/-- A text whose last line, if it has one, is ended by a line feed. -/
def Ended (s : List Char) : Prop := s = [] ∨ s.getLast? = some '\n'

theorem Ended.eq_nil (h : Ended w) (hw : '\n' ∉ w) : w = [] := by
  rcases h with rfl | h
  · rfl
  · exact absurd (List.mem_of_getLast? h) hw

theorem Ended.rest (h : Ended (w ++ '\n' :: r)) : Ended r := by
  cases r with
  | nil => exact .inl rfl
  | cons c r =>
    rcases h with h | h
    · simp at h
    · exact .inr (by simpa using h)

/-- The lines of what is added to a text whose last line is ended come after the lines that
    the text has. -/
theorem Ended.wholeLine_append_iff (h : Ended s) :
    WholeLine (s ++ t) l ↔ WholeLine s l ∨ WholeLine t l := by
  induction s using cut_induction '\n' with
  | whole w hw =>
    rw [h.eq_nil hw, List.nil_append, wholeLine_of_notMem_iff (List.not_mem_nil)]
    simp
  | cut w r hw ih =>
    rw [List.append_assoc, List.cons_append, wholeLine_cut_iff hw, wholeLine_cut_iff hw, ih h.rest,
      or_assoc]

/-- Ending the last line leaves all lines whole. -/
theorem WholeLine.feed (h : WholeLine s l) : WholeLine (s ++ ['\n']) l := by
  induction h with
  | ended h rest =>
    rw [List.append_assoc]
    exact .ended h _
  | last h => exact .ended h []
  | later h _ ih =>
    rw [List.append_assoc]
    exact .later h ih

/-! ### Lines that are read off -/

theorem linesOf_of_notMem (hw : '\n' ∉ w) : linesOf w = if w = [] then [] else [w] := by
  rw [linesOf, List.splitOn_eq_singleton hw]
  split
  · rename_i h
    simp [h]
  · rename_i h
    simp [h]

theorem linesOf_cut (hw : '\n' ∉ w) : linesOf (w ++ '\n' :: r) = dropReturn w :: linesOf r := by
  have hne := List.splitOn_ne_nil '\n' r
  simp only [linesOf, List.splitOn_append_cons_self, List.splitOn_eq_singleton hw,
    List.singleton_append]
  rw [List.dropLast_cons_of_ne_nil hne, List.getLast?_cons_of_ne_nil hne]
  rfl

/-- What holds of lines with and without a carriage return at their end holds of a line that
    is read off exactly if it holds of a line of the text. -/
theorem exists_linesOf_iff {P : List Char → Prop} (same : ∀ l, P (dropReturn l) ↔ P l) :
    (∃ l ∈ linesOf s, P l) ↔ ∃ l, WholeLine s l ∧ P l := by
  induction s using cut_induction '\n' with
  | whole w hw =>
    rw [linesOf_of_notMem hw]
    simp only [wholeLine_of_notMem_iff hw]
    split
    · rename_i h
      simp [h]
    · rename_i h
      simp [h]
  | cut w r hw ih =>
    rw [linesOf_cut hw]
    simp only [wholeLine_cut_iff hw, List.mem_cons, or_and_right, exists_or, exists_eq_left, same, ih]

/-! ### Blanks at the ends -/

theorem dropWhile_isBlank {name : List Char} (first : name.head?.map isBlank = some false) :
    name.dropWhile isBlank = name := by
  cases name with
  | nil => rfl
  | cons c name =>
    have hc : isBlank c = false := Option.some.inj first
    rw [List.dropWhile_cons_of_neg]
    simp [hc]

/-- What is left of a text without the blanks at its ends, where that is not blank at its own
    ends. -/
theorem trimChars_eq_iff {name : List Char} (first : name.head?.map isBlank = some false)
    (last : name.getLast?.map isBlank = some false) :
    trimChars s = name ↔ ∃ before after, s = before ++ (name ++ after) ∧
      (∀ c ∈ before, isBlank c = true) ∧ ∀ c ∈ after, isBlank c = true := by
  constructor
  · rintro rfl
    refine ⟨s.takeWhile isBlank, ((s.dropWhile isBlank).reverse.takeWhile isBlank).reverse, ?_,
      fun c => List.mem_takeWhile_imp, fun c hc => ?_⟩
    · rw [trimChars, trimEndChars, ← List.reverse_append, List.takeWhile_append_dropWhile,
        List.reverse_reverse, List.takeWhile_append_dropWhile]
    · exact List.mem_takeWhile_imp (List.mem_reverse.1 hc)
  · rintro ⟨before, after, rfl, hbefore, hafter⟩
    have ne : name ≠ [] := by
      rintro rfl
      cases first
    have hfirst : (name ++ after).head?.map isBlank = some false := by
      rwa [List.head?_append_of_ne_nil name ne]
    have hlast : name.reverse.head?.map isBlank = some false := by
      rwa [List.head?_reverse]
    rw [trimChars, List.dropWhile_append_of_pos hbefore, dropWhile_isBlank hfirst, trimEndChars,
      List.reverse_append, List.dropWhile_append_of_pos (by simpa using hafter),
      dropWhile_isBlank hlast, List.reverse_reverse]

/-- A carriage return at the end is a blank. -/
theorem trimChars_dropReturn (s : List Char) : trimChars (dropReturn s) = trimChars s := by
  unfold dropReturn
  split
  · rename_i h
    obtain ⟨front, rfl⟩ := List.getLast?_eq_some_iff.1 h
    have hblank : isBlank '\r' = true := rfl
    rw [List.dropLast_concat, trimChars, trimChars, List.dropWhile_append]
    split
    · rename_i hall
      rw [List.isEmpty_iff.1 hall, List.dropWhile_cons_of_pos hblank]
      rfl
    · rw [trimEndChars, trimEndChars, List.reverse_append, List.reverse_singleton,
        List.singleton_append, List.dropWhile_cons_of_pos hblank]
  · rfl

end GrammarBuild.Text
