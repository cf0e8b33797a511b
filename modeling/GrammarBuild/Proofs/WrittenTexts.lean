import GrammarBuild.Proofs.PlainDocuments
import GrammarBuild.Toml.Writer

/-
  GrammarBuild/Proofs/WrittenTexts.lean
  =====================================
  **Texts survive being written as TOML** — whichever of the four kinds of string the writer
  chooses for a text, the reader finds that text in it (`string?_writeChars`), and a list of
  texts is read back from its lines (`value?_writeList`).

  Between single quotes nothing is escaped, so the choice of the kind has to rule out what
  cannot stand there.  Between double quotes every character has a spelling (`Spelling`).
  Between three quotes the danger is a third quote in a row: `LongBody` counts the plain
  quotes that stand right before a place, and both kinds of such strings are read by one
  induction over it.
-/

namespace GrammarBuild.Toml

/-! ### Characters -/

theorem isControl_iff {c : Char} : isControl c = true ↔
    c.toNat < 0x20 ∧ c ≠ '\t' ∧ c ≠ '\n' ∨ c.toNat = 0x7F := by
  simp [isControl, and_assoc]

/-- What is no control character can stand in a string, a line feed in one of several lines. -/
theorem isTextChar_of_not_isControl {c : Char} (h : isControl c = false) (feed : c ≠ '\n') :
    isTextChar c = true := by
  have hnot := mt isControl_iff.2 (Bool.eq_false_iff.1 h)
  simp only [isTextChar, Bool.or_eq_true, beq_iff_eq, Bool.and_eq_true, decide_eq_true_eq]
  by_cases htab : c = '\t'
  · exact .inl htab
  · right
    constructor
    · by_contra hlow
      exact hnot (.inl ⟨Nat.lt_of_not_le hlow, htab, feed⟩)
    · exact fun hdel => hnot (.inr hdel)

theorem isTextChar_ne {c : Char} (h : isTextChar c = true) : c ≠ '\n' ∧ c ≠ '\r' := by
  constructor
  · rintro rfl
    exact absurd h (by decide)
  · rintro rfl
    exact absurd h (by decide)

/-! ### Spellings between double quotes -/

theorem hexValue?_upperHexDigit : ∀ n < 16, hexValue? (upperHexDigit n) = some n := by decide

/-- The number of a control character as an escape. -/
theorem escape?_control {c : Char} (h : isControl c = true) (r : List Char) :
    escape? ('u' :: '0' :: '0' :: upperHexDigit (c.toNat / 16) :: upperHexDigit (c.toNat % 16) :: r) =
      some (c, r) := by
  have hlow : c.toNat < 0x80 := by
    rcases isControl_iff.1 h with ⟨hlt, -⟩ | hdel
    · omega
    · omega
  have h0 : hexValue? '0' = some 0 := by decide
  have h1 := hexValue?_upperHexDigit (c.toNat / 16) (by omega)
  have h2 := hexValue?_upperHexDigit (c.toNat % 16) (by omega)
  have hsum : 16 * (c.toNat / 16) + c.toNat % 16 = c.toNat := Nat.div_add_mod c.toNat 16
  have hnumber : hexNumber? 4 0
      ('0' :: '0' :: upperHexDigit (c.toNat / 16) :: upperHexDigit (c.toNat % 16) :: r) =
      some (c.toNat, r) := by
    simp only [hexNumber?, h0, h1, h2, Option.bind_some, Nat.mul_zero, Nat.zero_add, hsum]
  have hchar : charOf? c.toNat = some c := by
    rw [charOf?, if_pos (.inl (by omega)), Char.ofNat_toNat]
  simp only [escape?, hnumber, hchar, Option.bind_eq_bind, Option.bind_some]
  rfl

/-- A character that neither is blank nor begins the end of a line. -/
def Visible (c : Char) : Prop := isSpace c = false ∧ c ≠ '\n' ∧ c ≠ '\r'

instance (c : Char) : Decidable (Visible c) := inferInstanceAs (Decidable (_ ∧ _))

/-- How a character can be written between double quotes: as it is, or by an escape, which
    must not look like the end of a line. -/
inductive Spelling (c : Char) : List Char → Prop where
  | plain (text : isTextChar c = true) (quote : c ≠ '"') (slash : c ≠ '\\') : Spelling c [c]
  | escaped {d : Char} {e : List Char} (reads : ∀ r, escape? (d :: (e ++ r)) = some (c, r))
    (visible : Visible d) : Spelling c ('\\' :: d :: e)

theorem spelling_escapeOther {c : Char} (quote : c ≠ '"') (feed : c ≠ '\n') :
    Spelling c (escapeOther c) := by
  unfold escapeOther
  -- the letters that stand for a character
  iterate 5
    split
    · subst_vars
      exact .escaped (fun _ => rfl) (by decide)
  rename_i slash
  split
  · rename_i control
    exact .escaped (fun r => escape?_control control r) (by decide)
  · rename_i control
    exact .plain (isTextChar_of_not_isControl (by simpa using control) feed) quote slash

/-! ### Strings on one line -/

/-- One spelling is read as its character. -/
theorem basicBody?_spelling {c : Char} {w : List Char} (h : Spelling c w) (b : Char)
    (bound r : List Char) : basicBody? (b :: bound) (w ++ r) =
      (basicBody? bound r).map fun (t, r) => (c :: t, r) := by
  cases h with
  | plain text quote slash =>
    rw [List.singleton_append, basicBody?, if_pos text]
    · exact quote
    · exact slash
  | escaped reads visible =>
    simp only [List.cons_append, basicBody?, reads, Option.bind_eq_bind, Option.bind_some]
    cases basicBody? bound r with
    | none => rfl
    | some p => rfl

/-- The first character of a text and the rest, as they are written on one line. -/
theorem exists_spelling_basicChars (run : Nat) (c : Char) (s : List Char) :
    ∃ w, Spelling c w ∧ basicChars false run (c :: s) = w ++ basicChars false 0 s := by
  by_cases quote : c = '"'
  · subst quote
    exact ⟨['\\', '"'], .escaped (fun _ => rfl) (by decide), rfl⟩
  by_cases feed : c = '\n'
  · subst feed
    exact ⟨['\\', 'n'], .escaped (fun _ => rfl) (by decide), rfl⟩
  · refine ⟨escapeOther c, spelling_escapeOther quote feed, ?_⟩
    rw [basicChars, if_neg quote, if_neg feed]

theorem basicBody?_basicChars (run : Nat) (s r : List Char) {bound : List Char}
    (hb : s.length < bound.length) :
    basicBody? bound (basicChars false run s ++ '"' :: r) = some (s, r) := by
  induction s generalizing run bound with
  | nil =>
    cases bound with
    | nil => cases hb
    | cons b bound => rfl
  | cons c s ih =>
    cases bound with
    | nil => cases hb
    | cons b bound =>
      obtain ⟨w, spelled, hw⟩ := exists_spelling_basicChars run c s
      rw [hw, List.append_assoc, basicBody?_spelling spelled, ih 0 (Nat.lt_of_succ_lt_succ hb)]
      rfl

theorem Spelling.exists_cons {c : Char} {w : List Char} (h : Spelling c w) :
    ∃ d v, w = d :: v ∧ d ≠ '"' := by
  cases h with
  | plain text quote slash => exact ⟨c, [], rfl, quote⟩
  | escaped reads visible => exact ⟨_, _, rfl, by decide⟩

theorem length_le_basicChars (run : Nat) (s : List Char) :
    s.length ≤ (basicChars false run s).length := by
  induction s generalizing run with
  | nil => exact Nat.zero_le _
  | cons c s ih =>
    obtain ⟨w, spelled, hw⟩ := exists_spelling_basicChars run c s
    obtain ⟨d, v, rfl, -⟩ := spelled.exists_cons
    have hrest := ih 0
    rw [hw, List.length_append, List.length_cons, List.length_cons]
    omega

/-- A text on one line between double quotes. -/
theorem string?_basic (s : List Char) {c : Char} (hc : c ≠ '"') (r : List Char) :
    string? ('"' :: (basicChars false 0 s ++ '"' :: c :: r)) = some (s, c :: r) := by
  have hlength := length_le_basicChars 0 s
  rw [string?_eq, basicBody?_basicChars 0 s]
  · simp only [List.length_cons, List.length_append]
    omega
  · intro r' hr
    cases s with
    | nil =>
      injection hr with _ hr
      injection hr with hr _
      exact hc hr
    | cons d s =>
      obtain ⟨w, spelled, hw⟩ := exists_spelling_basicChars 0 d s
      obtain ⟨e, v, rfl, he⟩ := spelled.exists_cons
      rw [hw] at hr
      injection hr with hr _
      exact he hr

theorem literalBody?_append {s : List Char} (h : ∀ c ∈ s, isTextChar c = true ∧ c ≠ '\x27')
    (r : List Char) : literalBody? (s ++ '\x27' :: r) = some (s, r) := by
  induction s with
  | nil => rfl
  | cons c s ih =>
    obtain ⟨⟨htext, hquote⟩, hrest⟩ := List.forall_mem_cons.1 h
    rw [List.cons_append, literalBody?, if_neg hquote, if_pos htext, ih hrest]
    rfl

/-- Three quotes in a row begin another kind of string. -/
theorem string?_eq_literalBody? {s : List Char} (h : ∀ r, s ≠ '\x27' :: '\x27' :: r) :
    string? ('\x27' :: s) = literalBody? s := by
  unfold string?
  split
  · rename_i hs
    injection hs with hs _
    cases hs
  · rename_i r hs
    injection hs with _ hs
    exact absurd hs (h r)
  · rename_i hs
    injection hs with hs _
    cases hs
  · rename_i hs
    injection hs with _ hs
    rw [hs]
  · rename_i hs
    exact absurd rfl (hs s)

/-- A text that holds something, on one line between single quotes. -/
theorem string?_literal {s : List Char} (hne : s ≠ [])
    (h : ∀ c ∈ s, isTextChar c = true ∧ c ≠ '\x27') (r : List Char) :
    string? ('\x27' :: (s ++ '\x27' :: r)) = some (s, r) := by
  rw [string?_eq_literalBody?, literalBody?_append h]
  intro r' hr
  cases s with
  | nil => exact hne rfl
  | cons c s =>
    injection hr with hr _
    exact (List.forall_mem_cons.1 h).1.2 hr

/-! ### Strings between three quotes -/

/-- `w` spells `s` between three quotes of the kind `q`, where `run` quotes stand as they are
    right before it: nowhere are there three of them in a row. -/
inductive LongBody (q : Char) (escapes : Bool) : (run : Nat) → (w s : List Char) → Prop where
  | nil {run : Nat} : LongBody q escapes run [] []
  | quote {run : Nat} {w s : List Char} (few : run < 2) (rest : LongBody q escapes (run + 1) w s) :
    LongBody q escapes run (q :: w) (q :: s)
  | feed {run : Nat} {w s : List Char} (rest : LongBody q escapes 0 w s) :
    LongBody q escapes run ('\n' :: w) ('\n' :: s)
  | plain {run : Nat} {c : Char} {w s : List Char} (text : isTextChar c = true) (quote : c ≠ q)
    (slash : c = '\\' → escapes = false) (rest : LongBody q escapes 0 w s) :
    LongBody q escapes run (c :: w) (c :: s)
  | escaped {run : Nat} {c d : Char} {e w s : List Char} (on : escapes = true)
    (reads : ∀ r, escape? (d :: (e ++ r)) = some (c, r)) (visible : Visible d)
    (rest : LongBody q escapes 0 w s) : LongBody q escapes run ('\\' :: d :: (e ++ w)) (c :: s)

/-- A character that quotes a string. -/
def IsQuote (q : Char) : Prop := q = '"' ∨ q = '\x27'

theorem quotesAhead_replicate {q c : Char} (hc : c ≠ q) {k : Nat} (hk : k ≤ 5) (r : List Char) :
    quotesAhead q (List.replicate k q ++ c :: r) = k := by
  have hstop : (List.replicate k q ++ c :: r).takeWhile (· = q) = List.replicate k q := by
    rw [List.takeWhile_append_of_pos (by simp), List.takeWhile_cons_of_neg (by simpa using hc),
      List.append_nil]
  rw [quotesAhead, ← List.take_takeWhile, hstop, List.length_take, List.length_replicate,
    Nat.min_eq_right hk]

theorem IsQuote.ne {q : Char} (hq : IsQuote q) : q ≠ '\n' ∧ q ≠ '\\' := by
  rcases hq with rfl | rfl
  · decide
  · decide

section

variable {q c : Char} {escapes : Bool} {run : Nat} {w s : List Char}

/-- Counted with the quotes right before it, a body begins with at most two quotes, and then
    it is at its end or goes on with something else. -/
theorem LongBody.lead (hq : IsQuote q) (h : LongBody q escapes run w s) (few : run ≤ 2) :
    ∃ k, run + k ≤ 2 ∧ (w = List.replicate k q ∧ s = List.replicate k q ∨
      ∃ d v, w = List.replicate k q ++ d :: v ∧ d ≠ q) := by
  obtain ⟨hfeed, hslash⟩ := hq.ne
  induction h with
  | nil => exact ⟨0, few, .inl ⟨rfl, rfl⟩⟩
  | quote few' rest ih =>
    obtain ⟨k, hk, hlead⟩ := ih few'
    refine ⟨k + 1, by omega, ?_⟩
    rcases hlead with ⟨rfl, rfl⟩ | ⟨d, v, rfl, hd⟩
    · exact .inl ⟨rfl, rfl⟩
    · exact .inr ⟨d, v, rfl, hd⟩
  | feed => exact ⟨0, few, .inr ⟨'\n', _, rfl, hfeed.symm⟩⟩
  | plain text quote => exact ⟨0, few, .inr ⟨_, _, rfl, quote⟩⟩
  | escaped => exact ⟨0, few, .inr ⟨'\\', _, rfl, hslash.symm⟩⟩

/-- One or two quotes before the last three belong to the text. -/
theorem longBody?_end (hc : c ≠ q) {k : Nat} (hk : k ≤ 2) (b : Char) (bound r : List Char) :
    longBody? q escapes (b :: bound) (List.replicate k q ++ q :: q :: q :: c :: r) =
      some (List.replicate k q, c :: r) := by
  have hall : List.replicate k q ++ q :: q :: q :: c :: r = List.replicate (k + 3) q ++ c :: r := by
    rw [List.replicate_add, List.append_assoc]
    rfl
  have hcons : List.replicate (k + 3) q ++ c :: r = q :: (List.replicate (k + 2) q ++ c :: r) := rfl
  have hahead := quotesAhead_replicate hc (k := k + 3) (by omega) r
  have hdrop : (List.replicate (k + 3) q ++ c :: r).drop (k + 3) = c :: r :=
    List.drop_left' (List.length_replicate)
  rw [hcons] at hahead hdrop
  rw [hall, hcons, longBody?, if_pos rfl]
  simp only [hahead, hdrop, Nat.le_add_left, if_true, Nat.add_sub_cancel]

/-- A backslash before something visible joins no lines. -/
theorem lineJoin?_eq_none {d : Char} (h : Visible d) (r : List Char) : lineJoin? (d :: r) = none := by
  obtain ⟨hspace, hfeed, hreturn⟩ := h
  rw [lineJoin?, skipSpace, List.dropWhile_cons_of_neg (by simp [hspace]),
    lineEnd?_eq_none hfeed hreturn]
  rfl

/-- A body is read up to the three quotes behind it. -/
theorem LongBody.read (hq : IsQuote q) (h : LongBody q escapes run w s) (few : run ≤ 2)
    (hc : c ≠ q) (r : List Char) {bound : List Char} (hb : s.length < bound.length) :
    longBody? q escapes bound (w ++ q :: q :: q :: c :: r) = some (s, c :: r) := by
  obtain ⟨hfeed, hslash⟩ := hq.ne
  have hcons (bound : List Char) {n : Nat} (hb : n < bound.length) : ∃ b bound', bound = b :: bound' :=
    List.exists_cons_of_length_pos (Nat.zero_lt_of_lt hb)
  induction h generalizing bound with
  | nil =>
    obtain ⟨b, bound, rfl⟩ := hcons bound hb
    exact longBody?_end hc (Nat.zero_le 2) b bound r
  | quote few' rest ih =>
    obtain ⟨b, bound, rfl⟩ := hcons bound hb
    obtain ⟨k, hk, hlead⟩ := (LongBody.quote few' rest).lead hq few
    rcases hlead with ⟨hw, hs⟩ | ⟨d, v, hw, hd⟩
    · rw [hw, hs]
      apply longBody?_end hc
      omega
    · have hahead := quotesAhead_replicate hd (k := k) (by omega) (v ++ q :: q :: q :: c :: r)
      rw [← List.cons_append, ← List.append_assoc, ← hw, List.cons_append] at hahead
      rw [List.cons_append, longBody?, if_pos rfl]
      simp only [hahead, if_neg (show ¬ 3 ≤ k by omega)]
      rw [ih few' (Nat.lt_of_succ_lt_succ hb)]
      rfl
  | feed rest ih =>
    obtain ⟨b, bound, rfl⟩ := hcons bound hb
    rw [List.cons_append, longBody?, if_neg hfeed.symm, if_neg (by simp), if_neg (by decide)]
    simp only [lineEnd?, Option.bind_eq_bind, Option.bind_some]
    rw [ih (Nat.zero_le 2) (Nat.lt_of_succ_lt_succ hb)]
    rfl
  | plain text quote slash rest ih =>
    obtain ⟨b, bound, rfl⟩ := hcons bound hb
    have hplain (e : Char) (hs : e = '\\' → escapes = false) : ¬ (e = '\\' ∧ escapes = true) := by
      rintro ⟨he, hon⟩
      rw [hs he] at hon
      cases hon
    rw [List.cons_append, longBody?, if_neg quote, if_neg (hplain _ slash), if_pos text,
      ih (Nat.zero_le 2) (Nat.lt_of_succ_lt_succ hb)]
    rfl
  | escaped on reads visible rest ih =>
    obtain ⟨b, bound, rfl⟩ := hcons bound hb
    simp only [List.cons_append, List.append_assoc]
    rw [longBody?, if_neg hslash.symm, if_pos ⟨rfl, on⟩, lineJoin?_eq_none visible]
    simp only [reads, Option.bind_eq_bind, Option.bind_some]
    rw [ih (Nat.zero_le 2) (Nat.lt_of_succ_lt_succ hb)]
    rfl

end

/-! ### The bodies that are written -/

/-- With escapes every text can stand between three double quotes. -/
theorem longBody_basicChars {run : Nat} (few : run ≤ 2) (s : List Char) :
    LongBody '"' true run (basicChars true run s) s := by
  induction s generalizing run with
  | nil => exact .nil
  | cons c s ih =>
    rw [basicChars]
    split
    · rename_i quote
      subst quote
      split
      · exact .escaped (e := []) rfl (fun _ => rfl) (by decide) (ih (Nat.zero_le 2))
      · rename_i third
        simp only [Bool.not_true, Bool.false_or, decide_eq_true_eq] at third
        exact .quote (by omega) (ih (by omega))
    rename_i quote
    split
    · rename_i feed
      subst feed
      exact .feed (ih (Nat.zero_le 2))
    · rename_i feed
      have hrest := ih (Nat.zero_le 2)
      generalize hw : escapeOther c = w
      have spelled := spelling_escapeOther quote feed
      rw [hw] at spelled
      cases spelled with
      | plain text _ slash => exact .plain text quote (fun h => absurd h slash) hrest
      | escaped reads visible => exact .escaped rfl reads visible hrest

theorem le_longestRun (q : Char) (current best : Nat) (s : List Char) :
    best ≤ longestRun q current best s := by
  induction s generalizing current best with
  | nil => exact Nat.le_refl best
  | cons c s ih =>
    rw [longestRun]
    split
    · exact Nat.le_trans (Nat.le_max_left _ _) (ih _ _)
    · exact ih _ _

/-- A text without control characters and three single quotes in a row can stand between
    three of them as it is. -/
theorem longBody_self {run best : Nat} {s : List Char} (control : s.any isControl = false)
    (runs : longestRun '\x27' run best s ≤ 2) : LongBody '\x27' false run s s := by
  induction s generalizing run best with
  | nil => exact .nil
  | cons c s ih =>
    rw [List.any_cons, Bool.or_eq_false_iff] at control
    rw [longestRun] at runs
    split at runs
    · rename_i quote
      subst quote
      have hrun : run + 1 ≤ 2 :=
        Nat.le_trans (Nat.le_max_right best (run + 1)) (Nat.le_trans (le_longestRun _ _ _ _) runs)
      exact .quote hrun (ih control.2 runs)
    · rename_i quote
      by_cases feed : c = '\n'
      · subst feed
        exact .feed (ih control.2 runs)
      · exact .plain (isTextChar_of_not_isControl control.1 feed) quote (fun _ => rfl)
          (ih control.2 runs)

/-! ### The kinds of strings -/

/-- What the choice of a kind has ruled out. -/
theorem styleOf_holds (s : List Char) :
    (styleOf s = .literal → s.any isControl = false ∧ '\n' ∉ s ∧ '\x27' ∉ s ∧ s ≠ []) ∧
    (styleOf s = .longLiteral → s.any isControl = false ∧ longestRun '\x27' 0 0 s ≤ 2) := by
  unfold styleOf
  dsimp only
  split
  · exact ⟨nofun, nofun⟩
  rename_i hbasic
  split
  · rename_i hliteral
    simp only [Bool.and_eq_true, Bool.not_eq_true', List.contains_eq_mem, decide_eq_false_iff_not]
      at hliteral
    refine ⟨fun _ => ⟨hliteral.1.1, hliteral.1.2, hliteral.2, ?_⟩, nofun⟩
    rintro rfl
    exact hbasic rfl
  split
  · exact ⟨nofun, nofun⟩
  split
  · rename_i hlong
    simp only [Bool.and_eq_true, Bool.not_eq_true', decide_eq_true_eq] at hlong
    exact ⟨nofun, fun _ => hlong⟩
  split
  · exact ⟨nofun, nofun⟩
  · exact ⟨nofun, nofun⟩

/-- A body begins with the end of a line only where its text does. -/
theorem LongBody.lineEnd? {q : Char} {escapes : Bool} {run : Nat} {w s : List Char}
    (hq : IsQuote q) (h : LongBody q escapes run w s) (feed : '\n' ∉ s) (r : List Char) :
    lineEnd? (w ++ q :: r) = none := by
  have hquote : q ≠ '\n' ∧ q ≠ '\r' := by
    rcases hq with rfl | rfl
    · decide
    · decide
  cases h with
  | nil => exact lineEnd?_eq_none hquote.1 hquote.2 _
  | quote => exact lineEnd?_eq_none hquote.1 hquote.2 _
  | feed => exact absurd List.mem_cons_self feed
  | plain text => exact lineEnd?_eq_none (isTextChar_ne text).1 (isTextChar_ne text).2 _
  | escaped => exact lineEnd?_eq_none (by decide) (by decide) _

/-- The line break that is written behind the opening quotes is all that is dropped there. -/
theorem dropFirstLineEnd_opening {q : Char} {escapes : Bool} {w s : List Char} (hq : IsQuote q)
    (h : LongBody q escapes 0 w s) (r : List Char) :
    dropFirstLineEnd (opening s ++ (w ++ q :: r)) = w ++ q :: r := by
  unfold opening
  split
  · rfl
  · rename_i feed
    rw [List.contains_eq_mem, decide_eq_true_eq] at feed
    rw [List.nil_append, dropFirstLineEnd, h.lineEnd? hq feed]
    rfl

theorem LongBody.length_le {q : Char} {escapes : Bool} {run : Nat} {w s : List Char}
    (h : LongBody q escapes run w s) : s.length ≤ w.length := by
  induction h with
  | nil => exact Nat.le_refl 0
  | quote few rest ih => exact Nat.succ_le_succ ih
  | feed rest ih => exact Nat.succ_le_succ ih
  | plain text quote slash rest ih => exact Nat.succ_le_succ ih
  | escaped on reads visible rest ih =>
    simp only [List.length_cons, List.length_append]
    omega

theorem toList_tripled (q : Char) (s w : List Char) (c : Char) (r : List Char) :
    tripled q (opening s ++ w) ++ c :: r =
      q :: q :: q :: (opening s ++ (w ++ q :: q :: q :: c :: r)) := by
  simp [tripled]

/-- **A text is read back as it was written**, whatever it holds and whichever kind of string
    was chosen for it. -/
theorem string?_writeChars (s : List Char) {c : Char} (hdouble : c ≠ '"') (hsingle : c ≠ '\x27')
    (r : List Char) : string? (writeChars s ++ c :: r) = some (s, c :: r) := by
  obtain ⟨hliteral, hlong⟩ := styleOf_holds s
  have hdoubled : IsQuote '"' := .inl rfl
  have hsingled : IsQuote '\x27' := .inr rfl
  rw [writeChars]
  cases hstyle : styleOf s with
  | basic =>
    have h := string?_basic s hdouble r
    simpa only [List.cons_append, List.append_assoc, List.nil_append] using h
  | literal =>
    obtain ⟨control, feed, quote, hne⟩ := hliteral hstyle
    have htext : ∀ d ∈ s, isTextChar d = true ∧ d ≠ '\x27' := by
      intro d hd
      have hcontrol : isControl d = false := List.any_eq_false.1 control d hd |> Bool.eq_false_iff.2
      refine ⟨isTextChar_of_not_isControl hcontrol ?_, ?_⟩
      · rintro rfl
        exact feed hd
      · rintro rfl
        exact quote hd
    have h := string?_literal hne htext (c :: r)
    simpa only [List.cons_append, List.append_assoc, List.nil_append] using h
  | longBasic =>
    have body := longBody_basicChars (Nat.zero_le 2) s
    have hlength := body.length_le
    show string? (tripled '"' (opening s ++ basicChars true 0 s) ++ c :: r) = some (s, c :: r)
    rw [toList_tripled]
    show longBody? '"' true _ (dropFirstLineEnd _) = _
    rw [dropFirstLineEnd_opening hdoubled body, body.read hdoubled (Nat.zero_le 2) hdouble]
    simp only [List.length_cons, List.length_append]
    omega
  | longLiteral =>
    obtain ⟨control, runs⟩ := hlong hstyle
    have body := longBody_self control runs
    show string? (tripled '\x27' (opening s ++ s) ++ c :: r) = some (s, c :: r)
    rw [toList_tripled]
    show longBody? '\x27' false _ (dropFirstLineEnd _) = _
    rw [dropFirstLineEnd_opening hsingled body, body.read hsingled (Nat.zero_le 2) hsingle]
    simp only [List.length_cons, List.length_append]
    omega

/-! ### Values -/

/-- What is written begins with a quote. -/
theorem exists_cons_writeChars (s : List Char) : ∃ q w, writeChars s = q :: w ∧ IsQuote q := by
  unfold writeChars
  split
  · exact ⟨'"', _, rfl, .inl rfl⟩
  · exact ⟨'\x27', _, rfl, .inr rfl⟩
  · exact ⟨'"', _, rfl, .inl rfl⟩
  · exact ⟨'\x27', _, rfl, .inr rfl⟩

theorem value?_writeChars (depth : Nat) (t : String) {c : Char} (hdouble : c ≠ '"')
    (hsingle : c ≠ '\x27') (r : List Char) :
    value? depth (writeChars t.toList ++ c :: r) = some (.string t, c :: r) := by
  have hread := string?_writeChars t.toList hdouble hsingle r
  obtain ⟨q, w, hw, hq⟩ := exists_cons_writeChars t.toList
  rw [hw, List.cons_append] at hread ⊢
  rcases hq with rfl | rfl
  · rw [value?, hread]
    simp
  · rw [value?, hread]
    simp

theorem skipTrivia_writeChars (t : List Char) (r : List Char) :
    skipTrivia false (writeChars t ++ r) = writeChars t ++ r := by
  obtain ⟨q, w, hw, hq⟩ := exists_cons_writeChars t
  rw [hw, List.cons_append]
  rcases hq with rfl | rfl
  · rfl
  · rfl

theorem writeChars_ne_closing (t r r' : List Char) : writeChars t ++ r ≠ ']' :: r' := by
  obtain ⟨q, w, hw, hq⟩ := exists_cons_writeChars t
  rw [hw, List.cons_append]
  intro h
  injection h with h _
  rcases hq with rfl | rfl
  · exact absurd h (by decide)
  · exact absurd h (by decide)

/-- An item of a list on a line of its own. -/
def itemLine (t : String) : List Char :=
  [' ', ' ', ' ', ' '] ++ (writeChars t.toList ++ [',', '\n'])

theorem skipTrivia_itemLine (t : String) (r : List Char) :
    skipTrivia false ('\n' :: (itemLine t ++ r)) = writeChars t.toList ++ ',' :: '\n' :: r := by
  have h := skipTrivia_writeChars t.toList (',' :: '\n' :: r)
  simpa [itemLine, skipTrivia, isSpace] using h

/-- Items on lines of their own, up to the closing bracket. -/
theorem arrayItems?_itemLines (depth : Nat) (ts : List String) (r : List Char) {bound : List Char}
    (hb : ts.length < bound.length) :
    arrayItems? (value? depth) bound ('\n' :: (ts.flatMap itemLine ++ ']' :: r)) =
      some (ts.map Value.string, r) := by
  induction ts generalizing bound with
  | nil =>
    cases bound with
    | nil => cases hb
    | cons b bound => rfl
  | cons t ts ih =>
    cases bound with
    | nil => cases hb
    | cons b bound =>
      rw [List.flatMap_cons, List.append_assoc, arrayItems?_next, ih (Nat.lt_of_succ_lt_succ hb)]
      · rfl
      · intro r'
        rw [skipTrivia_itemLine]
        exact writeChars_ne_closing _ _ _
      · rw [skipTrivia_itemLine]
        exact value?_writeChars depth t (by decide) (by decide) _

/-- How a list of texts is written, character by character. -/
theorem toList_writeList (ts : List String) : (writeList ts).toList = '[' ::
    (match ts with
      | [] => [']']
      | [t] => writeChars t.toList ++ [']']
      | ts => '\n' :: (ts.flatMap itemLine ++ [']'])) := by
  have hjoin (ts : List String) : (String.join (ts.map fun s => "    " ++ write s ++ ",\n")).toList =
      ts.flatMap itemLine := by
    have hitem (t : String) : ("    " ++ write t ++ ",\n").toList = itemLine t := by
      simp [itemLine, write]
    rw [String.toList_join, List.flatMap_map]
    simp only [hitem]
  match ts with
  | [] => rfl
  | [t] => simp [writeList, write]
  | t :: u :: ts =>
    rw [writeList, String.toList_append, String.toList_append, hjoin]
    · rfl
    · nofun
    · nofun

theorem length_le_flatMap_itemLine (ts : List String) : ts.length ≤ (ts.flatMap itemLine).length := by
  induction ts with
  | nil => exact Nat.le_refl 0
  | cons t ts ih =>
    simp only [List.flatMap_cons, itemLine, List.length_append, List.length_cons] at ih ⊢
    omega

/-- **A list of texts is read back as it was written.** -/
theorem value?_writeList (depth : Nat) (ts : List String) (r : List Char) :
    value? (depth + 1) ((writeList ts).toList ++ r) = some (.array (ts.map Value.string), r) := by
  rw [toList_writeList, List.cons_append]
  match ts with
  | [] => rfl
  | [t] =>
    simp only [List.append_assoc, List.singleton_append]
    rw [value?, arrayItems?_last (v := .string t)]
    · rfl
    · intro r'
      rw [skipTrivia_writeChars]
      exact writeChars_ne_closing _ _ _
    · rw [skipTrivia_writeChars]
      exact value?_writeChars depth t (by decide) (by decide) r
  | t :: u :: ts =>
    have hlength := length_le_flatMap_itemLine (t :: u :: ts)
    simp only [List.cons_append, List.append_assoc, List.nil_append]
    rw [value?, arrayItems?_itemLines]
    · rfl
    · simp only [List.length_cons, List.length_append] at hlength ⊢
      omega

theorem spells_write (t : String) : Spells (write t).toList (.string t) := by
  have hw : (write t).toList = writeChars t.toList := String.toList_ofList
  constructor
  · intro r
    rw [hw]
    exact value?_writeChars 79 t (by decide) (by decide) r
  · intro r
    obtain ⟨q, w, hq, hquote⟩ := exists_cons_writeChars t.toList
    rw [hw, hq]
    rcases hquote with rfl | rfl
    · rfl
    · rfl

theorem spells_writeList (ts : List String) :
    Spells (writeList ts).toList (.array (ts.map Value.string)) := by
  constructor
  · intro r
    exact value?_writeList 78 ts ('\n' :: r)
  · intro r
    rw [toList_writeList]
    rfl

/-- A text as the writer writes it. -/
def PlainValue.ofText (t : String) : PlainValue := .written (write t).toList (.string t) (spells_write t)

/-- A list of texts as the writer writes it. -/
def PlainValue.ofTexts (ts : List String) : PlainValue :=
  .written (writeList ts).toList (.array (ts.map .string)) (spells_writeList ts)

end GrammarBuild.Toml
