import GrammarBuild.Json.Reader

/-
  GrammarBuild/Proofs/JsonGrammar.lean
  ====================================
  **The grammar of JSON** — which characters spell which value, told without a reader:
  numbers (`Numeral`), texts (`Quoted`), values with blanks between their parts (`Spells`).

  The reader keeps to it: each of its steps takes off the front of a text what the
  grammar derives, so a text that is read is one value between blanks
  (`document_of_read?`), and one that is not derived is not read.

  Half of a surrogate pair stands for no character.  A text with such a half is no text
  (`none`), whatever else is in it.
-/

namespace GrammarBuild.Json

/-! ### Numbers -/

/-- At least one digit. -/
def Digits (s : List Char) : Prop := s ≠ [] ∧ ∀ c ∈ s, isDigit c = true

/-- A single zero, or digits that do not begin with zero. -/
def Whole (s : List Char) : Prop := s = ['0'] ∨ (Digits s ∧ s.head? ≠ some '0')

def Fraction (s : List Char) : Prop := s = [] ∨ ∃ d, Digits d ∧ s = '.' :: d

def Exponent (s : List Char) : Prop :=
  s = [] ∨ ∃ mark sign d, isExponentMark mark = true ∧ sign ∈ [[], ['+'], ['-']] ∧ Digits d ∧
    s = mark :: (sign ++ d)

def Numeral (s : List Char) : Prop :=
  ∃ sign w f e, sign ∈ [[], ['-']] ∧ Whole w ∧ Fraction f ∧ Exponent e ∧
    s = sign ++ (w ++ (f ++ e))

/-! ### Texts -/

/-- Four hexadecimal digits and the number that they spell. -/
inductive SpellsUnit : Nat → List Char → Prop where
  | mk {a b c d : Char} {x y z w : Nat} (first : hexValue? a = some x) (second : hexValue? b = some y)
    (third : hexValue? c = some z) (fourth : hexValue? d = some w) :
    SpellsUnit (((x * 16 + y) * 16 + z) * 16 + w) [a, b, c, d]

/-- What is written for one character between quotes.  Half of a surrogate pair is
    written like a character and stands for none. -/
inductive SpellsChar : Option Char → List Char → Prop where
  | plain {c : Char} (quote : c ≠ '"') (backslash : c ≠ '\\') (control : 0x20 ≤ c.toNat) :
    SpellsChar (some c) [c]
  | letter {e c : Char} (escape : simpleEscape? e = some c) : SpellsChar (some c) ['\\', e]
  | unit {u : Nat} {s : List Char} (spelled : SpellsUnit u s) (whole : u < 0xD800 ∨ 0xDFFF < u) :
    SpellsChar (some (Char.ofNat u)) ('\\' :: 'u' :: s)
  | pair {u v : Nat} {s t : List Char} (first : SpellsUnit u s) (second : SpellsUnit v t)
    (high : 0xD800 ≤ u ∧ u < 0xDC00) (low : 0xDC00 ≤ v ∧ v ≤ 0xDFFF) :
    SpellsChar (some (Char.ofNat (0x10000 + (u - 0xD800) * 0x400 + (v - 0xDC00))))
      ('\\' :: 'u' :: (s ++ '\\' :: 'u' :: t))
  | half {u : Nat} {s : List Char} (spelled : SpellsUnit u s) (surrogate : 0xD800 ≤ u ∧ u ≤ 0xDFFF) :
    SpellsChar none ('\\' :: 'u' :: s)

/-- What is written between quotes, character by character. -/
inductive SpellsChars : Option (List Char) → List Char → Prop where
  | nil : SpellsChars (some []) []
  | cons {c : Option Char} {t : Option (List Char)} {s r : List Char} (first : SpellsChar c s)
    (rest : SpellsChars t r) : SpellsChars (do let c ← c; let t ← t; pure (c :: t)) (s ++ r)

/-- A text between quotes. -/
def Quoted (t : Option String) (s : List Char) : Prop :=
  ∃ cs body, SpellsChars cs body ∧ t = cs.map String.ofList ∧ s = '"' :: (body ++ ['"'])

/-! ### Values -/

/-- Nothing but blanks. -/
def Blanks (s : List Char) : Prop := ∀ c ∈ s, isSpace c = true

mutual

/-- The characters of a value. -/
inductive Spells : Json → List Char → Prop where
  | null : Spells null "null".toList
  | true : Spells (bool true) "true".toList
  | false : Spells (bool false) "false".toList
  | number {s : List Char} (numeral : Numeral s) : Spells (number (String.ofList s)) s
  | string {t : String} {s : List Char} (quoted : Quoted (some t) s) : Spells (string t) s
  | unpaired {s : List Char} (quoted : Quoted none s) : Spells unpaired s
  | array {js : List Json} {s : List Char} (items : SpellsItems js s) :
    Spells (array js) ('[' :: (s ++ [']']))
  | object {ms : List (Option String × Json)} {s : List Char} (members : SpellsMembers ms s) :
    Spells (object ms) ('\x7b' :: (s ++ ['\x7d']))

/-- The characters between the brackets of an array. -/
inductive SpellsItems : List Json → List Char → Prop where
  | none {b : List Char} (blank : Blanks b) : SpellsItems [] b
  | last {j : Json} {b v b' : List Char} (before : Blanks b) (item : Spells j v)
    (after : Blanks b') : SpellsItems [j] (b ++ (v ++ b'))
  | more {j j' : Json} {js : List Json} {b v b' s : List Char} (before : Blanks b)
    (item : Spells j v) (after : Blanks b') (rest : SpellsItems (j' :: js) s) :
    SpellsItems (j :: j' :: js) (b ++ (v ++ (b' ++ ',' :: s)))

/-- The characters between the braces of an object. -/
inductive SpellsMembers : List (Option String × Json) → List Char → Prop where
  | none {b : List Char} (blank : Blanks b) : SpellsMembers [] b
  | last {k : Option String} {j : Json} {b q b₁ b₂ v b' : List Char} (before : Blanks b)
    (key : Quoted k q) (blank₁ : Blanks b₁) (blank₂ : Blanks b₂) (value : Spells j v)
    (after : Blanks b') : SpellsMembers [(k, j)] (b ++ (q ++ (b₁ ++ ':' :: (b₂ ++ (v ++ b')))))
  | more {k : Option String} {j : Json} {m : Option String × Json}
    {ms : List (Option String × Json)} {b q b₁ b₂ v b' s : List Char} (before : Blanks b)
    (key : Quoted k q) (blank₁ : Blanks b₁) (blank₂ : Blanks b₂) (value : Spells j v)
    (after : Blanks b') (rest : SpellsMembers (m :: ms) s) :
    SpellsMembers ((k, j) :: m :: ms)
      (b ++ (q ++ (b₁ ++ ':' :: (b₂ ++ (v ++ (b' ++ ',' :: s))))))

end

/-- A text that is one value, blanks aside. -/
def Document (j : Json) (s : List Char) : Prop :=
  ∃ b v b', Blanks b ∧ Spells j v ∧ Blanks b' ∧ s = b ++ (v ++ b')

/-! ### Numbers are read by the grammar -/

variable {s r : List Char}

theorem digits_of_digits? {d : List Char} (h : digits? s = some (d, r)) : Digits d ∧ s = d ++ r := by
  unfold digits? at h
  split at h
  · cases h
  · rename_i hne
    injection h with h
    injection h with hd hr
    subst hd hr
    refine ⟨⟨hne, fun c hc => ?_⟩, List.takeWhile_append_dropWhile.symm⟩
    exact List.all_eq_true.1 List.all_takeWhile c hc

theorem whole_of_whole? {w : List Char} (h : whole? s = some (w, r)) : Whole w ∧ s = w ++ r := by
  unfold whole? at h
  split at h
  · split at h
    · cases h
    · injection h with h
      injection h with hw hr
      subst hw hr
      exact ⟨.inl rfl, rfl⟩
  · rename_i hzero
    obtain ⟨hd, rfl⟩ := digits_of_digits? h
    refine ⟨.inr ⟨hd, fun h0 => ?_⟩, rfl⟩
    cases w with
    | nil => cases h0
    | cons c w =>
      injection h0 with h0
      subst h0
      exact hzero _ rfl

theorem fraction_of_fraction? {f : List Char} (h : fraction? s = some (f, r)) :
    Fraction f ∧ s = f ++ r := by
  unfold fraction? at h
  split at h
  · obtain ⟨⟨d, r'⟩, hd, he⟩ := Option.map_eq_some_iff.1 h
    injection he with hf hr
    subst hf hr
    obtain ⟨hdigits, rfl⟩ := digits_of_digits? hd
    exact ⟨.inr ⟨d, hdigits, rfl⟩, rfl⟩
  · injection h with h
    injection h with hf hr
    subst hf hr
    exact ⟨.inl rfl, rfl⟩

theorem exponent_of_exponent? {e : List Char} (h : exponent? s = some (e, r)) :
    Exponent e ∧ s = e ++ r := by
  have marked {c : Char} {s' : List Char} (sign : List Char) (hc : isExponentMark c = true)
      (hsign : sign ∈ [[], ['+'], ['-']])
      (hd : ((digits? s').map fun d => (c :: (sign ++ d.1), d.2)) = some (e, r)) :
      Exponent e ∧ c :: (sign ++ s') = e ++ r := by
    obtain ⟨⟨d, r'⟩, hdig, he⟩ := Option.map_eq_some_iff.1 hd
    injection he with he hr
    subst he hr
    obtain ⟨hdigits, rfl⟩ := digits_of_digits? hdig
    exact ⟨.inr ⟨c, sign, d, hc, hsign, hdigits, rfl⟩, by simp⟩
  unfold exponent? at h
  split at h
  · injection h with h
    injection h with he hr
    subst he hr
    exact ⟨.inl rfl, rfl⟩
  split at h
  · rename_i hc
    split at h
    · exact marked ['+'] hc (by simp) h
    · exact marked ['-'] hc (by simp) h
    · exact marked [] hc (by simp) h
  · injection h with h
    injection h with he hr
    subst he hr
    exact ⟨.inl rfl, rfl⟩

theorem spells_of_number? {j : Json} (h : number? s = some (j, r)) :
    ∃ v, s = v ++ r ∧ Spells j v := by
  unfold number? at h
  split at h
  rename_i sign s' hsplit
  have hsign : sign ∈ [[], ['-']] ∧ s = sign ++ s' := by
    split at hsplit <;> (injection hsplit with h₁ h₂; subst h₁ h₂; simp)
  obtain ⟨⟨w, s₁⟩, hw, h⟩ := Option.bind_eq_some_iff.1 h
  obtain ⟨⟨f, s₂⟩, hf, h⟩ := Option.bind_eq_some_iff.1 h
  obtain ⟨⟨e, s₃⟩, he, h⟩ := Option.bind_eq_some_iff.1 h
  injection h with h
  injection h with hj hr
  subst hj hr
  obtain ⟨hwhole, rfl⟩ := whole_of_whole? hw
  obtain ⟨hfraction, rfl⟩ := fraction_of_fraction? hf
  obtain ⟨hexponent, rfl⟩ := exponent_of_exponent? he
  refine ⟨sign ++ w ++ f ++ e, by simp [hsign.2], .number ?_⟩
  exact ⟨sign, w, f, e, hsign.1, hwhole, hfraction, hexponent, by simp⟩

/-! ### Texts are read by the grammar -/

theorem spellsUnit_of_unit? {u : Nat} (h : unit? s = some (u, r)) :
    ∃ v, s = v ++ r ∧ SpellsUnit u v := by
  unfold unit? at h
  split at h
  · rename_i a b c d r'
    obtain ⟨x, hx, h⟩ := Option.bind_eq_some_iff.1 h
    obtain ⟨y, hy, h⟩ := Option.bind_eq_some_iff.1 h
    obtain ⟨z, hz, h⟩ := Option.bind_eq_some_iff.1 h
    obtain ⟨w, hw, h⟩ := Option.bind_eq_some_iff.1 h
    injection h with h
    injection h with hu hr
    subst hu hr
    exact ⟨[a, b, c, d], rfl, .mk hx hy hz hw⟩
  · cases h

/-- An escape is written for one character, or for half of a pair. -/
theorem spellsChar_of_escape? {c : Option Char} (h : escape? s = some (c, r)) :
    ∃ v, s = v ++ r ∧ SpellsChar c ('\\' :: v) := by
  unfold escape? at h
  split at h
  · obtain ⟨⟨u, s₁⟩, hu, hrest⟩ := Option.bind_eq_some_iff.1 h
    obtain ⟨v, rfl, hv⟩ := spellsUnit_of_unit? hu
    have half (hs : 0xD800 ≤ u ∧ u ≤ 0xDFFF) (h : some (none, s₁) = some (c, r)) :
        ∃ w, 'u' :: (v ++ s₁) = w ++ r ∧ SpellsChar c ('\\' :: w) := by
      injection h with h
      injection h with hc hr
      subst hc hr
      exact ⟨'u' :: v, rfl, .half hv hs⟩
    simp only at hrest
    split at hrest
    · rename_i hwhole
      injection hrest with he
      injection he with hc hr
      subst hc hr
      exact ⟨'u' :: v, rfl, .unit hv hwhole⟩
    rename_i hsurrogate
    split at hrest
    · rename_i hhigh
      split at hrest
      · rename_i s₂
        obtain ⟨⟨u', s₃⟩, hu', hpair⟩ := Option.bind_eq_some_iff.1 hrest
        obtain ⟨v', rfl, hv'⟩ := spellsUnit_of_unit? hu'
        simp only at hpair
        split at hpair
        · rename_i hlow
          injection hpair with he
          injection he with hc hr
          subst hc hr
          exact ⟨'u' :: (v ++ '\\' :: 'u' :: v'), by simp, .pair hv hv' (by omega) hlow⟩
        · exact half (by omega) hpair
      · exact half (by omega) hrest
    · exact half (by omega) hrest
  · obtain ⟨e, he, hrest⟩ := Option.map_eq_some_iff.1 h
    injection hrest with hc hr
    subst hc hr
    exact ⟨[_], rfl, .letter he⟩
  · cases h

theorem spellsChars_of_body? {t : Option (List Char)} {fuel : Nat}
    (h : body? fuel s = some (t, r)) : ∃ v, s = v ++ '"' :: r ∧ SpellsChars t v := by
  induction fuel, s using body?.induct generalizing t r with
  | case1 => simp [body?] at h
  | case2 fuel => simp [body?] at h
  | case3 fuel s =>
    injection h with h
    injection h with ht hr
    subst ht hr
    exact ⟨[], rfl, .nil⟩
  | case4 fuel s ih =>
    obtain ⟨⟨c, s₁⟩, hc, h₁⟩ := Option.bind_eq_some_iff.1 h
    obtain ⟨⟨t', s₂⟩, ht, h₂⟩ := Option.bind_eq_some_iff.1 h₁
    injection h₂ with he
    injection he with hj hr
    subst hj hr
    obtain ⟨v, rfl, hv⟩ := spellsChar_of_escape? hc
    obtain ⟨w, rfl, hw⟩ := ih _ ht
    exact ⟨'\\' :: v ++ w, by simp, .cons hv hw⟩
  | case5 fuel c s hquote hbackslash hcontrol =>
    simp [body?, hcontrol] at h
  | case6 fuel c s hquote hbackslash hcontrol ih =>
    simp only [body?, if_neg hcontrol] at h
    obtain ⟨⟨t', s₁⟩, ht, he⟩ := Option.map_eq_some_iff.1 h
    injection he with ht' hr
    subst ht' hr
    obtain ⟨v, rfl, hv⟩ := ih ht
    have hc : SpellsChar (some c) [c] := .plain hquote hbackslash (by omega)
    have ht' : t'.map (c :: ·) = (do let c ← some c; let t ← t'; pure (c :: t)) := by
      cases t' <;> rfl
    exact ⟨c :: v, rfl, ht' ▸ .cons hc hv⟩

theorem quoted_of_text? {t : Option String} {fuel : Nat} (h : text? fuel s = some (t, r)) :
    ∃ v, '"' :: s = v ++ r ∧ Quoted t v := by
  obtain ⟨⟨cs, r'⟩, hb, he⟩ := Option.map_eq_some_iff.1 h
  injection he with ht hr
  subst ht hr
  obtain ⟨v, rfl, hv⟩ := spellsChars_of_body? hb
  exact ⟨'"' :: (v ++ ['"']), by simp, cs, v, hv, rfl, rfl⟩

/-! ### Values are read by the grammar -/

theorem eq_append_of_word? {w : List Char} {j j' : Json} (h : word? w j s = some (j', r)) :
    s = w ++ r ∧ j' = j := by
  unfold word? at h
  split at h
  · rename_i hw
    obtain ⟨t, rfl⟩ := List.isPrefixOf_iff_prefix.1 hw
    injection h with h
    injection h with hj hr
    subst hj hr
    simp
  · cases h

theorem blanks_skipSpace (s : List Char) : ∃ b, Blanks b ∧ s = b ++ skipSpace s :=
  ⟨s.takeWhile isSpace, fun c hc => List.all_eq_true.1 List.all_takeWhile c hc,
    List.takeWhile_append_dropWhile.symm⟩

theorem Blanks.append {b b' : List Char} (hb : Blanks b) (hb' : Blanks b') : Blanks (b ++ b') := by
  intro c hc
  rcases List.mem_append.1 hc with h | h
  · exact hb c h
  · exact hb' c h

/-- Blanks may stand before the items of an array. -/
theorem SpellsItems.blank_append {js : List Json} {b v : List Char} (hb : Blanks b)
    (h : SpellsItems js v) : SpellsItems js (b ++ v) := by
  cases h with
  | none blank => exact .none (hb.append blank)
  | last before item after =>
    rw [← List.append_assoc]
    exact .last (hb.append before) item after
  | more before item after rest =>
    rw [← List.append_assoc]
    exact .more (hb.append before) item after rest

/-- Blanks may stand before the members of an object. -/
theorem SpellsMembers.blank_append {ms : List (Option String × Json)} {b v : List Char}
    (hb : Blanks b) (h : SpellsMembers ms v) : SpellsMembers ms (b ++ v) := by
  cases h with
  | none blank => exact .none (hb.append blank)
  | last before key blank₁ blank₂ value after =>
    rw [← List.append_assoc]
    exact .last (hb.append before) key blank₁ blank₂ value after
  | more before key blank₁ blank₂ value after rest =>
    rw [← List.append_assoc]
    exact .more (hb.append before) key blank₁ blank₂ value after rest

/-- What the three readers of values, items and members take off the front of a text when
    they may read `fuel` values. -/
structure Keeps (fuel : Nat) : Prop where
  value {s r : List Char} {j : Json} (h : value? fuel s = some (j, r)) :
    ∃ v, s = v ++ r ∧ Spells j v
  items {s r : List Char} {js : List Json} (h : items? fuel s = some (js, r)) :
    ∃ v, s = v ++ ']' :: r ∧ js ≠ [] ∧ SpellsItems js v
  members {s r : List Char} {ms : List (Option String × Json)}
    (h : members? fuel s = some (ms, r)) :
    ∃ v, s = v ++ '\x7d' :: r ∧ ms ≠ [] ∧ SpellsMembers ms v

theorem keeps_zero : Keeps 0 where
  value h := by cases h
  items h := by cases h
  members h := by cases h

variable {fuel : Nat}

theorem Keeps.value_succ (k : Keeps fuel) {j : Json} (h : value? (fuel + 1) s = some (j, r)) :
    ∃ v, s = v ++ r ∧ Spells j v := by
  unfold value? at h
  split at h
  · obtain ⟨⟨t, r'⟩, ht, he⟩ := Option.map_eq_some_iff.1 h
    injection he with hj hr
    subst hj hr
    obtain ⟨v, hv, hq⟩ := quoted_of_text? ht
    cases t with
    | none => exact ⟨v, hv, .unpaired hq⟩
    | some t => exact ⟨v, hv, .string hq⟩
  · rename_i s'
    obtain ⟨b, hb, hs⟩ := blanks_skipSpace s'
    split at h
    · rename_i r' hr'
      injection h with he
      injection he with hj hr
      subst hj hr
      refine ⟨'[' :: (b ++ [']']), ?_, .array (.none hb)⟩
      rw [hs, hr']
      simp
    · obtain ⟨⟨js, r'⟩, hjs, he⟩ := Option.map_eq_some_iff.1 h
      injection he with hj hr
      subst hj hr
      obtain ⟨v, hv, -, hitems⟩ := k.items hjs
      refine ⟨'[' :: ((b ++ v) ++ [']']), ?_, .array (hitems.blank_append hb)⟩
      rw [hs, hv]
      simp
  · rename_i s'
    obtain ⟨b, hb, hs⟩ := blanks_skipSpace s'
    split at h
    · rename_i r' hr'
      injection h with he
      injection he with hj hr
      subst hj hr
      refine ⟨'\x7b' :: (b ++ ['\x7d']), ?_, .object (.none hb)⟩
      rw [hs, hr']
      simp
    · obtain ⟨⟨ms, r'⟩, hms, he⟩ := Option.map_eq_some_iff.1 h
      injection he with hj hr
      subst hj hr
      obtain ⟨v, hv, -, hmembers⟩ := k.members hms
      refine ⟨'\x7b' :: ((b ++ v) ++ ['\x7d']), ?_, .object (hmembers.blank_append hb)⟩
      rw [hs, hv]
      simp
  · obtain ⟨hs, rfl⟩ := eq_append_of_word? h
    exact ⟨_, hs, .null⟩
  · obtain ⟨hs, rfl⟩ := eq_append_of_word? h
    exact ⟨_, hs, .true⟩
  · obtain ⟨hs, rfl⟩ := eq_append_of_word? h
    exact ⟨_, hs, .false⟩
  · exact spells_of_number? h

theorem Keeps.items_succ (k : Keeps fuel) {js : List Json}
    (h : items? (fuel + 1) s = some (js, r)) :
    ∃ v, s = v ++ ']' :: r ∧ js ≠ [] ∧ SpellsItems js v := by
  unfold items? at h
  obtain ⟨⟨j, s₁⟩, hj, hrest⟩ := Option.bind_eq_some_iff.1 h
  obtain ⟨v, rfl, hv⟩ := k.value hj
  obtain ⟨b, hb, hs⟩ := blanks_skipSpace s₁
  simp only at hrest
  split at hrest
  · rename_i r' hr'
    injection hrest with he
    injection he with hjs hr
    subst hjs hr
    refine ⟨[] ++ (v ++ b), ?_, by simp, .last (by simp [Blanks]) hv hb⟩
    rw [hs, hr']
    simp
  · rename_i s₂ hs₂
    obtain ⟨⟨js', s₃⟩, hjs', hend⟩ := Option.bind_eq_some_iff.1 hrest
    injection hend with he
    injection he with hjs hr
    subst hjs hr
    obtain ⟨b', hb', hs'⟩ := blanks_skipSpace s₂
    obtain ⟨w, hw, hne, hitems⟩ := k.items hjs'
    obtain ⟨j', js', rfl⟩ := List.exists_cons_of_ne_nil hne
    refine ⟨[] ++ (v ++ (b ++ ',' :: (b' ++ w))), ?_, by simp,
      .more (by simp [Blanks]) hv hb (hitems.blank_append hb')⟩
    rw [hs, hs₂, hs', hw]
    simp
  · cases hrest

theorem Keeps.members_succ (k : Keeps fuel) {ms : List (Option String × Json)}
    (h : members? (fuel + 1) s = some (ms, r)) :
    ∃ v, s = v ++ '\x7d' :: r ∧ ms ≠ [] ∧ SpellsMembers ms v := by
  unfold members? at h
  split at h
  case h_2 => cases h
  obtain ⟨⟨key, s₁⟩, hkey, hrest⟩ := Option.bind_eq_some_iff.1 h
  obtain ⟨q, hq, hquoted⟩ := quoted_of_text? hkey
  obtain ⟨b₁, hb₁, hs₁⟩ := blanks_skipSpace s₁
  simp only at hrest
  split at hrest
  case h_2 => cases hrest
  rename_i s₂ hs₂
  obtain ⟨b₂, hb₂, hs₂'⟩ := blanks_skipSpace s₂
  obtain ⟨⟨j, s₃⟩, hj, hend⟩ := Option.bind_eq_some_iff.1 hrest
  obtain ⟨v, hv, hvalue⟩ := k.value hj
  obtain ⟨b, hb, hs₃⟩ := blanks_skipSpace s₃
  simp only at hend
  split at hend
  · rename_i r' hr'
    injection hend with he
    injection he with hms hr
    subst hms hr
    refine ⟨[] ++ (q ++ (b₁ ++ ':' :: (b₂ ++ (v ++ b)))), ?_, by simp,
      .last (by simp [Blanks]) hquoted hb₁ hb₂ hvalue hb⟩
    rw [hq, hs₁, hs₂, hs₂', hv, hs₃, hr']
    simp
  · rename_i s₄ hs₄
    obtain ⟨⟨ms', s₅⟩, hms', hlast⟩ := Option.bind_eq_some_iff.1 hend
    injection hlast with he
    injection he with hms hr
    subst hms hr
    obtain ⟨b', hb', hs'⟩ := blanks_skipSpace s₄
    obtain ⟨w, hw, hne, hmembers⟩ := k.members hms'
    obtain ⟨m, ms', rfl⟩ := List.exists_cons_of_ne_nil hne
    refine ⟨[] ++ (q ++ (b₁ ++ ':' :: (b₂ ++ (v ++ (b ++ ',' :: (b' ++ w)))))), ?_, by simp,
      .more (by simp [Blanks]) hquoted hb₁ hb₂ hvalue hb (hmembers.blank_append hb')⟩
    rw [hq, hs₁, hs₂, hs₂', hv, hs₃, hs₄, hs', hw]
    simp
  · cases hend

theorem keeps : (fuel : Nat) → Keeps fuel
  | 0 => keeps_zero
  | fuel + 1 =>
    { value := (keeps fuel).value_succ
      items := (keeps fuel).items_succ
      members := (keeps fuel).members_succ }

/-- A text that is read is one value between blanks. -/
theorem document_of_read? {text : String} {j : Json} (h : read? text = some j) :
    Document j text.toList := by
  unfold read? readChars? at h
  split at h
  · rename_i j' r hv
    split at h
    · rename_i hend
      injection h with h
      subst h
      obtain ⟨b, hb, hs⟩ := blanks_skipSpace text.toList
      obtain ⟨v, hv', hspells⟩ := (keeps _).value hv
      obtain ⟨b', hb', hr⟩ := blanks_skipSpace r
      have hnil : skipSpace r = [] := List.isEmpty_iff.1 hend
      refine ⟨b, v, b', hb, hspells, hb', ?_⟩
      rw [hs, hv', hr, hnil]
      simp
    · cases h
  · cases h

end GrammarBuild.Json
