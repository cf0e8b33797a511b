import GrammarBuild.Json.Reader
import GrammarBuild.Json.Writer

/-
  GrammarBuild/Proofs/JsonRoundTrip.lean
  ======================================
  **What is written as JSON is read back** — `read? (pretty j) = some j` for every value
  that is built of texts, arrays and objects (`read?_pretty`).

  The reader is given fuel, one unit for each nested value, item or character.  Each
  lemma asks for more fuel than the text that it reads has characters, so that the fuel
  for a part follows from the fuel for the whole by counting characters.
-/

namespace GrammarBuild.Json

/-! ### Values without numbers -/

mutual

/-- Whether a value is spelled in one way only: it holds no number, which keeps its
    spelling, and no text that is none. -/
def plain : Json → Bool
  | null | bool _ | string _ => true
  | number _ | unpaired => false
  | array items => plainItems items
  | object members => plainMembers members

def plainItems : List Json → Bool
  | [] => true
  | j :: js => j.plain && plainItems js

def plainMembers : List (Option String × Json) → Bool
  | [] => true
  | (k, j) :: ms => k.isSome && j.plain && plainMembers ms

end

theorem plainItems_eq_all (js : List Json) : plainItems js = js.all plain := by
  induction js with
  | nil => rfl
  | cons j js ih => simp [plainItems, ih]

theorem plain_ofMembers (ms : List (String × Json)) :
    (ofMembers ms).plain = ms.all fun m => m.2.plain := by
  simp only [ofMembers, plain]
  induction ms with
  | nil => rfl
  | cons m ms ih => simp [plainMembers, ih]

/-! ### Texts -/

theorem hexValue?_hexChar : ∀ n < 16, hexValue? (hexChar n) = some n := by decide

/-- The escape of a control character that has no letter of its own. -/
theorem escape?_control (c : Char) (hc : c.toNat < 0x20) (r : List Char) :
    escape? ('u' :: '0' :: '0' :: hexChar (c.toNat / 16) :: hexChar (c.toNat % 16) :: r) =
      some (some c, r) := by
  have h0 : hexValue? '0' = some 0 := by decide
  have h1 := hexValue?_hexChar (c.toNat / 16) (by omega)
  have h2 := hexValue?_hexChar (c.toNat % 16) (by omega)
  have hn : ((0 * 16 + 0) * 16 + c.toNat / 16) * 16 + c.toNat % 16 = c.toNat := by omega
  have hu : unit? ('0' :: '0' :: hexChar (c.toNat / 16) :: hexChar (c.toNat % 16) :: r) =
      some (c.toNat, r) := by
    simp only [unit?, h0, h1, h2, Option.bind_eq_bind, Option.bind_some, hn]
    rfl
  have hlt : c.toNat < 0xD800 := by omega
  simp only [escape?, hu, Option.bind_eq_bind, Option.bind_some, hlt, true_or, if_true,
    Char.ofNat_toNat]
  rfl

/-- One written character is read back, and one unit of fuel is spent on it. -/
theorem body?_escapeChar (c : Char) (fuel : Nat) (r : List Char) :
    body? (fuel + 1) (escapeChar c ++ r) =
      (body? fuel r).map fun (t, r) => (t.map (c :: ·), r) := by
  have hback (e : List Char) (he : escape? (e ++ r) = some (some c, r)) :
      body? (fuel + 1) ('\\' :: (e ++ r)) =
        (body? fuel r).map fun (t, r) => (t.map (c :: ·), r) := by
    simp only [body?, he, Option.bind_eq_bind, Option.bind_some]
    cases body? fuel r with
    | none => rfl
    | some p => cases h : p.1 <;> simp [h]
  unfold escapeChar
  split
  · subst_vars; exact hback ['"'] rfl
  split
  · subst_vars; exact hback ['\\'] rfl
  split
  · subst_vars; exact hback ['b'] rfl
  split
  · subst_vars; exact hback ['f'] rfl
  split
  · subst_vars; exact hback ['n'] rfl
  split
  · subst_vars; exact hback ['r'] rfl
  split
  · subst_vars; exact hback ['t'] rfl
  split
  · rename_i hc
    exact hback ['u', '0', '0', hexChar (c.toNat / 16), hexChar (c.toNat % 16)]
      (escape?_control c hc r)
  · rename_i hq hb _ _ _ _ _ hc
    rw [List.singleton_append, body?]
    · simp only [hc, if_false]
    · exact hq
    · exact hb

/-- A written text is read back up to its closing quote. -/
theorem body?_flatMap (s r : List Char) (fuel : Nat) (h : s.length < fuel) :
    body? fuel (s.flatMap escapeChar ++ '"' :: r) = some (some s, r) := by
  induction s generalizing fuel with
  | nil =>
    obtain ⟨f, rfl⟩ : ∃ f, fuel = f + 1 := ⟨fuel - 1, by simp at h; omega⟩
    rfl
  | cons c s ih =>
    obtain ⟨f, rfl⟩ : ∃ f, fuel = f + 1 := ⟨fuel - 1, by omega⟩
    rw [List.flatMap_cons, List.append_assoc, body?_escapeChar,
      ih f (by simpa using h)]
    rfl

theorem length_le_flatMap_escapeChar (s : List Char) :
    s.length ≤ (s.flatMap escapeChar).length := by
  induction s with
  | nil => simp
  | cons c s ih =>
    have hc : 1 ≤ (escapeChar c).length := by
      unfold escapeChar
      repeat' split
      all_goals simp
    simp only [List.flatMap_cons, List.length_append, List.length_cons]
    omega

theorem text?_quoted (s : String) (r : List Char) (fuel : Nat)
    (h : (quoted s).length < fuel + 1) :
    text? fuel (s.toList.flatMap escapeChar ++ '"' :: r) = some (some s, r) := by
  have hl := length_le_flatMap_escapeChar s.toList
  have hf : s.toList.length < fuel := by
    simp only [quoted, List.length_cons, List.length_append, List.length_nil] at h
    omega
  rw [text?, body?_flatMap s.toList r fuel hf]
  simp

/-! ### Blanks -/

theorem skipSpace_newLine (depth : Nat) (r : List Char) :
    skipSpace (newLine depth ++ r) = skipSpace r := by
  have hs : isSpace ' ' = true := by decide
  have hn : isSpace '\n' = true := by decide
  have hr (n : Nat) : skipSpace (List.replicate n ' ' ++ r) = skipSpace r := by
    induction n with
    | zero => rfl
    | succ n ih =>
      simp only [skipSpace, List.replicate_succ, List.cons_append, List.dropWhile_cons, hs,
        if_true] at ih ⊢
      exact ih
  simp only [skipSpace, newLine, List.cons_append, List.dropWhile_cons, hn, if_true] at hr ⊢
  exact hr (2 * depth)

theorem skipSpace_blank (r : List Char) : skipSpace (' ' :: r) = skipSpace r := rfl

/-- A character that a value can begin with: no blank and no closing bracket. -/
def isOpening (c : Char) : Bool := !isSpace c && c != ']' && c != '\x7d'

theorem skipSpace_cons {c : Char} (hc : isOpening c = true) (r : List Char) :
    skipSpace (c :: r) = c :: r := by
  simp only [isOpening, Bool.and_eq_true, Bool.not_eq_true'] at hc
  simp [skipSpace, hc.1.1]

theorem skipSpace_closing (c : Char) (r : List Char) (hc : isSpace c = false) :
    skipSpace (c :: r) = c :: r := by
  simp [skipSpace, hc]

/-- A written value does not begin with a blank or a closing bracket. -/
theorem prettyChars_head (j : Json) (hj : j.plain = true) (depth : Nat) :
    ∃ c r, prettyChars depth j = c :: r ∧ isOpening c = true := by
  have hq : isOpening '"' = true := by decide
  have hn : isOpening 'n' = true := by decide
  have ht : isOpening 't' = true := by decide
  have hf : isOpening 'f' = true := by decide
  have ha : isOpening '[' = true := by decide
  have ho : isOpening '\x7b' = true := by decide
  cases j with
  | null => exact ⟨_, _, rfl, hn⟩
  | bool b =>
    cases b with
    | true => exact ⟨_, _, rfl, ht⟩
    | false => exact ⟨_, _, rfl, hf⟩
  | number l => simp [plain] at hj
  | string s => exact ⟨_, _, rfl, hq⟩
  | unpaired => simp [plain] at hj
  | array items =>
    cases items with
    | nil => exact ⟨_, _, rfl, ha⟩
    | cons j js => exact ⟨_, _, rfl, ha⟩
  | object members =>
    cases members with
    | nil => exact ⟨_, _, rfl, ho⟩
    | cons m ms => exact ⟨_, _, rfl, ho⟩

theorem prettyItems_head (j : Json) (js : List Json) (hj : j.plain = true) (depth : Nat)
    (r : List Char) :
    ∃ c s, prettyItems depth (j :: js) ++ r = c :: s ∧ isOpening c = true := by
  obtain ⟨c, s, hc, ho⟩ := prettyChars_head j hj depth
  cases js with
  | nil => exact ⟨c, s ++ r, by simp [prettyItems, hc], ho⟩
  | cons j' js =>
    exact ⟨c, s ++ ',' :: (newLine depth ++ (prettyItems depth (j' :: js) ++ r)),
      by simp [prettyItems, hc], ho⟩

theorem prettyMembers_head (k : String) (j : Json) (ms : List (Option String × Json))
    (depth : Nat) (r : List Char) :
    ∃ s, prettyMembers depth ((some k, j) :: ms) ++ r = '"' :: s := by
  cases ms with
  | nil => exact ⟨_, rfl⟩
  | cons m ms => exact ⟨_, rfl⟩

/-! ### Values -/

/-- The first characters of an array with items: its items follow the line break. -/
theorem value?_array (fuel depth : Nat) (j : Json) (js : List Json) (hj : j.plain = true)
    (r : List Char) :
    value? (fuel + 1) (prettyChars depth (array (j :: js)) ++ r) =
      (items? fuel (prettyItems (depth + 1) (j :: js) ++ (newLine depth ++ ']' :: r))).map
        fun (js, r) => (array js, r) := by
  obtain ⟨c, s, hs, hc⟩ :=
    prettyItems_head j js hj (depth + 1) (newLine depth ++ ']' :: r)
  simp only [prettyChars, List.cons_append, List.append_assoc, List.nil_append, value?,
    skipSpace_newLine, hs, skipSpace_cons hc]
  split
  · rename_i hb
    injection hb with hb
    subst hb
    exact absurd hc (by decide)
  · rfl

/-- The first characters of an object with members. -/
theorem value?_object (fuel depth : Nat) (k : String) (j : Json)
    (ms : List (Option String × Json)) (r : List Char) :
    value? (fuel + 1) (prettyChars depth (object ((some k, j) :: ms)) ++ r) =
      (members? fuel (prettyMembers (depth + 1) ((some k, j) :: ms)
        ++ (newLine depth ++ '\x7d' :: r))).map fun (ms, r) => (object ms, r) := by
  obtain ⟨s, hs⟩ := prettyMembers_head k j ms (depth + 1) (newLine depth ++ '\x7d' :: r)
  simp only [prettyChars, List.cons_append, List.append_assoc, List.nil_append, value?,
    skipSpace_newLine, hs, skipSpace_cons (c := '"') (by decide)]
  rfl

mutual

/-- A written value is read back, whatever follows it. -/
theorem value?_prettyChars (j : Json) (hj : j.plain = true) (depth fuel : Nat) (r : List Char)
    (h : (prettyChars depth j).length < fuel) :
    value? fuel (prettyChars depth j ++ r) = some (j, r) := by
  obtain ⟨f, rfl⟩ : ∃ f, fuel = f + 1 := ⟨fuel - 1, by omega⟩
  match j with
  | null => rfl
  | bool true => rfl
  | bool false => rfl
  | number l => simp [plain] at hj
  | unpaired => simp [plain] at hj
  | string s =>
    have ht := text?_quoted s r f (by simpa [prettyChars, compactChars] using h)
    simp only [prettyChars, compactChars, quoted, List.cons_append, List.append_assoc,
      List.nil_append, value?, ht, Option.map_some]
  | array [] => rfl
  | array (j :: js) =>
    simp only [plain, plainItems, Bool.and_eq_true] at hj
    rw [value?_array f depth j js hj.1 r, items?_prettyItems j js hj.1 hj.2]
    · rfl
    · simp only [prettyChars, List.length_cons, List.length_append] at h
      omega
  | object [] => rfl
  | object ((some k, j) :: ms) =>
    simp only [plain, plainMembers, Bool.and_eq_true] at hj
    rw [value?_object f depth k j ms r, members?_prettyMembers k j ms hj.1.2 hj.2]
    · rfl
    · simp only [prettyChars, List.length_cons, List.length_append] at h
      omega
  | object ((none, j) :: ms) => simp [plain, plainMembers] at hj
termination_by fuel

/-- The items of an array are read back up to its closing bracket. -/
theorem items?_prettyItems (j : Json) (js : List Json) (hj : j.plain = true)
    (hjs : plainItems js = true) (depth fuel outer : Nat) (r : List Char)
    (h : (prettyItems depth (j :: js)).length + 1 < fuel) :
    items? fuel (prettyItems depth (j :: js) ++ (newLine outer ++ ']' :: r)) =
      some (j :: js, r) := by
  obtain ⟨f, rfl⟩ : ∃ f, fuel = f + 1 := ⟨fuel - 1, by omega⟩
  match js with
  | [] =>
    have hv := value?_prettyChars j hj depth f (newLine outer ++ ']' :: r)
      (by simp only [prettyItems] at h; omega)
    simp only [prettyItems, items?, hv, Option.bind_eq_bind, Option.bind_some,
      skipSpace_newLine, skipSpace_closing ']' r (by decide)]
    rfl
  | j' :: js =>
    simp only [plainItems, Bool.and_eq_true] at hjs
    simp only [prettyItems, List.length_append, List.length_cons] at h
    have hv := value?_prettyChars j hj depth f
      (',' :: (newLine depth ++ prettyItems depth (j' :: js)) ++ (newLine outer ++ ']' :: r))
      (by omega)
    have hi := items?_prettyItems j' js hjs.1 hjs.2 depth f outer r (by omega)
    obtain ⟨c, s, hs, hc⟩ := prettyItems_head j' js hjs.1 depth (newLine outer ++ ']' :: r)
    simp only [prettyItems, List.append_assoc, List.cons_append] at hv ⊢
    simp only [items?, hv, Option.bind_eq_bind, Option.bind_some,
      skipSpace_closing ',' _ (by decide), skipSpace_newLine]
    rw [hs, skipSpace_cons hc, ← hs, hi]
    rfl
termination_by fuel

/-- The members of an object are read back up to its closing brace. -/
theorem members?_prettyMembers (k : String) (j : Json) (ms : List (Option String × Json))
    (hj : j.plain = true) (hms : plainMembers ms = true) (depth fuel outer : Nat)
    (r : List Char) (h : (prettyMembers depth ((some k, j) :: ms)).length + 1 < fuel) :
    members? fuel (prettyMembers depth ((some k, j) :: ms) ++ (newLine outer ++ '\x7d' :: r)) =
      some ((some k, j) :: ms, r) := by
  obtain ⟨f, rfl⟩ : ∃ f, fuel = f + 1 := ⟨fuel - 1, by omega⟩
  match ms with
  | [] =>
    simp only [prettyMembers, quotedKey, List.length_append, List.length_cons] at h
    have ht := text?_quoted k (':' :: ' ' :: (prettyChars depth j ++ (newLine outer ++ '\x7d' :: r)))
      f (by omega)
    have hv := value?_prettyChars j hj depth f (newLine outer ++ '\x7d' :: r) (by omega)
    obtain ⟨c, s, hs, hc⟩ := prettyChars_head j hj depth
    simp only [prettyMembers, quotedKey, quoted, members?, List.cons_append, List.append_assoc,
      List.nil_append, ht, Option.bind_eq_bind, Option.bind_some,
      skipSpace_closing ':' _ (by decide)]
    rw [skipSpace_blank, hs, List.cons_append, skipSpace_cons hc, ← List.cons_append, ← hs, hv]
    simp only [Option.bind_some, skipSpace_newLine, skipSpace_closing '\x7d' r (by decide)]
    rfl
  | (none, j') :: ms => simp [plainMembers] at hms
  | (some k', j') :: ms =>
    simp only [plainMembers, Bool.and_eq_true] at hms
    simp only [prettyMembers, quotedKey, List.length_append, List.length_cons] at h
    have hm := members?_prettyMembers k' j' ms hms.1.2 hms.2 depth f outer r (by omega)
    obtain ⟨s', hs'⟩ := prettyMembers_head k' j' ms depth (newLine outer ++ '\x7d' :: r)
    have ht := text?_quoted k (':' :: ' ' :: (prettyChars depth j ++ (',' :: (newLine depth ++
      (prettyMembers depth ((some k', j') :: ms) ++ (newLine outer ++ '\x7d' :: r))))))
      f (by omega)
    have hv := value?_prettyChars j hj depth f (',' :: (newLine depth ++
      (prettyMembers depth ((some k', j') :: ms) ++ (newLine outer ++ '\x7d' :: r)))) (by omega)
    obtain ⟨c, s, hs, hc⟩ := prettyChars_head j hj depth
    simp only [prettyMembers, quotedKey, quoted, members?, List.cons_append, List.append_assoc,
      List.nil_append, ht, Option.bind_eq_bind, Option.bind_some,
      skipSpace_closing ':' _ (by decide)]
    rw [skipSpace_blank, hs, List.cons_append, skipSpace_cons hc, ← List.cons_append, ← hs, hv]
    simp only [Option.bind_some, skipSpace_closing ',' _ (by decide), skipSpace_newLine]
    rw [hs', skipSpace_cons (c := '"') (by decide), ← hs', hm]
    rfl
termination_by fuel

end

/-- A value that is written over several lines is read back. -/
theorem read?_pretty (j : Json) (hj : j.plain = true) : read? j.pretty = some j := by
  obtain ⟨c, s, hs, hc⟩ := prettyChars_head j hj 0
  have hv := value?_prettyChars j hj 0 ((prettyChars 0 j).length + 1) [] (by omega)
  rw [List.append_nil] at hv
  have hskip : skipSpace (prettyChars 0 j) = prettyChars 0 j := by
    rw [hs, skipSpace_cons hc]
  simp only [read?, pretty, readChars?, String.toList_ofList, hskip, hv]
  rfl

end GrammarBuild.Json
