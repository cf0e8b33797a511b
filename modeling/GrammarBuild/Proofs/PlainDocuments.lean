import GrammarBuild.Manifest.Declaration
import Mathlib.Data.List.Basic

/-
  GrammarBuild/Proofs/PlainDocuments.lean
  =======================================
  **Plain TOML documents** — headers, bare keys, and values that are texts or lists of
  texts, a line each.  A text stands between double quotes as it is, which is right
  only if all its characters are harmless there; what is written in another way is
  known to be read (`Spells`).

  A plain document is read line by line, and every line has the effect it stands for
  (`readChars?_document`).  So a manifest in plain lines declares what its lines make
  (`Declaration.read_text`).
-/

namespace GrammarBuild.Toml

/-! ### Texts between double quotes -/

/-- A character that stands for itself between double quotes. -/
def isHarmless (c : Char) : Bool := isTextChar c && c != '"' && c != '\\'

/-- A text that stands for itself between double quotes. -/
def Harmless (t : String) : Prop := ∀ c ∈ t.toList, isHarmless c = true

instance (t : String) : Decidable (Harmless t) :=
  decidable_of_iff (t.toList.all isHarmless = true) List.all_eq_true

theorem isHarmless_iff {c : Char} :
    isHarmless c = true ↔ isTextChar c = true ∧ c ≠ '"' ∧ c ≠ '\\' := by
  simp [isHarmless, and_assoc]

theorem basicBody?_harmless {t : List Char} (h : ∀ c ∈ t, isHarmless c = true) (r : List Char)
    {bound : List Char} (hb : t.length < bound.length) :
    basicBody? bound (t ++ '"' :: r) = some (t, r) := by
  induction t generalizing bound with
  | nil =>
    cases bound with
    | nil => cases hb
    | cons b bound => rfl
  | cons c t ih =>
    cases bound with
    | nil => cases hb
    | cons b bound =>
      obtain ⟨htext, hquote, hslash⟩ := isHarmless_iff.1 (h c List.mem_cons_self)
      have hrest := ih (fun d hd => h d (List.mem_cons_of_mem c hd)) (Nat.lt_of_succ_lt_succ hb)
      rw [List.cons_append, basicBody?, if_pos htext, hrest]
      · rfl
      · exact hquote
      · exact hslash

/-- Three quotes in a row begin another kind of string. -/
theorem string?_eq {s : List Char} (h : ∀ r, s ≠ '"' :: '"' :: r) :
    string? ('"' :: s) = basicBody? ('"' :: s) s := by
  unfold string?
  split
  · rename_i r hs
    injection hs with _ hs
    exact absurd hs (h r)
  · rename_i hs
    injection hs with hs _
    cases hs
  · rename_i hs
    injection hs with _ hs
    rw [hs]
  · rename_i hs
    injection hs with hs _
    cases hs
  · rename_i hs _
    exact absurd rfl (hs s)

/-- How a text is written. -/
def quoted (t : String) : List Char := '"' :: (t.toList ++ ['"'])

theorem quoted_append (t : String) (r : List Char) :
    quoted t ++ r = '"' :: (t.toList ++ '"' :: r) := by
  simp [quoted]

/-- A written text is read back where no third quote follows it. -/
theorem string?_quoted {t : String} (h : Harmless t) {c : Char} (hc : c ≠ '"') (r : List Char) :
    string? (quoted t ++ c :: r) = some (t.toList, c :: r) := by
  rw [quoted_append, string?_eq]
  · exact basicBody?_harmless h (c :: r) (by simp only [List.length_cons, List.length_append]; omega)
  · intro r' hr
    cases ht : t.toList with
    | nil =>
      rw [ht] at hr
      injection hr with _ hr
      injection hr with hr _
      exact hc hr
    | cons d s =>
      rw [ht] at hr
      injection hr with hr _
      exact (isHarmless_iff.1 (h d (ht ▸ List.mem_cons_self))).2.1 hr

theorem value?_quoted (depth : Nat) {t : String} (h : Harmless t) {c : Char} (hc : c ≠ '"')
    (r : List Char) : value? depth (quoted t ++ c :: r) = some (.string t, c :: r) := by
  have hs := string?_quoted h hc r
  rw [quoted_append] at hs ⊢
  rw [value?, hs]
  simp

/-! ### Lists of texts -/

/-- How the items of a list are written. -/
def quotedItems : List String → List Char
  | [] => []
  | [t] => quoted t
  | t :: ts => quoted t ++ ',' :: ' ' :: quotedItems ts

theorem skipTrivia_quoted (t : String) (r : List Char) :
    skipTrivia false (quoted t ++ r) = quoted t ++ r := by
  rw [quoted_append]
  rfl

theorem arrayItems?_blank (item : Reader Value) (bound r : List Char) :
    arrayItems? item bound (' ' :: r) = arrayItems? item bound r := by
  cases bound with
  | nil => rfl
  | cons b bound => rfl

/-- An item of an array whose closing bracket comes next. -/
theorem arrayItems?_last {item : Reader Value} {s r : List Char} {v : Value}
    (hs : ∀ r, skipTrivia false s ≠ ']' :: r)
    (hv : item (skipTrivia false s) = some (v, ']' :: r)) (b : Char) (bound : List Char) :
    arrayItems? item (b :: bound) s = some ([v], r) := by
  rw [arrayItems?]
  split
  · rename_i r' hr
    exact absurd hr (hs r')
  · rw [hv]
    rfl

/-- An item of an array that a comma separates from the next. -/
theorem arrayItems?_next {item : Reader Value} {s r : List Char} {v : Value}
    (hs : ∀ r, skipTrivia false s ≠ ']' :: r)
    (hv : item (skipTrivia false s) = some (v, ',' :: r)) (b : Char) (bound : List Char) :
    arrayItems? item (b :: bound) s =
      (arrayItems? item bound r).bind fun (vs, r) => some (v :: vs, r) := by
  rw [arrayItems?]
  split
  · rename_i r' hr
    exact absurd hr (hs r')
  · rw [hv]
    rfl

/-- A list of written texts up to its closing bracket. -/
theorem arrayItems?_quotedItems (depth : Nat) {ts : List String} (h : ∀ t ∈ ts, Harmless t)
    (r bound : List Char) (hb : ts.length < bound.length) :
    arrayItems? (value? depth) bound (quotedItems ts ++ ']' :: r) =
      some (ts.map Value.string, r) := by
  induction ts generalizing bound with
  | nil =>
    cases bound with
    | nil => cases hb
    | cons b bound => rfl
  | cons t ts ih =>
    cases bound with
    | nil => cases hb
    | cons b bound =>
      have ht := h t List.mem_cons_self
      have hrest := ih (fun u hu => h u (List.mem_cons_of_mem t hu)) bound (Nat.lt_of_succ_lt_succ hb)
      have hopen (s : List Char) (r : List Char) :
          skipTrivia false (quoted t ++ s) ≠ ']' :: r := by
        rw [skipTrivia_quoted, quoted_append]
        intro hs
        injection hs with hs _
        exact absurd hs (by decide)
      cases ts with
      | nil =>
        apply arrayItems?_last (hopen _)
        rw [skipTrivia_quoted]
        exact value?_quoted depth ht (by decide) r
      | cons u ts =>
        simp only [quotedItems, List.append_assoc, List.cons_append]
        rw [arrayItems?_next (hopen _), arrayItems?_blank, hrest]
        · rfl
        · rw [skipTrivia_quoted]
          exact value?_quoted depth ht (by decide) _

/-- How a list of texts is written. -/
def quotedList (ts : List String) : List Char := '[' :: (quotedItems ts ++ [']'])

theorem length_le_quotedItems (ts : List String) : ts.length ≤ (quotedItems ts).length := by
  induction ts with
  | nil => simp
  | cons t ts ih =>
    cases ts with
    | nil => simp [quotedItems, quoted]
    | cons u ts =>
      simp only [quotedItems, List.length_append, List.length_cons] at ih ⊢
      omega

theorem value?_quotedList (depth : Nat) {ts : List String} (h : ∀ t ∈ ts, Harmless t)
    (r : List Char) :
    value? (depth + 1) (quotedList ts ++ r) = some (.array (ts.map Value.string), r) := by
  have hl := length_le_quotedItems ts
  have hitems := arrayItems?_quotedItems depth h r
    ('[' :: (quotedItems ts ++ ']' :: r)) (by simp; omega)
  simp only [quotedList, List.cons_append, List.append_assoc, List.nil_append]
  rw [value?, hitems]
  rfl

/-! ### Keys -/

/-- A key that needs no quotes. -/
def BareKey (k : String) : Prop := k.toList ≠ [] ∧ ∀ c ∈ k.toList, isBareKeyChar c = true

instance (k : String) : Decidable (BareKey k) :=
  decidable_of_iff (k.toList ≠ [] ∧ k.toList.all isBareKeyChar = true)
    (and_congr_right fun _ => List.all_eq_true)

theorem isBareKeyChar_ne {c : Char} (h : isBareKeyChar c = true) :
    c ≠ '"' ∧ c ≠ '\x27' ∧ c ≠ '[' ∧ c ≠ '#' ∧ c ≠ '\n' ∧ c ≠ '\r' ∧ isSpace c = false := by
  refine ⟨?_, ?_, ?_, ?_, ?_, ?_, ?_⟩
  iterate 6
    · rintro rfl
      exact absurd h (by decide)
  · cases hs : isSpace c with
    | false => rfl
    | true =>
      simp only [isSpace, Bool.or_eq_true, beq_iff_eq] at hs
      rcases hs with rfl | rfl
      · exact absurd h (by decide)
      · exact absurd h (by decide)

variable {k : String}

theorem BareKey.exists_cons (h : BareKey k) :
    ∃ c s, k.toList = c :: s ∧ isBareKeyChar c = true := by
  cases hk : k.toList with
  | nil => exact absurd hk h.1
  | cons c s => exact ⟨c, s, rfl, h.2 c (hk ▸ List.mem_cons_self)⟩

theorem keyPart?_bare (h : BareKey k) {c : Char} (hc : isBareKeyChar c = false) (r : List Char) :
    keyPart? (k.toList ++ c :: r) = some (k, c :: r) := by
  have htake : (k.toList ++ c :: r).takeWhile isBareKeyChar = k.toList := by
    rw [List.takeWhile_append_of_pos h.2, List.takeWhile_cons_of_neg (by simp [hc]),
      List.append_nil]
  have hdrop : (k.toList ++ c :: r).dropWhile isBareKeyChar = c :: r := by
    rw [List.dropWhile_append_of_pos h.2, List.dropWhile_cons_of_neg (by simp [hc])]
  obtain ⟨d, s, hk, hd⟩ := h.exists_cons
  obtain ⟨hquote, hsingle, -⟩ := isBareKeyChar_ne hd
  rw [hk] at htake hdrop ⊢
  unfold keyPart?
  split
  · rename_i hs
    injection hs with hs _
    exact absurd hs hquote
  · rename_i hs
    injection hs with hs _
    exact absurd hs hsingle
  · rw [htake, hdrop]
    show some (String.ofList (d :: s), c :: r) = some (k, c :: r)
    rw [← hk, String.ofList_toList]

/-- A key ends where no dot follows. -/
theorem keyRest?_end (k : String) (rest : Reader (List String)) (r : List Char) :
    (∀ s, r ≠ '.' :: s) → (match r with
      | '.' :: r => (rest r).bind fun (parts, r) => some (k :: parts, r)
      | r => some ([k], r)) = some ([k], r) := by
  intro hdot
  split
  · rename_i r'
    exact absurd rfl (hdot r')
  · rfl

/-- A key of one bare part. -/
theorem key?_bare (h : BareKey k) {c : Char} (hc : isBareKeyChar c = false) {r : List Char}
    (hdot : ∀ s, skipSpace (c :: r) ≠ '.' :: s) :
    key? (k.toList ++ c :: r) = some (([], k), skipSpace (c :: r)) := by
  obtain ⟨d, s, hk, hd⟩ := h.exists_cons
  have hskip : skipSpace (k.toList ++ c :: r) = k.toList ++ c :: r := by
    rw [hk, List.cons_append, skipSpace, List.dropWhile_cons_of_neg]
    simp [(isBareKeyChar_ne hd).2.2.2.2.2.2]
  have hparts : keyParts? 79 (k.toList ++ c :: r) = some ([k], skipSpace (c :: r)) := by
    rw [keyParts?, hskip, keyPart?_bare h hc r]
    exact keyRest?_end k (keyParts? 78) _ hdot
  rw [key?, hparts]
  rfl

/-- How a key is written that need not be bare. -/
def keyChars (k : String) : List Char := if BareKey k then k.toList else quoted k

theorem keyPart?_keyChars (h : Harmless k) {c : Char} (hc : isBareKeyChar c = false) (r : List Char) :
    keyPart? (keyChars k ++ c :: r) = some (k, c :: r) := by
  unfold keyChars
  split
  · rename_i bare
    exact keyPart?_bare bare hc r
  · rw [quoted_append]
    have hbound : k.toList.length < ('"' :: (k.toList ++ '"' :: c :: r)).length := by
      simp only [List.length_cons, List.length_append]
      omega
    have hbody := basicBody?_harmless h (c :: r) hbound
    simp only [keyPart?, hbody, Option.map_some, String.ofList_toList]

theorem skipSpace_keyChars (k : String) (r : List Char) : skipSpace (keyChars k ++ r) = keyChars k ++ r := by
  unfold keyChars
  split
  · rename_i bare
    obtain ⟨c, s, hk, hc⟩ := bare.exists_cons
    rw [hk, List.cons_append, skipSpace, List.dropWhile_cons_of_neg]
    simp [(isBareKeyChar_ne hc).2.2.2.2.2.2]
  · rw [quoted_append]
    rfl

/-- A key of two parts, up to the bracket that closes its header. -/
theorem key?_pair {l : String} (hk : BareKey k) (hl : Harmless l) (r : List Char) :
    key? (k.toList ++ '.' :: (keyChars l ++ ']' :: r)) = some (([k], l), ']' :: r) := by
  have hlast : keyParts? 78 (keyChars l ++ ']' :: r) = some ([l], ']' :: r) := by
    rw [keyParts?, skipSpace_keyChars, keyPart?_keyChars hl (by decide) r]
    rfl
  have hskip : skipSpace (k.toList ++ '.' :: (keyChars l ++ ']' :: r)) =
      k.toList ++ '.' :: (keyChars l ++ ']' :: r) := by
    have hchars := skipSpace_keyChars k ('.' :: (keyChars l ++ ']' :: r))
    rwa [keyChars, if_pos hk] at hchars
  have hparts : keyParts? 79 (k.toList ++ '.' :: (keyChars l ++ ']' :: r)) =
      some ([k, l], ']' :: r) := by
    rw [keyParts?, hskip, keyPart?_bare hk (by decide)]
    show (keyParts? 78 (keyChars l ++ ']' :: r)).bind (fun p => some (k :: p.1, p.2)) = _
    rw [hlast]
    rfl
  rw [key?, hparts]
  rfl

/-! ### Lines -/

/-- What is written so in a line is read as the value, up to the line's end. -/
structure Spells (w : List Char) (v : Value) : Prop where
  reads : ∀ r, topValue? (w ++ '\n' :: r) = some (v, '\n' :: r)
  visible : ∀ r, skipSpace (' ' :: (w ++ r)) = w ++ r

/-- The values of plain documents. -/
inductive PlainValue where
  | text (t : String)
  | texts (ts : List String)
  /-- A value that is written in some other way. -/
  | written (w : List Char) (v : Value) (spells : Spells w v)

namespace PlainValue

def chars : PlainValue → List Char
  | text t => quoted t
  | texts ts => quotedList ts
  | written w _ _ => w

/-- The value that is written. -/
def value : PlainValue → Value
  | text t => .string t
  | texts ts => .array (ts.map .string)
  | written _ v _ => v

/-- All texts are harmless. -/
def Readable : PlainValue → Prop
  | text t => Harmless t
  | texts ts => ∀ t ∈ ts, Harmless t
  | written _ _ _ => True

instance : (v : PlainValue) → Decidable v.Readable
  | text t => inferInstanceAs (Decidable (Harmless t))
  | texts ts => inferInstanceAs (Decidable (∀ t ∈ ts, Harmless t))
  | written _ _ _ => inferInstanceAs (Decidable True)

theorem topValue?_chars {v : PlainValue} (h : v.Readable) (r : List Char) :
    topValue? (v.chars ++ '\n' :: r) = some (v.value, '\n' :: r) := by
  cases v with
  | text t => exact value?_quoted 79 h (by decide) r
  | texts ts => exact value?_quotedList 78 h ('\n' :: r)
  | written w v spells => exact spells.reads r

theorem skipSpace_chars (v : PlainValue) (r : List Char) :
    skipSpace (' ' :: (v.chars ++ r)) = v.chars ++ r := by
  cases v with
  | text t => rfl
  | texts ts => rfl
  | written w v spells => exact spells.visible r

end PlainValue

/-- The lines of plain documents. -/
inductive PlainLine where
  | blank
  /-- `[k]` -/
  | table (k : String)
  /-- `[k.l]`, with `l` between double quotes if it is not bare -/
  | tableIn (k l : String)
  /-- `[[k]]` -/
  | item (k : String)
  /-- `k = v` -/
  | pair (k : String) (v : PlainValue)

namespace PlainLine

/-- The line with its end. -/
def chars : PlainLine → List Char
  | blank => ['\n']
  | table k => '[' :: (k.toList ++ [']', '\n'])
  | tableIn k l => '[' :: (k.toList ++ '.' :: (keyChars l ++ [']', '\n']))
  | item k => '[' :: '[' :: (k.toList ++ [']', ']', '\n'])
  | pair k v => k.toList ++ ' ' :: '=' :: ' ' :: (v.chars ++ ['\n'])

/-- What the line does to a document in the making. -/
def effect (d : Draft) : PlainLine → Option Draft
  | blank => some d
  | table k => d.openTable [] k
  | tableIn k l => d.openTable [k] l
  | item k => d.openItem [] k
  | pair k v => d.put [] k v.value

/-- Keys are bare and texts harmless. -/
def Readable : PlainLine → Prop
  | blank => True
  | table k => BareKey k
  | tableIn k l => BareKey k ∧ Harmless l
  | item k => BareKey k
  | pair k v => BareKey k ∧ v.Readable

instance : (l : PlainLine) → Decidable l.Readable
  | blank => inferInstanceAs (Decidable True)
  | table k => inferInstanceAs (Decidable (BareKey k))
  | tableIn k l => inferInstanceAs (Decidable (BareKey k ∧ Harmless l))
  | item k => inferInstanceAs (Decidable (BareKey k))
  | pair k v => inferInstanceAs (Decidable (BareKey k ∧ v.Readable))

end PlainLine

theorem lineEnd?_eq_none {c : Char} (feed : c ≠ '\n') (back : c ≠ '\r') (r : List Char) :
    lineEnd? (c :: r) = none := by
  unfold lineEnd?
  split
  · rename_i hs
    injection hs with hs _
    exact absurd hs feed
  · rename_i hs
    injection hs with hs _
    exact absurd hs back
  · rfl

/-- What begins like neither a comment nor a line's end goes on in its line. -/
theorem restOfLine?_eq_none {c : Char} (hspace : isSpace c = false)
    (hmark : c ≠ '#' ∧ c ≠ '\n' ∧ c ≠ '\r') (r : List Char) : restOfLine? (c :: r) = none := by
  obtain ⟨hcomment, hfeed, hreturn⟩ := hmark
  have hskip : skipSpace (c :: r) = c :: r := by
    rw [skipSpace, List.dropWhile_cons_of_neg (by simp [hspace])]
  simp [restOfLine?, hskip, hcomment, lineEnd?_eq_none hfeed hreturn]

/-- A line that is neither blank nor a comment is an expression. -/
theorem lines?_expression (fuel : Nat) (d : Draft) {c : Char} (hspace : isSpace c = false)
    (hmark : c ≠ '#' ∧ c ≠ '\n' ∧ c ≠ '\r') (r : List Char) :
    lines? (fuel + 1) d (c :: r) =
      (expression? d (c :: r)).bind fun (d, r) => lines? fuel d r := by
  have hskip : skipSpace (c :: r) = c :: r := by
    rw [skipSpace, List.dropWhile_cons_of_neg (by simp [hspace])]
  have hrest := restOfLine?_eq_none hspace hmark r
  rw [lines?, hskip]
  simp only [hrest]
  rfl

/-- An effect on the document whose line ends there. -/
theorem bind_restOfLine? (o : Option Draft) (r : List Char) :
    (o.bind fun d => (restOfLine? ('\n' :: r)).bind fun r => some (d, r)) =
      o.map fun d => (d, r) := by
  cases o with
  | none => rfl
  | some d => rfl

namespace PlainLine

/-- A header whose key does not begin with another bracket. -/
theorem expression?_header {path : List String} {s : List Char} (hopen : ∀ r, s ≠ '[' :: r) {r : List Char}
    (hkey : key? s = some ((path, k), ']' :: '\n' :: r)) (d : Draft) :
    expression? d ('[' :: s) = (d.openTable path k).map fun d => (d, r) := by
  unfold expression?
  split
  · rename_i hs
    injection hs with _ hs
    exact absurd hs (hopen _)
  · rename_i hs
    injection hs with _ hs
    subst hs
    rw [hkey]
    exact bind_restOfLine? (d.openTable path k) r
  · rename_i hs
    exact absurd rfl (hs _)

theorem ne_bracket_of_bare (h : BareKey k) (s r : List Char) : k.toList ++ s ≠ '[' :: r := by
  obtain ⟨c, t, hk, hc⟩ := h.exists_cons
  rw [hk, List.cons_append]
  intro hs
  injection hs with hs _
  exact (isBareKeyChar_ne hc).2.2.1 hs

theorem expression?_table (h : BareKey k) (d : Draft) (r : List Char) :
    expression? d ((table k).chars ++ r) = (d.openTable [] k).map fun d => (d, r) := by
  have hkey : key? (k.toList ++ ']' :: '\n' :: r) = some (([], k), ']' :: '\n' :: r) :=
    key?_bare h (by decide) fun s hs => by
      injection hs with hs _
      exact absurd hs (by decide)
  simp only [chars, List.cons_append, List.append_assoc, List.nil_append]
  exact expression?_header (ne_bracket_of_bare h _) hkey d

theorem expression?_tableIn {l : String} (hk : BareKey k) (hl : Harmless l) (d : Draft) (r : List Char) :
    expression? d ((tableIn k l).chars ++ r) = (d.openTable [k] l).map fun d => (d, r) := by
  simp only [chars, List.cons_append, List.append_assoc, List.nil_append]
  exact expression?_header (ne_bracket_of_bare hk _) (key?_pair hk hl ('\n' :: r)) d

theorem expression?_item (h : BareKey k) (d : Draft) (r : List Char) :
    expression? d ((item k).chars ++ r) = (d.openItem [] k).map fun d => (d, r) := by
  have hkey : key? (k.toList ++ ']' :: ']' :: '\n' :: r) =
      some (([], k), ']' :: ']' :: '\n' :: r) :=
    key?_bare h (by decide) fun s hs => by
      injection hs with hs _
      exact absurd hs (by decide)
  simp only [chars, List.cons_append, List.append_assoc, List.nil_append]
  rw [expression?, hkey]
  exact bind_restOfLine? (d.openItem [] k) r

theorem expression?_pair (h : BareKey k) {v : PlainValue} (hv : v.Readable) (d : Draft)
    (r : List Char) :
    expression? d ((pair k v).chars ++ r) = (d.put [] k v.value).map fun d => (d, r) := by
  obtain ⟨c, s, hk, hc⟩ := h.exists_cons
  have hkey : key? (k.toList ++ ' ' :: '=' :: ' ' :: (v.chars ++ '\n' :: r)) =
      some (([], k), '=' :: ' ' :: (v.chars ++ '\n' :: r)) :=
    key?_bare h (by decide) fun s hs => by
      injection hs with hs _
      exact absurd hs (by decide)
  have hpair : pair? topValue? (k.toList ++ ' ' :: '=' :: ' ' :: (v.chars ++ '\n' :: r)) =
      some (([], k, v.value), '\n' :: r) := by
    rw [pair?, hkey]
    show (topValue? (skipSpace (' ' :: (v.chars ++ '\n' :: r)))).bind
      (fun p => some (([], k, p.1), p.2)) = _
    rw [v.skipSpace_chars, PlainValue.topValue?_chars hv]
    rfl
  have hopen : c ≠ '[' := (isBareKeyChar_ne hc).2.2.1
  simp only [chars, List.cons_append, List.append_assoc, List.nil_append]
  unfold expression?
  split
  · rename_i hs
    rw [hk] at hs
    injection hs with hs _
    exact absurd hs hopen
  · rename_i hs
    rw [hk] at hs
    injection hs with hs _
    exact absurd hs hopen
  · rw [hpair]
    exact bind_restOfLine? (d.put [] k v.value) r

/-- A line of a plain document does what it stands for. -/
theorem lines?_cons {l : PlainLine} (h : l.Readable) (fuel : Nat) (d : Draft) (r : List Char) :
    lines? (fuel + 1) d (l.chars ++ r) = (l.effect d).bind fun d => lines? fuel d r := by
  have hbracket : isSpace '[' = false ∧ '[' ≠ '#' ∧ '[' ≠ '\n' ∧ '[' ≠ '\r' := by decide
  cases l with
  | blank => rfl
  | table k =>
    have he := expression?_table h d r
    simp only [chars, List.cons_append] at he ⊢
    rw [lines?_expression fuel d hbracket.1 hbracket.2, he, Option.bind_map]
    rfl
  | tableIn k l =>
    have he := expression?_tableIn h.1 h.2 d r
    simp only [chars, List.cons_append] at he ⊢
    rw [lines?_expression fuel d hbracket.1 hbracket.2, he, Option.bind_map]
    rfl
  | item k =>
    have he := expression?_item h d r
    simp only [chars, List.cons_append] at he ⊢
    rw [lines?_expression fuel d hbracket.1 hbracket.2, he, Option.bind_map]
    rfl
  | pair k v =>
    have he := expression?_pair h.1 h.2 d r
    obtain ⟨c, s, hk, hc⟩ := h.1.exists_cons
    obtain ⟨-, -, -, hcomment, hfeed, hreturn, hspace⟩ := isBareKeyChar_ne hc
    simp only [chars, hk, List.cons_append] at he ⊢
    rw [lines?_expression fuel d hspace ⟨hcomment, hfeed, hreturn⟩, he, Option.bind_map]
    rfl

/-- The characters of a plain document. -/
def document (ls : List PlainLine) : List Char := ls.flatMap chars

theorem chars_ne_nil (l : PlainLine) : 1 ≤ l.chars.length := by
  cases l with
  | pair k v =>
    simp only [chars, List.length_append, List.length_cons]
    omega
  | _ => simp [chars]

theorem lines?_document {ls : List PlainLine} (h : ∀ l ∈ ls, l.Readable) (d : Draft) {fuel : Nat}
    (hf : (document ls).length < fuel) : lines? fuel d (document ls) = ls.foldlM effect d := by
  induction ls generalizing d fuel with
  | nil =>
    cases fuel with
    | zero => cases hf
    | succ fuel => rfl
  | cons l ls ih =>
    cases fuel with
    | zero => cases hf
    | succ fuel =>
      have hl := l.chars_ne_nil
      have hrest : (document ls).length < fuel := by
        simp only [document, List.flatMap_cons, List.length_append] at hf ⊢
        omega
      rw [document, List.flatMap_cons, lines?_cons (h l List.mem_cons_self), List.foldlM_cons]
      cases l.effect d with
      | none => rfl
      | some d => exact ih (fun l' hl' => h l' (List.mem_cons_of_mem l hl')) d hrest

/-- A plain document does not begin with a byte order mark. -/
theorem document_ne (ls : List PlainLine) (h : ∀ l ∈ ls, l.Readable) (r : List Char) :
    document ls ≠ '\uFEFF' :: r := by
  intro hr
  cases ls with
  | nil => cases hr
  | cons l ls =>
    rw [document, List.flatMap_cons] at hr
    cases l with
    | blank =>
      injection hr with hr _
      exact absurd hr (by decide)
    | table k =>
      injection hr with hr _
      exact absurd hr (by decide)
    | tableIn k l =>
      injection hr with hr _
      exact absurd hr (by decide)
    | item k =>
      injection hr with hr _
      exact absurd hr (by decide)
    | pair k v =>
      obtain ⟨c, s, hk, hc⟩ := (h _ List.mem_cons_self).1.exists_cons
      rw [chars, hk] at hr
      injection hr with hr _
      rw [hr] at hc
      exact absurd hc (by decide)

/-- A plain document is read line by line. -/
theorem readChars?_document {ls : List PlainLine} (h : ∀ l ∈ ls, l.Readable) :
    readChars? (document ls) = (ls.foldlM effect {}).bind Draft.close := by
  have hmark : readChars? (document ls) =
      (lines? ((document ls).length + 1) {} (document ls)).bind Draft.close := by
    unfold readChars?
    split
    · rename_i r hr
      exact absurd hr (document_ne ls h r)
    · rfl
  rw [hmark, lines?_document h {} (Nat.lt_succ_self _)]

/-- The text of a plain document. -/
def text (ls : List PlainLine) : String := String.ofList (document ls)

/-- A text in plain lines is read as what its lines make. -/
theorem read?_of_toList {t : String} {ls : List PlainLine} (ht : t.toList = document ls)
    (h : ∀ l ∈ ls, l.Readable) : Toml.read? t = (ls.foldlM effect {}).bind Draft.close := by
  rw [Toml.read?, ht, readChars?_document h]

theorem read?_text {ls : List PlainLine} (h : ∀ l ∈ ls, l.Readable) :
    Toml.read? (text ls) = (ls.foldlM effect {}).bind Draft.close :=
  read?_of_toList String.toList_ofList h

end PlainLine

end GrammarBuild.Toml

namespace GrammarBuild

open Toml

/-! ### Manifests in plain lines -/

/-- The lines that declare a package. -/
def Package.lines (p : Package) : List PlainLine :=
  [.table "package", .pair "name" (.text p.name), .pair "version" (.text p.version)]

/-- The lines that declare a target with its sources and include directories. -/
def Target.lines (t : Target) : List PlainLine :=
  [.blank, .item "extension", .pair "name" (.text t.name),
   .pair "sources" (.texts (t.sources.map Path.text)),
   .pair "include_dirs" (.texts (t.includeDirs.map Path.text))]

/-- A manifest in plain lines declares what its lines make. -/
theorem Declaration.read_text {ls : List PlainLine} {es : Entries} {d : Declaration}
    (readable : ∀ l ∈ ls, l.Readable)
    (made : (ls.foldlM PlainLine.effect {}).bind Toml.Draft.close = some es)
    (declares : ofEntries es = .ok d) : read (PlainLine.text ls) = .ok d := by
  rw [read, PlainLine.read?_text readable, made]
  simp only [declares]
  rfl

end GrammarBuild
