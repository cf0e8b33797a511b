import GrammarBuild.Json.Value

/-
  GrammarBuild/Json/Reader.lean
  =============================
  **Reading JSON** — `Json.read?` gives the value that a text spells, and nothing
  where the text is not exactly one JSON value between blanks.

  Each step takes characters off the front of the text; nested values are read with
  a bound on their number, which the length of the text supplies.
-/

namespace GrammarBuild.Json

def isSpace (c : Char) : Bool := c == ' ' || c == '\t' || c == '\n' || c == '\r'

def skipSpace (s : List Char) : List Char := s.dropWhile isSpace

/-! ### Numbers -/

def isDigit (c : Char) : Bool := '0' ≤ c && c ≤ '9'

/-- At least one digit. -/
def digits? (s : List Char) : Option (List Char × List Char) :=
  match s.takeWhile isDigit with
  | [] => none
  | ds => some (ds, s.dropWhile isDigit)

/-- A whole part: a single zero or digits that do not begin with zero. -/
def whole? : List Char → Option (List Char × List Char)
  | '0' :: r => if (r.head?.map isDigit).getD false then none else some (['0'], r)
  | s => digits? s

/-- A point and digits, or nothing. -/
def fraction? : List Char → Option (List Char × List Char)
  | '.' :: r => (digits? r).map fun d => ('.' :: d.1, d.2)
  | s => some ([], s)

def isExponentMark (c : Char) : Bool := c == 'e' || c == 'E'

/-- An exponent, or nothing. -/
def exponent? : List Char → Option (List Char × List Char)
  | [] => some ([], [])
  | c :: r =>
    if isExponentMark c then
      match r with
      | '+' :: r' => (digits? r').map fun d => (c :: '+' :: d.1, d.2)
      | '-' :: r' => (digits? r').map fun d => (c :: '-' :: d.1, d.2)
      | r' => (digits? r').map fun d => (c :: d.1, d.2)
    else some ([], c :: r)

/-- A number as it is spelled. -/
def number? (s : List Char) : Option (Json × List Char) := do
  let (sign, s) := match s with
    | '-' :: r => (['-'], r)
    | s => ([], s)
  let (w, s) ← whole? s
  let (f, s) ← fraction? s
  let (e, s) ← exponent? s
  pure (number (String.ofList (sign ++ w ++ f ++ e)), s)

/-! ### Strings -/

def hexValue? (c : Char) : Option Nat :=
  if isDigit c then some (c.toNat - '0'.toNat)
  else if 'a' ≤ c ∧ c ≤ 'f' then some (c.toNat - 'a'.toNat + 10)
  else if 'A' ≤ c ∧ c ≤ 'F' then some (c.toNat - 'A'.toNat + 10)
  else none

/-- Four hexadecimal digits. -/
def unit? : List Char → Option (Nat × List Char)
  | a :: b :: c :: d :: r => do
    let a ← hexValue? a
    let b ← hexValue? b
    let c ← hexValue? c
    let d ← hexValue? d
    pure (((a * 16 + b) * 16 + c) * 16 + d, r)
  | _ => none

/-- The character a one-letter escape stands for. -/
def simpleEscape? : Char → Option Char
  | '"' => some '"'
  | '\\' => some '\\'
  | '/' => some '/'
  | 'b' => some '\x08'
  | 'f' => some '\x0c'
  | 'n' => some '\n'
  | 'r' => some '\r'
  | 't' => some '\t'
  | _ => none

/-- What one escape after the backslash spells: a character, or `none` for an
    unpaired surrogate, with the rest of the text. -/
def escape? : List Char → Option (Option Char × List Char)
  | 'u' :: r => do
    let (u, r) ← unit? r
    if u < 0xD800 ∨ 0xDFFF < u then pure (some (Char.ofNat u), r)
    else if u < 0xDC00 then
      match r with
      | '\\' :: 'u' :: r' =>
        let (v, r'') ← unit? r'
        if 0xDC00 ≤ v ∧ v ≤ 0xDFFF then
          pure (some (Char.ofNat (0x10000 + (u - 0xD800) * 0x400 + (v - 0xDC00))), r'')
        else pure (none, r)
      | _ => pure (none, r)
    else pure (none, r)
  | c :: r => (simpleEscape? c).map fun e => (some e, r)
  | [] => none

/-- The characters up to the closing quote; `none` in the first place if one of
    them is an unpaired surrogate.  `fuel` bounds the number of characters. -/
def body? : (fuel : Nat) → List Char → Option (Option (List Char) × List Char)
  | 0, _ => none
  | _, [] => none
  | _ + 1, '"' :: r => some (some [], r)
  | fuel + 1, '\\' :: r => do
    let (c, r) ← escape? r
    let (t, r) ← body? fuel r
    pure ((do let c ← c; let t ← t; pure (c :: t)), r)
  | fuel + 1, c :: r =>
    if c.toNat < 0x20 then none
    else (body? fuel r).map fun (t, r) => (t.map (c :: ·), r)

/-- A quoted text, the opening quote being read. -/
def text? (fuel : Nat) (s : List Char) : Option (Option String × List Char) :=
  (body? fuel s).map fun (t, r) => (t.map String.ofList, r)

/-! ### Values -/

/-- A fixed word. -/
def word? (w : List Char) (j : Json) (s : List Char) : Option (Json × List Char) :=
  if w.isPrefixOf s then some (j, s.drop w.length) else none

mutual

/-- A value at the front of a text. -/
def value? : (fuel : Nat) → List Char → Option (Json × List Char)
  | 0, _ => none
  | fuel + 1, s =>
    match s with
    | '"' :: r =>
      (text? fuel r).map fun (t, r) =>
        (match t with
          | some t => string t
          | none => unpaired, r)
    | '[' :: r =>
      match skipSpace r with
      | ']' :: r' => some (array [], r')
      | r' => (items? fuel r').map fun (js, r) => (array js, r)
    | '\x7b' :: r =>
      match skipSpace r with
      | '\x7d' :: r' => some (object [], r')
      | r' => (members? fuel r').map fun (ms, r) => (object ms, r)
    | 'n' :: _ => word? "null".toList null s
    | 't' :: _ => word? "true".toList (bool true) s
    | 'f' :: _ => word? "false".toList (bool false) s
    | _ => number? s

/-- The items of an array up to its closing bracket. -/
def items? : (fuel : Nat) → List Char → Option (List Json × List Char)
  | 0, _ => none
  | fuel + 1, s => do
    let (j, r) ← value? fuel s
    match skipSpace r with
    | ']' :: r => pure ([j], r)
    | ',' :: r =>
      let (js, r) ← items? fuel (skipSpace r)
      pure (j :: js, r)
    | _ => none

/-- The members of an object up to its closing brace. -/
def members? : (fuel : Nat) → List Char → Option (List (Option String × Json) × List Char)
  | 0, _ => none
  | fuel + 1, s =>
    match s with
    | '"' :: r => do
      let (key, r) ← text? fuel r
      match skipSpace r with
      | ':' :: r =>
        let (j, r) ← value? fuel (skipSpace r)
        match skipSpace r with
        | '\x7d' :: r => pure ([(key, j)], r)
        | ',' :: r =>
          let (ms, r) ← members? fuel (skipSpace r)
          pure ((key, j) :: ms, r)
        | _ => none
      | _ => none
    | _ => none

end

/-- The value of a text that is one JSON value, blanks aside. -/
def readChars? (s : List Char) : Option Json :=
  match value? (s.length + 1) (skipSpace s) with
  | some (j, r) => if (skipSpace r).isEmpty then some j else none
  | none => none

/-- `readChars?` on strings. -/
def read? (s : String) : Option Json := readChars? s.toList

end GrammarBuild.Json
