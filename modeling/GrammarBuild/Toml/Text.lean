/-
  GrammarBuild/Toml/Text.lean
  ===========================
  **Keys and strings of a TOML document** — what can stand between quotes and what
  needs none.  Every reader takes characters off the front of a text and gives what
  they spell together with the rest, or nothing where the text begins otherwise.

  A reader that goes on and on takes a `bound`, any text that is no shorter than its own:
  every step uses up one character of the bound and at least one of the text, so a
  text is its own bound.

  A string between three quotes may hold one or two quotes anywhere, also directly
  before its end, and its line breaks are read as line feeds however they are
  written.
-/

namespace GrammarBuild.Toml

/-- A reader of something at the front of a text. -/
abbrev Reader (α : Type) := List Char → Option (α × List Char)

def isSpace (c : Char) : Bool := c == ' ' || c == '\t'

def skipSpace (s : List Char) : List Char := s.dropWhile isSpace

/-- A line end: a line feed, or a carriage return and a line feed. -/
def lineEnd? : List Char → Option (List Char)
  | '\n' :: r => some r
  | '\r' :: '\n' :: r => some r
  | _ => none

/-- What a comment and, but for its quotes and backslashes, a string may hold. -/
def isTextChar (c : Char) : Bool := c == '\t' || (0x20 ≤ c.toNat && c.toNat ≠ 0x7F)

/-! ### Escapes -/

def hexValue? (c : Char) : Option Nat :=
  if '0' ≤ c ∧ c ≤ '9' then some (c.toNat - '0'.toNat)
  else if 'a' ≤ c ∧ c ≤ 'f' then some (c.toNat - 'a'.toNat + 10)
  else if 'A' ≤ c ∧ c ≤ 'F' then some (c.toNat - 'A'.toNat + 10)
  else none

/-- A number of exactly `n` hexadecimal digits. -/
def hexNumber? : (n : Nat) → (acc : Nat) → Reader Nat
  | 0, acc, s => some (acc, s)
  | n + 1, acc, c :: r => (hexValue? c).bind fun v => hexNumber? n (16 * acc + v) r
  | _ + 1, _, [] => none

/-- A code point that stands for a character. -/
def charOf? (n : Nat) : Option Char :=
  if n < 0xD800 ∨ (0xDFFF < n ∧ n < 0x110000) then some (Char.ofNat n) else none

/-- The character that an escape stands for, after its backslash. -/
def escape? : Reader Char
  | 'b' :: r => some ('\x08', r)
  | 't' :: r => some ('\t', r)
  | 'n' :: r => some ('\n', r)
  | 'f' :: r => some ('\x0c', r)
  | 'r' :: r => some ('\r', r)
  | '"' :: r => some ('"', r)
  | '\\' :: r => some ('\\', r)
  | 'u' :: r => do
    let (n, r) ← hexNumber? 4 0 r
    let c ← charOf? n
    pure (c, r)
  | 'U' :: r => do
    let (n, r) ← hexNumber? 8 0 r
    let c ← charOf? n
    pure (c, r)
  | _ => none

/-! ### Strings on one line -/

/-- The rest of a basic string, the opening quote being read. -/
def basicBody? : (bound : List Char) → Reader (List Char)
  | [], _ => none
  | _, [] => none
  | _ :: _, '"' :: r => some ([], r)
  | _ :: bound, '\\' :: r => do
    let (c, r) ← escape? r
    let (t, r) ← basicBody? bound r
    pure (c :: t, r)
  | _ :: bound, c :: r =>
    if isTextChar c then (basicBody? bound r).map fun (t, r) => (c :: t, r) else none

/-- The rest of a literal string, in which a backslash is an ordinary character. -/
def literalBody? : Reader (List Char)
  | [] => none
  | c :: r =>
    if c = '\x27' then some ([], r)
    else if isTextChar c then (literalBody? r).map fun (t, r) => (c :: t, r)
    else none

/-! ### Strings over several lines -/

/-- The blanks and line ends after a backslash at the end of a line; there must be
    a line end among them. -/
def skipBlankLines : (bound : List Char) → List Char → List Char
  | [], s => s
  | _ :: bound, s =>
    match lineEnd? (skipSpace s) with
    | some r => skipBlankLines bound r
    | none => skipSpace s

/-- A backslash at the end of a line joins it with the next text. -/
def lineJoin? (s : List Char) : Option (List Char) :=
  (lineEnd? (skipSpace s)).map fun r => skipBlankLines r r

/-- How many quotes of the kind `q` a text begins with, up to five. -/
def quotesAhead (q : Char) (s : List Char) : Nat := ((s.take 5).takeWhile (· = q)).length

/-- The rest of a string between three quotes of the kind `q`.  Of three to five
    quotes the last three end it; escapes are read where `escapes` says so. -/
def longBody? (q : Char) (escapes : Bool) : (bound : List Char) → Reader (List Char)
  | [], _ => none
  | _, [] => none
  | _ :: bound, c :: r =>
    if c = q then
      let n := quotesAhead q (c :: r)
      if 3 ≤ n then some (List.replicate (n - 3) q, (c :: r).drop n)
      else (longBody? q escapes bound r).map fun (t, r) => (c :: t, r)
    else if c = '\\' ∧ escapes then
      match lineJoin? r with
      | some r => longBody? q escapes bound r
      | none => do
        let (c, r) ← escape? r
        let (t, r) ← longBody? q escapes bound r
        pure (c :: t, r)
    else if isTextChar c then (longBody? q escapes bound r).map fun (t, r) => (c :: t, r)
    else do
      let r ← lineEnd? (c :: r)
      let (t, r) ← longBody? q escapes bound r
      pure ('\n' :: t, r)

/-- One line end directly after the opening quotes is not part of the string. -/
def dropFirstLineEnd (s : List Char) : List Char := (lineEnd? s).getD s

/-- A string of any of the four kinds. -/
def string? : Reader (List Char)
  | s@('"' :: '"' :: '"' :: r) => longBody? '"' true s (dropFirstLineEnd r)
  | s@('\x27' :: '\x27' :: '\x27' :: r) => longBody? '\x27' false s (dropFirstLineEnd r)
  | s@('"' :: r) => basicBody? s r
  | '\x27' :: r => literalBody? r
  | _ => none

/-! ### Keys -/

def isBareKeyChar (c : Char) : Bool := c.isAlphanum || c == '_' || c == '-'

/-- One part of a key: bare, or a string on one line. -/
def keyPart? : Reader String
  | s@('"' :: r) => (basicBody? s r).map fun (t, r) => (String.ofList t, r)
  | '\x27' :: r => (literalBody? r).map fun (t, r) => (String.ofList t, r)
  | s =>
    match s.takeWhile isBareKeyChar with
    | [] => none
    | part => some (String.ofList part, s.dropWhile isBareKeyChar)

/-- The parts of a dotted key; `fuel` bounds their number.  Blanks may stand around
    every part. -/
def keyParts? : (fuel : Nat) → Reader (List String)
  | 0, _ => none
  | fuel + 1, s => do
    let (part, r) ← keyPart? (skipSpace s)
    match skipSpace r with
    | '.' :: r =>
      let (parts, r) ← keyParts? fuel r
      pure (part :: parts, r)
    | r => pure ([part], r)

/-- A key has fewer than 80 parts; the last one is given apart. -/
def key? (s : List Char) : Option ((List String × String) × List Char) := do
  let (parts, r) ← keyParts? 79 s
  let last ← parts.getLast?
  pure ((parts.dropLast, last), r)

end GrammarBuild.Toml
