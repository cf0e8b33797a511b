import GrammarBuild.Toml.Text

/-
  GrammarBuild/Toml/Writer.lean
  =============================
  **Writing TOML strings and lists** — a text is written in the plainest of the four
  kinds of string that can hold it (`styleOf`), and escapes are used only where none
  can do without.

  Two facts about a text decide: which characters it has, and how long its runs of
  quotes are, for a run of three would end a string between three quotes.
-/

namespace GrammarBuild.Toml

/-- The length of the longest run of a character. -/
def longestRun (q : Char) : (current best : Nat) → List Char → Nat
  | _, best, [] => best
  | current, best, c :: r =>
    if c = q then longestRun q (current + 1) (max best (current + 1)) r
    else longestRun q 0 best r

/-- The ways to write a string. -/
inductive Style where
  | basic
  | literal
  | longBasic
  | longLiteral
deriving DecidableEq, Repr

/-- A character that only an escape can put into a string of several lines. -/
def isControl (c : Char) : Bool :=
  (c.toNat < 0x20 && c != '\t' && c != '\n') || c.toNat == 0x7F

/-- The first way, from plain to elaborate, that holds the text without escapes; a
    basic string holds every text. -/
def styleOf (s : List Char) : Style :=
  let control := s.any isControl
  let backslash := s.contains '\\'
  let newline := s.contains '\n'
  if !control && !backslash && !newline && !s.contains '"' then .basic
  else if !control && !newline && !s.contains '\x27' then .literal
  else if !control && !backslash && longestRun '"' 0 0 s ≤ 2 then .longBasic
  else if !control && longestRun '\x27' 0 0 s ≤ 2 then .longLiteral
  else if newline then .longBasic
  else .basic

/-- A number below 16 as an upper-case hexadecimal digit. -/
def upperHexDigit (n : Nat) : Char :=
  if n < 10 then Char.ofNat ('0'.toNat + n) else Char.ofNat ('A'.toNat + (n - 10))

/-- An escape for a character that is neither a quote nor a line feed. -/
def escapeOther (c : Char) : List Char :=
  if c = '\x08' then ['\\', 'b']
  else if c = '\t' then ['\\', 't']
  else if c = '\x0c' then ['\\', 'f']
  else if c = '\r' then ['\\', 'r']
  else if c = '\\' then ['\\', '\\']
  else if isControl c then
    ['\\', 'u', '0', '0', upperHexDigit (c.toNat / 16), upperHexDigit (c.toNat % 16)]
  else [c]

/-- The characters of a basic string.  On one line every quote is escaped; on several
    lines each third of a run, `run` being how many were written plainly. -/
def basicChars (long : Bool) : (run : Nat) → List Char → List Char
  | _, [] => []
  | run, c :: r =>
    if c = '"' then
      if !long || run = 2 then '\\' :: '"' :: basicChars long 0 r
      else '"' :: basicChars long (run + 1) r
    else if c = '\n' then
      (if long then ['\n'] else ['\\', 'n']) ++ basicChars long 0 r
    else escapeOther c ++ basicChars long 0 r

/-- A string on several lines begins with a line break if the text has one. -/
def opening (s : List Char) : List Char := if s.contains '\n' then ['\n'] else []

def tripled (q : Char) (body : List Char) : List Char := [q, q, q] ++ body ++ [q, q, q]

/-- A text as a string. -/
def writeChars (s : List Char) : List Char :=
  match styleOf s with
  | .basic => '"' :: (basicChars false 0 s ++ ['"'])
  | .literal => '\x27' :: (s ++ ['\x27'])
  | .longBasic => tripled '"' (opening s ++ basicChars true 0 s)
  | .longLiteral => tripled '\x27' (opening s ++ s)

/-- `writeChars` on strings. -/
def write (s : String) : String := String.ofList (writeChars s.toList)

/-- A list of texts; two or more stand on lines of their own. -/
def writeList : List String → String
  | [] => "[]"
  | [s] => "[" ++ write s ++ "]"
  | ss => "[\n" ++ String.join (ss.map fun s => "    " ++ write s ++ ",\n") ++ "]"

end GrammarBuild.Toml
