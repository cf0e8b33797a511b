import GrammarBuild.Text.Printable

/-
  GrammarBuild/Text/Quoted.lean
  =============================
  **Quoted text in messages** — a text that a message shows is put between quotes,
  and every character in it that could not be read off the page is written by an
  escape: the usual ones for quote, backslash, tab, line feed, carriage return and
  zero, and `\u` with the hexadecimal code point in braces for the others.

  Which of the two quotes is escaped depends on what is quoted (`Quotes`): a text
  keeps its single quotes, a single character its double ones.
-/

namespace GrammarBuild.Text

/-- Which quotes an escape is needed for. -/
structure Quotes where
  single : Bool
  double : Bool

/-- The hexadecimal digits of a number, lower case, without leading zeros. -/
def hexDigits (n : Nat) : List Char := Nat.toDigits 16 n

/-- One character as it stands in quoted text. -/
def escapeChar (q : Quotes) (c : Char) : List Char :=
  if c = '\x00' then ['\\', '0']
  else if c = '\t' then ['\\', 't']
  else if c = '\r' then ['\\', 'r']
  else if c = '\n' then ['\\', 'n']
  else if c = '\\' then ['\\', '\\']
  else if c = '"' ∧ q.double then ['\\', '"']
  else if c = '\x27' ∧ q.single then ['\\', '\x27']
  else if isPrintable c ∧ ¬ isExtending c then [c]
  else ['\\', 'u', '\x7b'] ++ hexDigits c.toNat ++ ['\x7d']

/-- A text between double quotes. -/
def quote (s : String) : String :=
  String.ofList ('"' :: (s.toList.flatMap (escapeChar ⟨false, true⟩) ++ ['"']))

/-- One character between single quotes. -/
def quoteChar (c : Char) : String :=
  String.ofList ('\x27' :: (escapeChar ⟨true, false⟩ c ++ ['\x27']))

/-- A list of quoted texts between brackets. -/
def quoteList (items : List String) : String :=
  "[" ++ String.intercalate ", " (items.map quote) ++ "]"

end GrammarBuild.Text
