import GrammarBuild.Json.Value

/-
  GrammarBuild/Json/Writer.lean
  =============================
  **Writing JSON** — `compact` puts everything on one line, `pretty` gives every
  item and member a line of its own, two spaces deeper than what holds it; an empty
  array or object stays `[]` or an empty pair of braces.

  Only quotes, backslashes and control characters are escaped; all other text is
  written as it is.
-/

namespace GrammarBuild.Json

/-- A number below 16 as a lower-case hexadecimal digit. -/
def hexChar (n : Nat) : Char :=
  if n < 10 then Char.ofNat ('0'.toNat + n) else Char.ofNat ('a'.toNat + (n - 10))

/-- One character between the quotes. -/
def escapeChar (c : Char) : List Char :=
  if c = '"' then ['\\', '"']
  else if c = '\\' then ['\\', '\\']
  else if c = '\x08' then ['\\', 'b']
  else if c = '\x0c' then ['\\', 'f']
  else if c = '\n' then ['\\', 'n']
  else if c = '\r' then ['\\', 'r']
  else if c = '\t' then ['\\', 't']
  else if c.toNat < 0x20 then ['\\', 'u', '0', '0', hexChar (c.toNat / 16), hexChar (c.toNat % 16)]
  else [c]

/-- A quoted text. -/
def quoted (s : String) : List Char := '"' :: (s.toList.flatMap escapeChar ++ ['"'])

def quotedKey : Option String → List Char
  | some k => quoted k
  | none => quoted ""

/-! ### On one line -/

mutual

/-- The characters of a value on one line. -/
def compactChars : Json → List Char
  | null => "null".toList
  | bool true => "true".toList
  | bool false => "false".toList
  | number l => l.toList
  | string s => quoted s
  | unpaired => quoted ""
  | array items => '[' :: (compactItems items ++ [']'])
  | object members => '\x7b' :: (compactMembers members ++ ['\x7d'])

def compactItems : List Json → List Char
  | [] => []
  | [j] => compactChars j
  | j :: js => compactChars j ++ ',' :: compactItems js

def compactMembers : List (Option String × Json) → List Char
  | [] => []
  | [(k, j)] => quotedKey k ++ ':' :: compactChars j
  | (k, j) :: ms => quotedKey k ++ ':' :: (compactChars j ++ ',' :: compactMembers ms)

end

/-- A value on one line. -/
def compact (j : Json) : String := String.ofList (compactChars j)

/-! ### On several lines -/

/-- The line break before something at this depth. -/
def newLine (depth : Nat) : List Char := '\n' :: List.replicate (2 * depth) ' '

mutual

/-- The characters of a value on lines of its own, its inner lines at `depth` and
    deeper. -/
def prettyChars (depth : Nat) : Json → List Char
  | array [] => ['[', ']']
  | array (j :: js) =>
    '[' :: (newLine (depth + 1) ++ prettyItems (depth + 1) (j :: js) ++ newLine depth ++ [']'])
  | object [] => ['\x7b', '\x7d']
  | object (m :: ms) =>
    '\x7b' :: (newLine (depth + 1) ++ prettyMembers (depth + 1) (m :: ms)
      ++ newLine depth ++ ['\x7d'])
  | j => compactChars j

def prettyItems (depth : Nat) : List Json → List Char
  | [] => []
  | [j] => prettyChars depth j
  | j :: js => prettyChars depth j ++ ',' :: (newLine depth ++ prettyItems depth js)

def prettyMembers (depth : Nat) : List (Option String × Json) → List Char
  | [] => []
  | [(k, j)] => quotedKey k ++ ':' :: ' ' :: prettyChars depth j
  | (k, j) :: ms =>
    quotedKey k ++ ':' :: ' ' :: (prettyChars depth j
      ++ ',' :: (newLine depth ++ prettyMembers depth ms))

end

/-- A value over several lines. -/
def pretty (j : Json) : String := String.ofList (prettyChars 0 j)

end GrammarBuild.Json
