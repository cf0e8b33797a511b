/-
  GrammarBuild/Text/Blank.lean
  ============================
  **White space and lines** — the two ways in which the tool takes a text apart
  that it did not write itself: cutting blanks off the ends (`trim`, `trimEnd`)
  and cutting a text into its lines (`lines`).

  A blank is a character of the Unicode property White_Space, so a line that is
  indented with a no-break space is trimmed as well.  A line ends at a line feed;
  one carriage return before that line feed belongs to the line's end, and a text
  that ends in a line feed has no empty line after it.
-/

namespace GrammarBuild.Text

/-- The characters of the Unicode property White_Space. -/
def isBlank (c : Char) : Bool :=
  let n := c.toNat
  (9 ≤ n && n ≤ 13) || n == 0x20 || n == 0x85 || n == 0xA0 || n == 0x1680
    || (0x2000 ≤ n && n ≤ 0x200A) || n == 0x2028 || n == 0x2029 || n == 0x202F
    || n == 0x205F || n == 0x3000

/-- A text without the blanks at its end. -/
def trimEndChars (s : List Char) : List Char := (s.reverse.dropWhile isBlank).reverse

/-- A text without the blanks at either end. -/
def trimChars (s : List Char) : List Char := trimEndChars (s.dropWhile isBlank)

/-- `trimEndChars` on strings. -/
def trimEnd (s : String) : String := String.ofList (trimEndChars s.toList)

/-- `trimChars` on strings. -/
def trim (s : String) : String := String.ofList (trimChars s.toList)

/-- A line's end loses one carriage return. -/
def dropReturn (line : List Char) : List Char :=
  if line.getLast? = some '\r' then line.dropLast else line

/-- The lines of a text.  Only a line that a line feed ends can lose a carriage
    return, and the piece after the last line feed is a line only if it is not
    empty. -/
def linesOf (s : List Char) : List (List Char) :=
  let pieces := s.splitOn '\n'
  pieces.dropLast.map dropReturn ++ (pieces.getLast?.toList.filter (· ≠ []))

/-- `linesOf` on strings. -/
def lines (s : String) : List String := (linesOf s.toList).map String.ofList

/-- A character's lower case among the ASCII letters; all others stay. -/
def lowerAscii (s : String) : String := String.ofList (s.toList.map Char.toLower)

/-- Whether `part` occurs in `s`. -/
def occursIn (part : List Char) : List Char → Bool
  | [] => part.isEmpty
  | c :: r => part.isPrefixOf (c :: r) || occursIn part r

/-- `occursIn` on strings. -/
def contains (s part : String) : Bool := occursIn part.toList s.toList

end GrammarBuild.Text
