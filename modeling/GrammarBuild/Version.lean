import GrammarBuild.Text.Quoted
import GrammarBuild.Text.Blank

/-
  GrammarBuild/Version.lean
  =========================
  **Semantic versions** — three numbers joined by dots, then a pre-release behind a
  dash and build metadata behind a plus sign, both optional.

  A text that is no version is refused with the first fault met from left to right
  and the part that was being read there.
-/

namespace GrammarBuild

/-- The parts of a version. -/
inductive VersionPart where
  | major
  | minor
  | patch
  | preRelease
  | build
deriving DecidableEq, Repr

def VersionPart.name : VersionPart → String
  | .major => "major version number"
  | .minor => "minor version number"
  | .patch => "patch version number"
  | .preRelease => "pre-release identifier"
  | .build => "build metadata"

/-- Why a text is no version. -/
inductive VersionFault where
  | empty
  | endOfText (part : VersionPart)
  | badStart (part : VersionPart) (c : Char)
  | badEnd (part : VersionPart) (c : Char)
  | leadingZero (part : VersionPart)
  | tooLarge (part : VersionPart)
  | emptySegment (part : VersionPart)
deriving DecidableEq, Repr

def VersionFault.message : VersionFault → String
  | .empty => "empty string, expected a semver version"
  | .endOfText part => "unexpected end of input while parsing " ++ part.name
  | .badStart part c =>
    "unexpected character " ++ Text.quoteChar c ++ " while parsing " ++ part.name
  | .badEnd part c => "unexpected character " ++ Text.quoteChar c ++ " after " ++ part.name
  | .leadingZero part => "invalid leading zero in " ++ part.name
  | .tooLarge part => "value of " ++ part.name ++ " exceeds u64::MAX"
  | .emptySegment part => "empty identifier segment in " ++ part.name

/-- A semantic version. -/
structure Version where
  major : Nat
  minor : Nat
  patch : Nat
  preRelease : String
  build : String
deriving DecidableEq, Repr

namespace Version

/-- The digits of a number.  `value` is what they stand for so far; `started` holds
    after the first.  A number has 64 bits, and one that goes on after a zero
    is refused at its second digit. -/
def number (part : VersionPart) : (started : Bool) → (value : Nat) → List Char →
    Except VersionFault (Nat × List Char)
  | started, value, s@(c :: r) =>
    if c.isDigit then
      if started ∧ value = 0 then .error (.leadingZero part)
      else
        let value := 10 * value + (c.toNat - '0'.toNat)
        if UInt64.size ≤ value then .error (.tooLarge part) else number part true value r
    else if started then .ok (value, s)
    else .error (.badStart part c)
  | true, value, [] => .ok (value, [])
  | false, _, [] => .error (.endOfText part)

/-- The dot after a number. -/
def dot (part : VersionPart) : List Char → Except VersionFault (List Char)
  | '.' :: r => .ok r
  | c :: _ => .error (.badEnd part c)
  | [] => .error (.endOfText part)

def isSegmentChar (c : Char) : Bool := c.isAlphanum || c == '-'

/-- What is wrong with one segment.  Only in a pre-release does it matter whether a
    segment is a number with zeros in front. -/
def segmentFault? (part : VersionPart) (segment : List Char) : Option VersionFault :=
  match segment with
  | [] => some (.emptySegment part)
  | c :: r =>
    if part = .preRelease ∧ c = '0' ∧ r ≠ [] ∧ r.all Char.isDigit then some (.leadingZero part)
    else none

/-- Segments joined by dots, as far as their characters go. -/
def segments (part : VersionPart) (s : List Char) : Except VersionFault (String × List Char) :=
  let inside (c : Char) : Bool := isSegmentChar c || c == '.'
  let body := s.takeWhile inside
  match (List.splitOn '.' body).findSome? (segmentFault? part) with
  | some fault => .error fault
  | none => .ok (String.ofList body, s.dropWhile inside)

/-- Segments behind their mark, or nothing. -/
def optionalSegments (mark : Char) (part last : VersionPart) (s : List Char) :
    Except VersionFault (String × VersionPart × List Char) :=
  match s with
  | c :: r =>
    if c = mark then do
      let (text, r) ← segments part r
      pure (text, part, r)
    else pure ("", last, s)
  | [] => pure ("", last, s)

/-- The version that a list of characters spells. -/
def readChars (s : List Char) : Except VersionFault Version := do
  if s.isEmpty then throw .empty
  let (major, s) ← number .major false 0 s
  let s ← dot .major s
  let (minor, s) ← number .minor false 0 s
  let s ← dot .minor s
  let (patch, s) ← number .patch false 0 s
  let (preRelease, last, s) ← optionalSegments '-' .preRelease .patch s
  let (build, last, s) ← optionalSegments '+' .build last s
  match s with
  | c :: _ => throw (.badEnd last c)
  | [] => pure { major, minor, patch, preRelease, build }

/-- `readChars` on strings. -/
def read (s : String) : Except VersionFault Version := readChars s.toList

end Version

end GrammarBuild
