import GrammarBuild.Failure

/-
  GrammarBuild/Glob/Pattern.lean
  ==============================
  **Wildcard patterns** — `?` stands for one character, `*` for any number of them,
  `[a-z]` and `[!a-z]` for one character in or out of a set; `**` stands alone
  between slashes for any number of directories.

  A pattern is taken apart from left to right (`Pattern.read`), and what cannot be
  read is reported with its position.  `Pattern.matchesName` is the match of one
  name; patterns over several directories are matched name by name.
-/

namespace GrammarBuild

/-- A character or an interval of them, both ends included. -/
inductive CharSpec where
  | one (c : Char)
  | range (low high : Char)
deriving DecidableEq, Repr

namespace CharSpec

def admits (c : Char) : CharSpec → Bool
  | one d => c == d
  | range low high => low ≤ c && c ≤ high

/-- The specifications between two brackets.  A dash between two characters makes an
    interval. -/
def listOf : List Char → List CharSpec
  | a :: '-' :: b :: r => range a b :: listOf r
  | a :: r => one a :: listOf r
  | [] => []

end CharSpec

/-- A part of a pattern. -/
inductive GlobToken where
  | char (c : Char)
  | anyChar
  | anyText
  | anyDirs
  | oneOf (specs : List CharSpec)
  | noneOf (specs : List CharSpec)
deriving DecidableEq, Repr

namespace GlobToken

/-- The character of a token that stands for itself. -/
def char? : GlobToken → Option Char
  | char c => some c
  | _ => none

/-- Whether a token stands for any number of characters. -/
def isText : GlobToken → Bool
  | anyText => true
  | anyDirs => true
  | _ => false

/-- Whether a token for one character stands for this one. -/
def admits (c : Char) : GlobToken → Bool
  | char d => c == d
  | oneOf specs => specs.any (CharSpec.admits c)
  | noneOf specs => !specs.any (CharSpec.admits c)
  | _ => true

end GlobToken

/-- How the comparison of a name with a pattern comes out. -/
inductive Comparison where
  | equal
  | different
  /-- The name ends before the pattern does, and so does each of its ends. -/
  | tooShort
deriving DecidableEq, Repr

abbrev Pattern := List GlobToken

namespace Pattern

/-- A fault of a pattern and where it is. -/
abbrev Fault := Nat × PatternFault

/-- The set that begins after an opening bracket, with the characters after it.  The
    first character of a set is never its closing bracket. -/
def set? (s : List Char) : Option (GlobToken × List Char) :=
  let split (first : Char) (r : List Char) : Option (List Char × List Char) :=
    let body := r.takeWhile (· ≠ ']')
    match r.dropWhile (· ≠ ']') with
    | ']' :: rest => some (first :: body, rest)
    | _ => none
  match s with
  | '!' :: c :: r => (split c r).map fun (b, rest) => (.noneOf (CharSpec.listOf b), rest)
  | '!' :: [] => none
  | c :: r => (split c r).map fun (b, rest) => (.oneOf (CharSpec.listOf b), rest)
  | [] => none

/-- The two stars of `**`, at position `i`: they must stand between slashes or at an
    end.  The slash after them belongs to them. -/
def dirs (i : Nat) (before : Option Char) (after : List Char) : Except Fault (List Char) :=
  if before = none ∨ before = some '/' then
    match after with
    | [] => .ok []
    | '/' :: r => .ok r
    | _ => .error (i + 2, .recursive)
  else .error (i - 1, .recursive)

/-- The tokens of the characters from position `i` on; `before` is the character in
    front of them. -/
def tokens : (fuel i : Nat) → (before : Option Char) → List Char → Except Fault Pattern
  | 0, _, _, _ => .ok []
  | _, _, _, [] => .ok []
  | fuel + 1, i, before, c :: r =>
    if c = '?' then return .anyChar :: (← tokens fuel (i + 1) (some c) r)
    else if c = '*' then
      match (c :: r).takeWhile (· = '*') with
      | [_] => return .anyText :: (← tokens fuel (i + 1) (some c) r)
      | [_, _] => do
        let rest ← dirs i before (r.drop 1)
        let consumed := (c :: r).length - rest.length
        return .anyDirs ::
          (← tokens fuel (i + consumed) (if consumed = 3 then some '/' else some '*') rest)
      | _ => .error (i + 2, .stars)
    else if c = '[' then
      match set? r with
      | some (token, rest) =>
        return token :: (← tokens fuel (i + ((c :: r).length - rest.length)) (some ']') rest)
      | none => .error (i, .range)
    else return .char c :: (← tokens fuel (i + 1) (some c) r)

/-- The tokens of a pattern. -/
def read (s : List Char) : Except Fault Pattern := tokens s.length 0 none s

/-- The text that is the only one to match, if the pattern has no wildcards. -/
def literal? (p : Pattern) : Option String :=
  (p.mapM GlobToken.char?).map String.ofList

/-- Whether the pattern stands for any number of directories. -/
def isDirs (p : Pattern) : Bool := p.contains .anyDirs

/-- A name compared with a pattern.  A wildcard for texts takes as few characters as it
    can; it takes one more where the rest does not match, but not where the rest is too
    long already. -/
def compareChars : Pattern → List Char → Comparison
  | [], [] => .equal
  | [], _ :: _ => .different
  | t :: ts, [] => if t.isText then compareChars ts [] else .tooShort
  | t :: ts, c :: r =>
    if t.isText then
      match compareChars ts (c :: r) with
      | .different => compareChars (t :: ts) r
      | found => found
    else if t.admits c then compareChars ts r
    else .different
termination_by p s => (p.length, s.length)

/-- Whether a name matches. -/
def matchesName (p : Pattern) (name : String) : Bool := compareChars p name.toList == .equal

end Pattern

end GrammarBuild
