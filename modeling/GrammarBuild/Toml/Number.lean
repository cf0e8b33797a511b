import GrammarBuild.Toml.Text
import GrammarBuild.Toml.Value

/-
  GrammarBuild/Toml/Number.lean
  =============================
  **Numbers and dates of a TOML document** — integers in four bases within 64 bits,
  floats as 64-bit binary numbers, and dates and times that exist in the calendar.

  A date, then a float, then an integer is tried: each of them is refused where only
  the front of a longer word would be read, because nothing but a line end, a comma
  or a bracket may follow a value.
-/

namespace GrammarBuild.Toml

def isDigit (c : Char) : Bool := '0' ≤ c && c ≤ '9'

/-- The number a list of digits of some base stands for. -/
def numberOf (base : Nat) (digits : List Char) : Nat :=
  digits.foldl (fun n c => base * n + (hexValue? c).getD 0) 0

/-! ### Digits -/

/-- Digits that go on after the first one, single underscores between them. -/
def moreDigits (ok : Char → Bool) : List Char → List Char × List Char
  | '_' :: c :: r =>
    if ok c then
      let (ds, rest) := moreDigits ok r
      (c :: ds, rest)
    else ([], '_' :: c :: r)
  | c :: r =>
    if ok c then
      let (ds, rest) := moreDigits ok r
      (c :: ds, rest)
    else ([], c :: r)
  | [] => ([], [])

/-- At least one digit. -/
def digits? (ok : Char → Bool) : Reader (List Char)
  | c :: r =>
    if ok c then
      let (ds, rest) := moreDigits ok r
      some (c :: ds, rest)
    else none
  | [] => none

/-- A sign; `true` for minus. -/
def sign : List Char → Bool × List Char
  | '+' :: r => (false, r)
  | '-' :: r => (true, r)
  | s => (false, s)

/-- A whole part: a zero alone, or digits that do not begin with zero. -/
def whole? : Reader (List Char)
  | '0' :: r => some (['0'], r)
  | s => digits? isDigit s

/-! ### Integers -/

/-- The first number that is too large for 64 bits, one of which is the sign. -/
def integerBound : Nat := 0x8000000000000000

def isHexDigit (c : Char) : Bool := (hexValue? c).isSome
def isOctalDigit (c : Char) : Bool := '0' ≤ c && c ≤ '7'
def isBinaryDigit (c : Char) : Bool := c == '0' || c == '1'

/-- An integer without a sign in a base other than ten. -/
def based? (base : Nat) (ok : Char → Bool) (s : List Char) : Option (Value × List Char) := do
  let (ds, r) ← digits? ok s
  let n := numberOf base ds
  if n < integerBound then pure (.integer n, r) else none

def integer? : Reader Value
  | '0' :: 'x' :: r => based? 16 isHexDigit r
  | '0' :: 'o' :: r => based? 8 isOctalDigit r
  | '0' :: 'b' :: r => based? 2 isBinaryDigit r
  | s => do
    let (negative, s) := sign s
    let (ds, r) ← whole? s
    let n := numberOf 10 ds
    if negative then if n ≤ integerBound then pure (.integer (-(n : Int)), r) else none
    else if n < integerBound then pure (.integer n, r) else none

/-! ### Floats -/

/-- A point and digits. -/
def fraction? : Reader (List Char)
  | '.' :: r => digits? isDigit r
  | _ => none

/-- The mark of an exponent, a sign and digits. -/
def exponent? : Reader Int
  | c :: r =>
    if c == 'e' || c == 'E' then do
      let (negative, r) := sign r
      let (ds, r) ← digits? isDigit r
      -- more digits than these cannot change the number any more
      let n : Nat := if 8 < (ds.dropWhile (· = '0')).length then 100000000 else numberOf 10 ds
      pure (if negative then -(n : Int) else n, r)
    else none
  | [] => none

/-- `inf` and `nan`. -/
def special? (negative : Bool) : Reader Value
  | 'i' :: 'n' :: 'f' :: r => some (.float (.infinite negative), r)
  | 'n' :: 'a' :: 'n' :: r => some (.float .notANumber, r)
  | _ => none

/-- A float.  One that is too large for a binary number is refused unless it is
    negative. -/
def float? (s : List Char) : Option (Value × List Char) := do
  let (negative, s) := sign s
  match special? negative s with
  | some found => pure found
  | none =>
    let (ws, r) ← whole? s
    let (fs, e, r) ← match fraction? r with
      | some (fs, r) =>
        match exponent? r with
        | some (e, r) => some (fs, e, r)
        | none => some (fs, 0, r)
      | none => (exponent? r).map fun (e, r) => ([], e, r)
    let x := Binary64.ofDecimal negative (numberOf 10 (ws ++ fs)) (e - fs.length)
    if x = .infinite false then none else pure (.float x, r)

/-! ### Dates and times -/

/-- A number of exactly `n` digits within bounds. -/
def fixed? (n low high : Nat) (s : List Char) : Option (List Char × List Char) :=
  let ds := s.take n
  let v := numberOf 10 ds
  if ds.length = n ∧ ds.all isDigit ∧ low ≤ v ∧ v ≤ high then some (ds, s.drop n) else none

def char? (c : Char) : Reader Unit
  | d :: r => if d = c then some ((), r) else none
  | [] => none

def daysIn (year month : Nat) : Nat :=
  if month = 2 then
    if (year % 4 = 0 ∧ year % 100 ≠ 0) ∨ year % 400 = 0 then 29 else 28
  else if month ∈ [4, 6, 9, 11] then 30 else 31

/-- A calendar date. -/
def date? (s : List Char) : Option (List Char × List Char) := do
  let (y, s) ← fixed? 4 0 9999 s
  let (_, s) ← char? '-' s
  let (m, s) ← fixed? 2 1 12 s
  let (_, s) ← char? '-' s
  let (d, s) ← fixed? 2 1 (daysIn (numberOf 10 y) (numberOf 10 m)) s
  pure (y ++ '-' :: m ++ '-' :: d, s)

/-- The part of a second; nine digits of it count, and zeros at its end do not. -/
def secondFraction (s : List Char) : List Char × List Char :=
  match s with
  | '.' :: r =>
    match r.takeWhile isDigit with
    | [] => ([], s)
    | ds =>
      match ((ds.take 9).reverse.dropWhile (· = '0')).reverse with
      | [] => ([], r.dropWhile isDigit)
      | kept => ('.' :: kept, r.dropWhile isDigit)
  | _ => ([], s)

/-- A time of day; a minute may have a second 60. -/
def time? (s : List Char) : Option (List Char × List Char) := do
  let (h, s) ← fixed? 2 0 23 s
  let (_, s) ← char? ':' s
  let (m, s) ← fixed? 2 0 59 s
  let (_, s) ← char? ':' s
  let (sec, s) ← fixed? 2 0 60 s
  let (f, s) := secondFraction s
  pure (h ++ ':' :: m ++ ':' :: sec ++ f, s)

/-- The distance from universal time; no distance is written with a plus. -/
def offset? : Reader (List Char)
  | 'Z' :: r => some (['Z'], r)
  | 'z' :: r => some (['Z'], r)
  | c :: r =>
    if c = '+' ∨ c = '-' then do
      let (h, r) ← fixed? 2 0 23 r
      let (_, r) ← char? ':' r
      let (m, r) ← fixed? 2 0 59 r
      let mark := if numberOf 10 (h ++ m) = 0 then '+' else c
      pure (mark :: h ++ ':' :: m, r)
    else none
  | [] => none

/-- A date with or without a time, or a time. -/
def datetime? (s : List Char) : Option (Value × List Char) :=
  match date? s with
  | some (d, r) =>
    let timed := match r with
      | c :: r' => if c = 'T' ∨ c = 't' ∨ c = ' ' then time? r' else none
      | [] => none
    match timed with
    | none => some (.datetime (String.ofList d), r)
    | some (t, r') =>
      match offset? r' with
      | some (o, r'') => some (.datetime (String.ofList (d ++ 'T' :: t ++ o)), r'')
      | none => some (.datetime (String.ofList (d ++ 'T' :: t)), r')
  | none => (time? s).map fun (t, r) => (.datetime (String.ofList t), r)

/-- A date, a time, a float or an integer. -/
def number? (s : List Char) : Option (Value × List Char) :=
  (datetime? s).orElse fun _ => (float? s).orElse fun _ => integer? s

end GrammarBuild.Toml
