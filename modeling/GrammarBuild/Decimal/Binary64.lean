/-
  GrammarBuild/Decimal/Binary64.lean
  ==================================
  **Decimal numbers as 64-bit binary numbers, and back** — a decimal number is
  rounded to the nearest binary number with 53 significant bits, ties to the even
  one (`Binary64.ofDecimal`), and a binary number is written with the fewest decimal
  digits that are rounded back to it (`Binary64.text`).

  All of it is exact arithmetic on natural numbers: a positive binary number is
  `m · 2 ^ q`, and the numbers that round to it are those between its neighbours'
  midpoints, both midpoints included exactly when `m` is even.
-/

namespace GrammarBuild

/-- A 64-bit binary number.  A finite one is `m · 2 ^ (q - 1074)` with its sign. -/
inductive Binary64 where
  | finite (negative : Bool) (m q : Nat)
  | infinite (negative : Bool)
  | notANumber
deriving DecidableEq, Repr

namespace Binary64

/-! ### Rounding -/

/-- A quotient rounded to the nearest whole number, ties to the even one. -/
def roundDiv (num den : Nat) : Nat :=
  let quotient := num / den
  let rest := num % den
  if 2 * rest < den then quotient
  else if 2 * rest = den then quotient + quotient % 2
  else quotient + 1

/-- Whether a quotient has at most 53 significant bits on the grid of an exponent. -/
def fitsGrid (num den q : Nat) : Bool :=
  decide (num * Nat.pow 2 1074 < Nat.pow 2 (q + 53) * den)

/-- The exponent of the grid on which a positive quotient has 53 significant bits,
    counted from the smallest grid. -/
def gridExponent (num den : Nat) : Nat :=
  -- `num / den` lies between `2 ^ (k - 1)` and `2 ^ (k + 1)`, where `k` is the
  -- difference of the logarithms
  let k : Int := (Nat.log2 num : Int) - (Nat.log2 den : Int)
  let low : Int := k - 1 - 52 + 1074
  let q := low.toNat
  -- one step up where the quotient has 54 bits on that grid
  if fitsGrid num den q then q else if fitsGrid num den (q + 1) then q + 1 else q + 2

/-- A positive quotient as a binary number; none if it is too large for one. -/
def ofQuotient? (num den : Nat) : Option (Nat × Nat) :=
  let q := gridExponent num den
  let m := roundDiv (num * Nat.pow 2 1074) (Nat.pow 2 q * den)
  let (m, q) := if m = Nat.pow 2 53 then (Nat.pow 2 52, q + 1) else (m, q)
  if q ≤ 2045 then some (m, q) else none

/-- The binary number nearest to `digits · 10 ^ exponent`. -/
def ofDecimal (negative : Bool) (digits : Nat) (exponent : Int) : Binary64 :=
  if digits = 0 then finite negative 0 0
  else
    let size : Int := (Nat.toDigits 10 digits).length + exponent
    -- beyond these bounds the answer no longer depends on the digits
    if 400 < size then infinite negative
    else if size < -400 then finite negative 0 0
    else
      let found :=
        if 0 ≤ exponent then ofQuotient? (digits * Nat.pow 10 exponent.toNat) 1
        else ofQuotient? digits (Nat.pow 10 (-exponent).toNat)
      match found with
      | some (m, q) => finite negative m q
      | none => infinite negative

/-! ### Fewest digits -/

/-- The interval of numbers that round to `m · 2 ^ (q - 1074)`, over the common
    denominator `2 ^ 1076`: lower end, value, upper end. -/
def interval (m q : Nat) : Nat × Nat × Nat :=
  let unit := Nat.pow 2 q
  let low := if m = Nat.pow 2 52 ∧ q ≠ 0 then (4 * m - 1) * unit else (4 * m - 2) * unit
  (low, 4 * m * unit, (4 * m + 2) * unit)

/-- Whether `d · 10 ^ k` rounds to the number, over the denominator `2 ^ 1076`. -/
def readsBack (m q d : Nat) (k : Int) : Bool :=
  let (low, _, high) := interval m q
  let (x, scale) :=
    if 0 ≤ k then (d * Nat.pow 10 k.toNat * Nat.pow 2 1076, 1)
    else (d * Nat.pow 2 1076, Nat.pow 10 (-k).toNat)
  if m % 2 = 0 then low * scale ≤ x && x ≤ high * scale
  else low * scale < x && x < high * scale

/-- The whole number of steps `10 ^ k` below the number, and whether the next step
    is at most as far from it. -/
def stepsBelow (m q : Nat) (k : Int) : Nat × Bool :=
  let value := m * Nat.pow 2 q
  let (num, den) :=
    if 0 ≤ k then (value, Nat.pow 2 1074 * Nat.pow 10 k.toNat)
    else (value * Nat.pow 10 (-k).toNat, Nat.pow 2 1074)
  (num / den, den ≤ 2 * (num % den))

/-- The first decimal grid, from coarse to fine, with a point that reads back.  Of
    two such points the nearer one is taken, the upper one if they are equally near. -/
def shortest (m q : Nat) : (fuel : Nat) → (k : Int) → Nat × Int
  | 0, k => ((stepsBelow m q k).1, k)
  | fuel + 1, k =>
    let (d, upperNearer) := stepsBelow m q k
    let below := 0 < d && readsBack m q d k
    let above := readsBack m q (d + 1) k
    if above && (upperNearer || !below) then (d + 1, k)
    else if below then (d, k)
    else shortest m q fuel (k - 1)

/-- Digits without the zeros at their end, with as much added to the exponent. -/
def trimZeros : (fuel : Nat) → Nat → Int → Nat × Int
  | 0, d, k => (d, k)
  | fuel + 1, d, k => if d ≠ 0 ∧ d % 10 = 0 then trimZeros fuel (d / 10) (k + 1) else (d, k)

/-- `d · 10 ^ k` without an exponent, with at least one digit after the point. -/
def positional (d : Nat) (k : Int) : String :=
  let digits := Nat.toDigits 10 d
  if 0 ≤ k then String.ofList (digits ++ List.replicate k.toNat '0') ++ ".0"
  else
    let places := (-k).toNat
    let padded := List.replicate (places + 1 - digits.length) '0' ++ digits
    let whole := padded.length - places
    String.ofList (padded.take whole ++ '.' :: padded.drop whole)

/-- A number as it is written in messages: its fewest digits, no exponent, and a
    point in every finite one. -/
def text : Binary64 → String
  | finite negative m q =>
    let body :=
      if m = 0 then "0.0"
      else
        let (d, k) := shortest m q 700 310
        let (d, k) := trimZeros 400 d k
        positional d k
    if negative then "-" ++ body else body
  | infinite negative => if negative then "-inf" else "inf"
  | notANumber => "NaN"

end Binary64

end GrammarBuild
