/-
  GrammarBuild/Digest/Sha256.lean
  ===============================
  **The SHA-256 digest of a byte sequence.**  A message is completed by the bit 1,
  zero bits and its bit length to a multiple of 64 bytes (`pad`), and each block of
  64 bytes is mixed into the chaining value by 64 rounds (`compress`).  `hexDigest`
  writes the eight words of the result as 64 lower-case hexadecimal digits.

  Words are numbers below `2 ^ 32`, and what is added or shifted is cut to such.  The
  message schedule is a list with the newest word first, so that digests of given bytes
  can be evaluated in proofs.
-/

namespace GrammarBuild.Sha256

/-- A number cut to 32 bits. -/
def cut (n : Nat) : Nat := n % 4294967296

/-- The chaining value: eight words. -/
structure Chain where
  a : Nat
  b : Nat
  c : Nat
  d : Nat
  e : Nat
  f : Nat
  g : Nat
  h : Nat
deriving DecidableEq

/-- The chaining value before the first block. -/
def start : Chain :=
  ⟨0x6a09e667, 0xbb67ae85, 0x3c6ef372, 0xa54ff53a, 0x510e527f, 0x9b05688c, 0x1f83d9ab, 0x5be0cd19⟩

/-- The constant of each of the 64 rounds. -/
def roundConstants : List Nat :=
  [0x428a2f98, 0x71374491, 0xb5c0fbcf, 0xe9b5dba5, 0x3956c25b, 0x59f111f1, 0x923f82a4, 0xab1c5ed5,
   0xd807aa98, 0x12835b01, 0x243185be, 0x550c7dc3, 0x72be5d74, 0x80deb1fe, 0x9bdc06a7, 0xc19bf174,
   0xe49b69c1, 0xefbe4786, 0x0fc19dc6, 0x240ca1cc, 0x2de92c6f, 0x4a7484aa, 0x5cb0a9dc, 0x76f988da,
   0x983e5152, 0xa831c66d, 0xb00327c8, 0xbf597fc7, 0xc6e00bf3, 0xd5a79147, 0x06ca6351, 0x14292967,
   0x27b70a85, 0x2e1b2138, 0x4d2c6dfc, 0x53380d13, 0x650a7354, 0x766a0abb, 0x81c2c92e, 0x92722c85,
   0xa2bfe8a1, 0xa81a664b, 0xc24b8b70, 0xc76c51a3, 0xd192e819, 0xd6990624, 0xf40e3585, 0x106aa070,
   0x19a4c116, 0x1e376c08, 0x2748774c, 0x34b0bcb5, 0x391c0cb3, 0x4ed8aa4a, 0x5b9cca4f, 0x682e6ff3,
   0x748f82ee, 0x78a5636f, 0x84c87814, 0x8cc70208, 0x90befffa, 0xa4506ceb, 0xbef9a3f7, 0xc67178f2]

/-- Rotation to the right. -/
def rotate (x n : Nat) : Nat := (x >>> n) ||| cut (x <<< (32 - n))

/-- The complement of a word. -/
def complement (x : Nat) : Nat := 4294967295 - x

/-- The big-endian word of four bytes. -/
def word (a b c d : UInt8) : Nat :=
  (a.toNat <<< 24) ||| (b.toNat <<< 16) ||| (c.toNat <<< 8) ||| d.toNat

/-- The words of a byte sequence, four bytes each. -/
def words : List UInt8 → List Nat
  | a :: b :: c :: d :: r => word a b c d :: words r
  | _ => []

/-- The next word of a message schedule of which at least sixteen are known, the newest
    first. -/
def nextWord (newest : List Nat) : Nat :=
  let ago (n : Nat) := newest.getD (n - 1) 0
  let x := ago 15
  let y := ago 2
  let s0 := rotate x 7 ^^^ rotate x 18 ^^^ (x >>> 3)
  let s1 := rotate y 17 ^^^ rotate y 19 ^^^ (y >>> 10)
  cut (ago 16 + s0 + ago 7 + s1)

/-- `n` further words of a message schedule. -/
def extend : Nat → List Nat → List Nat
  | 0, newest => newest
  | n + 1, newest => extend n (nextWord newest :: newest)

/-- One round with its constant and its schedule word. -/
def round (s : Chain) (kw : Nat × Nat) : Chain :=
  let s1 := rotate s.e 6 ^^^ rotate s.e 11 ^^^ rotate s.e 25
  let choice := (s.e &&& s.f) ^^^ (complement s.e &&& s.g)
  let t1 := s.h + s1 + choice + kw.1 + kw.2
  let s0 := rotate s.a 2 ^^^ rotate s.a 13 ^^^ rotate s.a 22
  let majority := (s.a &&& s.b) ^^^ (s.a &&& s.c) ^^^ (s.b &&& s.c)
  ⟨cut (t1 + (s0 + majority)), s.a, s.b, s.c, cut (s.d + t1), s.e, s.f, s.g⟩

/-- A block of 64 bytes mixed into the chaining value. -/
def compress (s : Chain) (block : List Nat) : Chain :=
  let schedule := (extend 48 block.reverse).reverse
  let t := (roundConstants.zip schedule).foldl round s
  ⟨cut (s.a + t.a), cut (s.b + t.b), cut (s.c + t.c), cut (s.d + t.d), cut (s.e + t.e), cut (s.f + t.f),
    cut (s.g + t.g), cut (s.h + t.h)⟩

/-- A number as eight bytes, highest first. -/
def lengthBytes (n : Nat) : List UInt8 :=
  [56, 48, 40, 32, 24, 16, 8, 0].map fun shift => UInt8.ofNat (n >>> shift)

/-- A message completed to whole blocks. -/
def pad (message : List UInt8) : List UInt8 :=
  let zeros := (119 - message.length % 64) % 64
  message ++ 0x80 :: (List.replicate zeros 0 ++ lengthBytes (8 * message.length))

/-- All blocks mixed in, one after the other; `n` is the number of blocks. -/
def absorb : Nat → Chain → List Nat → Chain
  | 0, s, _ => s
  | n + 1, s, ws => absorb n (compress s (ws.take 16)) (ws.drop 16)

/-- The digest of a message: eight words. -/
def digest (message : List UInt8) : List Nat :=
  let padded := words (pad message)
  let s := absorb (padded.length / 16) start padded
  [s.a, s.b, s.c, s.d, s.e, s.f, s.g, s.h]

/-- A number below 16 as a lower-case hexadecimal digit. -/
def hexDigit (n : Nat) : Char :=
  if n < 10 then Char.ofNat ('0'.toNat + n) else Char.ofNat ('a'.toNat + (n - 10))

/-- Words as hexadecimal digits, eight each. -/
def hex (ws : List Nat) : List Char :=
  ws.flatMap fun w => [28, 24, 20, 16, 12, 8, 4, 0].map fun shift => hexDigit ((w >>> shift) % 16)

/-- The digest of a message as 64 hexadecimal digits. -/
def hexDigest (message : List UInt8) : String := String.ofList (hex (digest message))

end GrammarBuild.Sha256
