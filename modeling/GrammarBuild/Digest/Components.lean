import GrammarBuild.Digest.Sha256
import GrammarBuild.Path.Basic

/-
  GrammarBuild/Digest/Components.lean
  ===================================
  **Digests of lists of texts** — a list is fed to the digest as the bytes of each
  text followed by one zero byte (`encode`), so that `-I src` and `-Isrc` give
  different digests although they are spelled with the same letters.
-/

namespace GrammarBuild.Digest

/-- The bytes of a text. -/
def textBytes (s : String) : List UInt8 := s.toUTF8.toList

/-- One text of a list: its bytes and the byte that ends it. -/
def encodeText (s : String) : List UInt8 := textBytes s ++ [0]

/-- The bytes a list of texts is digested as. -/
def encode (items : List String) : List UInt8 := items.flatMap encodeText

/-- Writing two lists one after the other is writing their concatenation. -/
theorem encode_append (xs ys : List String) : encode (xs ++ ys) = encode xs ++ encode ys := by
  simp [encode]

/-- The digest of a list of texts. -/
def ofTexts (items : List String) : String := Sha256.hexDigest (encode items)

/-- Eight hexadecimal digits that stand for a path, so that two sources with one
    file stem get different object names. -/
def ofPath (p : Path) : String := String.ofList ((ofTexts [p.text]).toList.take 8)

end GrammarBuild.Digest
