import GrammarBuild.Proofs.Encoding
import GrammarBuild.Proofs.Layout

/-
  GrammarBuild/Proofs/FedTexts.lean
  =================================
  **What a digest can tell apart** — the bytes that a list of texts is digested as say
  where a text ends, but not whether a zero character or the end of a text put the zero
  byte there.  So they are those of the texts cut at their zero characters
  (`encode_flatMap_pieces`), and two lists give the same bytes exactly if they come to the
  same pieces (`encode_separates`).

  A digest may be fed its texts one by one or several at a time.  One portion adds the
  bytes of its texts (`feed_eq`), so that it does not matter how a list is portioned out
  (`foldl_feed`).
-/

namespace GrammarBuild.Digest

/-! ### Texts cut at zero characters -/

/-- The texts between the zero characters of a text. -/
def pieces (s : String) : List String := (List.splitOn '\x00' s.toList).map String.ofList

theorem zeroFree_pieces (s : String) : ZeroFree (pieces s) := by
  intro w hw
  obtain ⟨cs, hcs, rfl⟩ := List.mem_map.1 hw
  rw [String.toList_ofList]
  exact (notMem_of_mem_splitOn hcs).1

theorem zeroFree_flatMap_pieces (xs : List String) : ZeroFree (xs.flatMap pieces) := by
  intro w hw
  obtain ⟨x, -, hwx⟩ := List.mem_flatMap.1 hw
  exact zeroFree_pieces x w hwx

theorem pieces_of_notMem {s : String} (h : '\x00' ∉ s.toList) : pieces s = [s] := by
  rw [pieces, List.splitOn_eq_singleton h, List.map_singleton, String.ofList_toList]

/-- Texts without zero characters are not cut. -/
theorem ZeroFree.flatMap_pieces {xs : List String} (h : ZeroFree xs) : xs.flatMap pieces = xs := by
  induction xs with
  | nil => rfl
  | cons x xs ih =>
    obtain ⟨hx, hxs⟩ := List.forall_mem_cons.1 h
    rw [List.flatMap_cons, pieces_of_notMem hx, ih hxs, List.singleton_append]

/-- The zero byte behind a piece is that of the zero character where the text was cut, and
    behind the last piece the one that ends the text. -/
theorem flatMap_splitOn_zero (cs : List Char) :
    (List.splitOn '\x00' cs).flatMap (fun w => w.flatMap String.utf8EncodeChar ++ [0]) =
      cs.flatMap String.utf8EncodeChar ++ [0] := by
  have hzero : String.utf8EncodeChar '\x00' = [0] := rfl
  induction cs with
  | nil => rfl
  | cons c cs ih =>
    rcases Text.splitOn_cons_cases '\x00' c cs with ⟨hc, hs⟩ | ⟨-, w, ws, ht, hs⟩
    · rw [hs, List.flatMap_cons, ih, hc, List.flatMap_cons, hzero]
      rfl
    · rw [ht] at ih
      rw [hs]
      simp only [List.flatMap_cons, List.append_assoc] at ih ⊢
      rw [ih]

theorem encode_pieces (s : String) : encode (pieces s) = encodeText s := by
  rw [encodeText, textBytes_eq_flatMap, ← flatMap_splitOn_zero, encode, pieces, List.flatMap_map]
  refine List.flatMap_congr fun w _ => ?_
  rw [encodeText, textBytes_eq_flatMap, String.toList_ofList]

/-- Cutting the texts does not change the bytes. -/
theorem encode_flatMap_pieces (xs : List String) : encode (xs.flatMap pieces) = encode xs := by
  rw [encode, List.flatMap_assoc]
  exact List.flatMap_congr fun x _ => encode_pieces x

theorem encode_eq_iff {xs ys : List String} :
    encode xs = encode ys ↔ xs.flatMap pieces = ys.flatMap pieces := by
  constructor
  · intro h
    rw [← encode_flatMap_pieces xs, ← encode_flatMap_pieces ys] at h
    exact encode_injective (zeroFree_flatMap_pieces xs) (zeroFree_flatMap_pieces ys) h
  · intro h
    rw [← encode_flatMap_pieces xs, h, encode_flatMap_pieces]

/-! ### Digests fed in portions -/

/-- What a digest is fed at a time. -/
inductive Portion where
  | text (s : String)
  | texts (items : List String)

/-- The texts of a portion. -/
def Portion.items : Portion → List String
  | text s => [s]
  | texts items => items

/-- The bytes a digest was fed, with a text after them. -/
def feedText (fed : List UInt8) (s : String) : List UInt8 := fed ++ textBytes s ++ [0]

/-- The bytes a digest was fed, with a portion after them, text by text. -/
def feed (fed : List UInt8) : Portion → List UInt8
  | .text s => feedText fed s
  | .texts items => items.foldl feedText fed

theorem foldl_feedText (fed : List UInt8) (items : List String) :
    items.foldl feedText fed = fed ++ encode items := by
  induction items generalizing fed with
  | nil => exact (List.append_nil fed).symm
  | cons s items ih =>
    rw [List.foldl_cons, ih, feedText, encode_cons, List.append_assoc, List.append_assoc,
      List.singleton_append]

/-- A portion adds the bytes of its texts. -/
theorem feed_eq (fed : List UInt8) (p : Portion) : feed fed p = fed ++ encode p.items := by
  cases p with
  | text s => exact foldl_feedText fed [s]
  | texts items => exact foldl_feedText fed items

/-- Portions add the bytes of all their texts. -/
theorem foldl_feed (fed : List UInt8) (ps : List Portion) :
    ps.foldl feed fed = fed ++ encode (ps.flatMap Portion.items) := by
  induction ps generalizing fed with
  | nil => exact (List.append_nil fed).symm
  | cons p ps ih =>
    rw [List.foldl_cons, ih, feed_eq, List.flatMap_cons, encode_append, List.append_assoc]

/-- **The bytes of a list tell its texts apart, but for zero characters.**  However the texts
    of two lists are portioned out, a digest is fed the same bytes exactly if the lists come
    to the same pieces; the bytes are those that the list is digested as, and lists without
    zero characters have the same bytes only if they are the same. -/
theorem encode_separates (xs ys : List String) :
    (feed [] (.texts xs) = feed [] (.texts ys) ↔ xs.flatMap pieces = ys.flatMap pieces) ∧
    (ZeroFree xs → ZeroFree ys → feed [] (.texts xs) = feed [] (.texts ys) → xs = ys) ∧
    ∀ ps : List Portion, ps.flatMap Portion.items = xs →
      ps.foldl feed [] = feed [] (.texts xs) ∧ Sha256.hexDigest (ps.foldl feed []) = ofTexts xs := by
  have hfeed (items : List String) : feed [] (.texts items) = encode items := feed_eq [] (.texts items)
  simp only [hfeed]
  refine ⟨encode_eq_iff, fun hxs hys same => ?_, ?_⟩
  · rw [← hxs.flatMap_pieces, ← hys.flatMap_pieces]
    exact encode_eq_iff.1 same
  · rintro ps rfl
    rw [foldl_feed, List.nil_append]
    exact ⟨rfl, rfl⟩

/-- A flag and its value are not the flag with the value, in whichever way they are given; a
    zero character is as good as the end of a text. -/
theorem encode_separates_flags :
    ZeroFree ["-I", "src"] ∧ ZeroFree ["-Isrc"] ∧
      feed (feed [] (.text "-I")) (.text "src") ≠ feed [] (.texts ["-Isrc"]) ∧
      feed [] (.texts ["-DA\x00-DB", ""]) = feed [] (.texts ["-DA", "-DB", ""]) := by
  have hflags : ZeroFree ["-I", "src"] := by
    unfold ZeroFree
    decide
  have hflag : ZeroFree ["-Isrc"] := by
    unfold ZeroFree
    decide
  obtain ⟨-, separate, portions⟩ := encode_separates ["-I", "src"] ["-Isrc"]
  refine ⟨hflags, hflag, fun same => ?_, (encode_separates _ _).1.2 (by decide)⟩
  have hfed := (portions [.text "-I", .text "src"] rfl).1
  have hlists := separate hflags hflag (hfed.symm.trans same)
  simp at hlists

end GrammarBuild.Digest
