import GrammarBuild.Digest.Components

/-
  GrammarBuild/Proofs/Encoding.lean
  =================================
  **The bytes a list of texts is digested as** — two lists of texts without zero
  characters that are written as the same bytes are the same list (`encode_injective`),
  since a zero byte stands at the end of each text and nowhere else.
-/

namespace GrammarBuild.Digest

/-! ### The bytes of a text -/

theorem toList_eq_data (b : ByteArray) : b.toList = b.data.toList := by
  have loop (i : Nat) (r : List UInt8) :
      ByteArray.toList.loop b i r = r.reverse ++ b.data.toList.drop i := by
    fun_induction ByteArray.toList.loop b i r with
    | case1 i r hi ih =>
      have hlen : i < b.data.toList.length := by simpa using hi
      have hget : b.data.toList[i] = b.get! i := by
        simp only [ByteArray.get!, Array.getElem_toList]
        rw [getElem!_pos b.data i (by simpa using hi)]
      rw [ih, List.drop_eq_getElem_cons hlen, hget, List.reverse_cons, List.append_assoc,
        List.singleton_append]
    | case2 i r hi =>
      have hlen : b.data.toList.length ≤ i := by simpa using hi
      rw [List.drop_eq_nil_of_le hlen, List.append_nil]
  rw [ByteArray.toList, loop]
  rfl

/-- Byte arrays with the same bytes are the same. -/
theorem toList_injective {a b : ByteArray} (h : a.toList = b.toList) : a = b := by
  rw [toList_eq_data, toList_eq_data, Array.toList_inj] at h
  exact ByteArray.ext h

theorem textBytes_eq_flatMap (s : String) : textBytes s = s.toList.flatMap String.utf8EncodeChar := by
  rw [textBytes, toList_eq_data, String.toUTF8_eq_toByteArray, ← String.utf8Encode_toList]
  exact List.toList_data_toByteArray

theorem textBytes_injective {s t : String} (h : textBytes s = textBytes t) : s = t :=
  String.toByteArray_inj.1 (toList_injective h)

/-! ### Zero bytes -/

/-- Only the zero character is written with a zero byte. -/
theorem zero_notMem_utf8EncodeChar {c : Char} (hc : c ≠ '\x00') : 0 ∉ String.utf8EncodeChar c := by
  have hv : c.val.toNat ≠ 0 := by
    intro h
    refine hc (Char.ext ?_)
    exact UInt32.toNat_inj.1 h
  have hbyte (n : Nat) (h0 : n % 256 ≠ 0) : (0 : UInt8) ≠ UInt8.ofNat n := by
    intro h
    have := congrArg UInt8.toNat h
    simp at this
    omega
  unfold String.utf8EncodeChar
  intro hmem
  simp only at hmem
  split at hmem
  · rw [List.mem_singleton] at hmem
    exact hbyte _ (by omega) hmem
  split at hmem
  · simp only [List.mem_cons, List.not_mem_nil, or_false] at hmem
    rcases hmem with h | h <;> exact hbyte _ (by omega) h
  split at hmem
  · simp only [List.mem_cons, List.not_mem_nil, or_false] at hmem
    rcases hmem with h | h | h <;> exact hbyte _ (by omega) h
  · simp only [List.mem_cons, List.not_mem_nil, or_false] at hmem
    rcases hmem with h | h | h | h <;> exact hbyte _ (by omega) h

/-- Texts without zero characters. -/
def ZeroFree (items : List String) : Prop := ∀ s ∈ items, '\x00' ∉ s.toList

theorem zero_notMem_textBytes {s : String} (h : '\x00' ∉ s.toList) : 0 ∉ textBytes s := by
  rw [textBytes_eq_flatMap, List.mem_flatMap]
  rintro ⟨c, hc, h0⟩
  exact zero_notMem_utf8EncodeChar (fun he => h (he ▸ hc)) h0

/-- What stands before the first zero byte and what stands behind it. -/
theorem append_zero_inj {a b r s : List UInt8} (ha : 0 ∉ a) (hb : 0 ∉ b)
    (h : a ++ 0 :: r = b ++ 0 :: s) : a = b ∧ r = s := by
  induction a generalizing b with
  | nil =>
    cases b with
    | nil => exact ⟨rfl, (List.cons.inj h).2⟩
    | cons x b =>
      have hx : 0 = x := (List.cons.inj h).1
      exact absurd (hx ▸ List.mem_cons_self) hb
  | cons x a ih =>
    cases b with
    | nil =>
      have hx : x = 0 := (List.cons.inj h).1
      exact absurd (hx ▸ List.mem_cons_self) ha
    | cons y b =>
      obtain ⟨rfl, htail⟩ := List.cons.inj h
      obtain ⟨rfl, hr⟩ := ih (fun h0 => ha (List.mem_cons_of_mem x h0))
        (fun h0 => hb (List.mem_cons_of_mem x h0)) htail
      exact ⟨rfl, hr⟩

theorem encode_cons (x : String) (xs : List String) : encode (x :: xs) = textBytes x ++ 0 :: encode xs := by
  simp [encode, encodeText]

/-- Texts without zero characters are told apart by the bytes they are digested as. -/
theorem encode_injective {xs ys : List String} (hx : ZeroFree xs) (hy : ZeroFree ys)
    (h : encode xs = encode ys) : xs = ys := by
  induction xs generalizing ys with
  | nil =>
    cases ys with
    | nil => rfl
    | cons y ys =>
      rw [encode_cons] at h
      simp [encode] at h
  | cons x xs ih =>
    cases ys with
    | nil =>
      rw [encode_cons] at h
      simp [encode] at h
    | cons y ys =>
      rw [encode_cons, encode_cons] at h
      obtain ⟨hxy, hrest⟩ := append_zero_inj
        (zero_notMem_textBytes (hx x List.mem_cons_self))
        (zero_notMem_textBytes (hy y List.mem_cons_self)) h
      rw [textBytes_injective hxy, ih (fun s hs => hx s (List.mem_cons_of_mem x hs))
        (fun s hs => hy s (List.mem_cons_of_mem y hs)) hrest]

end GrammarBuild.Digest
