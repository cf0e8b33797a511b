import GrammarBuild.Build.Cache
import GrammarBuild.Proofs.JsonRoundTrip
import GrammarBuild.Proofs.Tables

/-
  GrammarBuild/Proofs/CacheFile.lean
  ==================================
  **The fingerprint cache survives being written** — the text of a cache is read back as
  the very same cache (`read?_write`), keys being kept as they are spelled.
-/

namespace GrammarBuild.FingerprintCache

/-! ### Objects of named values -/

/-- The entries of an object are read back if each value is. -/
theorem entries?_ofMembers {α : Type} (value : Json → Option α) (toJson : α → Json)
    (h : ∀ a, value (toJson a) = some a) (es : List (String × α)) :
    entries? value (.ofMembers (es.map fun e => (e.1, toJson e.2))) = some es := by
  simp only [entries?, Json.ofMembers, List.map_map]
  induction es with
  | nil => rfl
  | cons e es ih =>
    simp only [List.map_cons, List.mapM_cons, Function.comp_apply, h, Option.pure_def,
      Option.bind_eq_bind, Option.bind_some] at ih ⊢
    rw [ih]
    rfl

theorem table_of_texts {α : Type} (t : Table Path α) :
    Table.ofList ((t.entries.map fun e => (e.1.text, e.2)).map fun e => ((⟨e.1⟩ : Path), e.2)) = t := by
  rw [List.map_map]
  have hid : t.entries.map ((fun e => ((⟨e.1⟩ : Path), e.2)) ∘ fun e => (e.1.text, e.2)) =
      t.entries := by
    simp [Function.comp_def]
  rw [hid, Table.ofList_entries]

/-! ### The parts of a cache -/

theorem hashes?_hashesToJson (t : Table Path String) : hashes? (hashesToJson t) = some t := by
  have hs : hashesToJson t =
      .ofMembers ((t.entries.map fun e => (e.1.text, e.2)).map fun e => (e.1, .string e.2)) := by
    simp [hashesToJson, Function.comp_def]
  have he := entries?_ofMembers text? .string (fun _ => rfl)
    (t.entries.map fun e => (e.1.text, e.2))
  rw [hashes?, hs, he, Option.map_some, table_of_texts]

theorem compile?_compileToJson (f : CompileFingerprint) : compile? (compileToJson f) = some f := by
  have hf : fields? ["source_hash", "compiler", "args_hash", "header_hashes"] (compileToJson f) =
      some [.string f.sourceHash, .string f.compiler, .string f.argsHash,
        hashesToJson f.headerHashes] := rfl
  simp only [compile?, hf, Option.bind_eq_bind, Option.bind_some, text?, hashes?_hashesToJson]
  rfl

theorem link?_linkToJson (f : LinkFingerprint) : link? (linkToJson f) = some f := by
  have hf : fields? ["object_hashes", "args_hash"] (linkToJson f) =
      some [hashesToJson f.objectHashes, .string f.argsHash] := rfl
  simp only [link?, hf, Option.bind_eq_bind, Option.bind_some, text?, hashes?_hashesToJson]
  rfl

theorem ofJson?_toJson (c : FingerprintCache) : ofJson? c.toJson = some c := by
  have hc : c.toJson = .ofMembers
      [("compile", .ofMembers ((c.compile.entries.map fun e => (e.1.text, e.2)).map
          fun e => (e.1, compileToJson e.2))),
       ("link", .ofMembers (c.link.entries.map fun e => (e.1, linkToJson e.2)))] := by
    simp [toJson, Function.comp_def]
  have hf (a b : Json) :
      fields? ["compile", "link"] (.ofMembers [("compile", a), ("link", b)]) = some [a, b] := rfl
  simp only [ofJson?, hc, hf, Option.bind_eq_bind, Option.bind_some,
    entries?_ofMembers compile? compileToJson compile?_compileToJson,
    entries?_ofMembers link? linkToJson link?_linkToJson, table_of_texts]
  have hl := Table.ofList_entries c.link
  simp [hl]

/-! ### The text of a cache -/

theorem plain_hashesToJson (t : Table Path String) : (hashesToJson t).plain = true := by
  simp [hashesToJson, Json.plain_ofMembers, Json.plain]

theorem plain_compileToJson (f : CompileFingerprint) : (compileToJson f).plain = true := by
  simp [compileToJson, Json.plain_ofMembers, Json.plain, plain_hashesToJson]

theorem plain_linkToJson (f : LinkFingerprint) : (linkToJson f).plain = true := by
  simp [linkToJson, Json.plain_ofMembers, Json.plain, plain_hashesToJson]

theorem plain_toJson (c : FingerprintCache) : c.toJson.plain = true := by
  simp [toJson, Json.plain_ofMembers, plain_compileToJson, plain_linkToJson]

/-- A cache that was written is read back as it was. -/
theorem read?_write (c : FingerprintCache) : read? c.write = some c := by
  simp only [read?, write, Json.read?_pretty _ (plain_toJson c), Option.bind_eq_bind,
    Option.bind_some, ofJson?_toJson]

end GrammarBuild.FingerprintCache
