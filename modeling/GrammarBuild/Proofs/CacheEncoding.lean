import GrammarBuild.Proofs.CacheOnDisk
import GrammarBuild.Proofs.JsonGrammar
import Mathlib.Data.List.Forall2

/-
  GrammarBuild/Proofs/CacheEncoding.lean
  ======================================
  **What encodes a fingerprint cache** — told of the bytes of a file without the reader:
  UTF-8 of one JSON value in which every field of every record stands once (`Record`) and
  the tables are objects of entries (`Entries`).

  A cache is loaded from nothing else: bytes that encode none count as the empty cache
  (`encodes_of_read?`).
-/

namespace GrammarBuild

namespace Json

/-- Among the members the field stands once, and it has this value. -/
def FieldIs (ms : List (Option String × Json)) (name : String) (j : Json) : Prop :=
  ∃ before after, ms = before ++ (some name, j) :: after ∧
    ∀ m ∈ before ++ after, m.1 ≠ some name

/-- The values of the named fields of a record.  It is an object, other members of which
    mean nothing, or the array of the values. -/
inductive Record (names : List String) : Json → List Json → Prop where
  | named {ms : List (Option String × Json)} {js : List Json} (keys : ∀ m ∈ ms, m.1 ≠ none)
    (fields : List.Forall₂ (FieldIs ms) names js) : Record names (object ms) js
  | listed {js : List Json} (length : js.length = names.length) : Record names (array js) js

/-- The entries of an object with texts as keys, each value being of the form `V`. -/
def Entries {α : Type} (V : α → Json → Prop) (es : List (String × α)) (j : Json) : Prop :=
  ∃ ms, j = object ms ∧ List.Forall₂ (fun e m => m.1 = some e.1 ∧ V e.2 m.2) es ms

end Json

/-! ### Encodings -/

/-- A later entry of a path replaces an earlier one. -/
def Table.ofTexts {α : Type} (es : List (String × α)) : Table Path α :=
  .ofList (es.map fun e => (⟨e.1⟩, e.2))

/-- An object of digests by path. -/
def EncodesHashes (t : Table Path String) (j : Json) : Prop :=
  ∃ es, Json.Entries (fun s j => j = .string s) es j ∧ t = Table.ofTexts es

def CompileFingerprint.Encodes (f : CompileFingerprint) (j : Json) : Prop :=
  ∃ headers, Json.Record ["source_hash", "compiler", "args_hash", "header_hashes"] j
      [.string f.sourceHash, .string f.compiler, .string f.argsHash, headers] ∧
    EncodesHashes f.headerHashes headers

def LinkFingerprint.Encodes (f : LinkFingerprint) (j : Json) : Prop :=
  ∃ objects, Json.Record ["object_hashes", "args_hash"] j [objects, .string f.argsHash] ∧
    EncodesHashes f.objectHashes objects

namespace FingerprintCache

def Encodes (c : FingerprintCache) (j : Json) : Prop :=
  ∃ compiles links fs gs, Json.Record ["compile", "link"] j [compiles, links] ∧
    Json.Entries CompileFingerprint.Encodes fs compiles ∧ c.compile = Table.ofTexts fs ∧
    Json.Entries LinkFingerprint.Encodes gs links ∧ c.link = Table.ofList gs

/-- The bytes are UTF-8 of one JSON value that encodes the cache. -/
def EncodedBy (c : FingerprintCache) (bytes : ByteArray) : Prop :=
  ∃ (text : String) (j : Json), bytes = text.toUTF8 ∧ Json.Document j text.toList ∧ c.Encodes j

/-! ### The reader keeps to the encoding -/

theorem forall₂_of_mapM {α β : Type} {f : α → Option β} {l : List α} {l' : List β}
    (h : l.mapM f = some l') : List.Forall₂ (fun a b => f a = some b) l l' := by
  induction l generalizing l' with
  | nil =>
    simp only [List.mapM_nil, Option.pure_def, Option.some.injEq] at h
    subst h
    exact .nil
  | cons a l ih =>
    rw [List.mapM_cons] at h
    obtain ⟨b, hb, hrest⟩ := Option.bind_eq_some_iff.1 h
    obtain ⟨l', hl', hlast⟩ := Option.bind_eq_some_iff.1 hrest
    injection hlast with hlast
    subst hlast
    exact .cons hb (ih hl')

/-- Members with their keys as texts. -/
theorem eq_map_of_mapM_fst {ms : List (Option String × Json)} {keys : List String}
    (h : ms.mapM Prod.fst = some keys) :
    ms = (keys.zip (ms.map Prod.snd)).map fun m => (some m.1, m.2) := by
  have hall : List.Forall₂ (fun m k => m.1 = some k) ms keys := forall₂_of_mapM h
  clear h
  induction hall with
  | nil => rfl
  | cons hm _ ih =>
    rw [List.map_cons, List.zip_cons_cons, List.map_cons, ← ih, ← hm]

/-- A member that is alone with its key. -/
theorem fieldIs_of_filter {ms : List (String × Json)} {n : String} {m : String × Json}
    (h : ms.filter (fun m => m.1 == n) = [m]) :
    Json.FieldIs (ms.map fun m => (some m.1, m.2)) n m.2 := by
  obtain ⟨before, after, rfl, hbefore, hm, hafter⟩ := List.filter_eq_cons_iff.1 h
  have hkey : m.1 = n := by simpa using hm
  refine ⟨before.map fun m => (some m.1, m.2), after.map fun m => (some m.1, m.2), ?_, ?_⟩
  · simp [hkey]
  · rw [← List.map_append]
    intro m' hm'
    obtain ⟨e, he, rfl⟩ := List.mem_map.1 hm'
    rcases List.mem_append.1 he with he | he
    · simpa using hbefore e he
    · simpa using List.filter_eq_nil_iff.1 hafter e he

theorem record_of_fields? {names : List String} {j : Json} {js : List Json}
    (h : fields? names j = some js) : Json.Record names j js := by
  unfold fields? at h
  split at h
  · split at h
    · rename_i hlen
      injection h with h
      subst h
      exact .listed hlen
    · cases h
  · rename_i ms
    obtain ⟨keys, hkeys, hjs⟩ := Option.bind_eq_some_iff.1 h
    have hms := eq_map_of_mapM_fst hkeys
    rw [hms]
    have htext : ∀ m ∈ (keys.zip (ms.map Prod.snd)).map fun m => (some m.1, m.2), m.1 ≠ none := by
      intro m hm
      obtain ⟨e, -, rfl⟩ := List.mem_map.1 hm
      exact Option.some_ne_none _
    refine .named htext ((forall₂_of_mapM hjs).imp fun n j hj => ?_)
    split at hj
    · rename_i m hm
      injection hj with hj
      subst hj
      exact fieldIs_of_filter hm
    · cases hj
  · cases h

theorem eq_string_of_text? {j : Json} {s : String} (h : text? j = some s) : j = .string s := by
  unfold text? at h
  split at h
  · injection h with h
    rw [h]
  · cases h

theorem entries_of_entries? {α : Type} {value : Json → Option α} {V : α → Json → Prop}
    (hV : ∀ {j a}, value j = some a → V a j) {j : Json} {es : List (String × α)}
    (h : entries? value j = some es) : Json.Entries V es j := by
  unfold entries? at h
  split at h
  · rename_i ms
    refine ⟨ms, rfl, (forall₂_of_mapM h).flip.imp fun e m hm => ?_⟩
    obtain ⟨k, hk, hrest⟩ := Option.bind_eq_some_iff.1 hm
    obtain ⟨a, ha, he⟩ := Option.bind_eq_some_iff.1 hrest
    injection he with he
    subst he
    exact ⟨hk, hV ha⟩
  · cases h

theorem encodesHashes_of_hashes? {j : Json} {t : Table Path String} (h : hashes? j = some t) :
    EncodesHashes t j := by
  obtain ⟨es, hes, rfl⟩ := Option.map_eq_some_iff.1 h
  exact ⟨es, entries_of_entries? eq_string_of_text? hes, rfl⟩

theorem encodes_of_compile? {j : Json} {f : CompileFingerprint} (h : compile? j = some f) :
    f.Encodes j := by
  obtain ⟨js, hjs, hrest⟩ := Option.bind_eq_some_iff.1 h
  split at hrest
  · rename_i s c a headers
    obtain ⟨s', hs, h₁⟩ := Option.bind_eq_some_iff.1 hrest
    obtain ⟨c', hc, h₂⟩ := Option.bind_eq_some_iff.1 h₁
    obtain ⟨a', ha, h₃⟩ := Option.bind_eq_some_iff.1 h₂
    obtain ⟨t, ht, hf⟩ := Option.bind_eq_some_iff.1 h₃
    injection hf with hf
    subst hf
    rw [eq_string_of_text? hs, eq_string_of_text? hc, eq_string_of_text? ha] at hjs
    exact ⟨headers, record_of_fields? hjs, encodesHashes_of_hashes? ht⟩
  · cases hrest

theorem encodes_of_link? {j : Json} {f : LinkFingerprint} (h : link? j = some f) : f.Encodes j := by
  obtain ⟨js, hjs, hrest⟩ := Option.bind_eq_some_iff.1 h
  split at hrest
  · rename_i objects a
    obtain ⟨t, ht, h₁⟩ := Option.bind_eq_some_iff.1 hrest
    obtain ⟨a', ha, hf⟩ := Option.bind_eq_some_iff.1 h₁
    injection hf with hf
    subst hf
    rw [eq_string_of_text? ha] at hjs
    exact ⟨objects, record_of_fields? hjs, encodesHashes_of_hashes? ht⟩
  · cases hrest

theorem encodes_of_ofJson? {j : Json} {c : FingerprintCache} (h : ofJson? j = some c) :
    c.Encodes j := by
  obtain ⟨js, hjs, hrest⟩ := Option.bind_eq_some_iff.1 h
  split at hrest
  · rename_i compiles links
    obtain ⟨fs, hfs, h₁⟩ := Option.bind_eq_some_iff.1 hrest
    obtain ⟨gs, hgs, hc⟩ := Option.bind_eq_some_iff.1 h₁
    injection hc with hc
    subst hc
    exact ⟨compiles, links, fs, gs, record_of_fields? hjs,
      entries_of_entries? encodes_of_compile? hfs, rfl, entries_of_entries? encodes_of_link? hgs, rfl⟩
  · cases hrest

/-- What is read from some bytes is encoded by them. -/
theorem encodedBy_of_read? {bytes : ByteArray} {text : String} {c : FingerprintCache}
    (utf8 : String.fromUTF8? bytes = some text) (h : read? text = some c) : c.EncodedBy bytes := by
  obtain ⟨j, hj, hc⟩ := Option.bind_eq_some_iff.1 h
  exact ⟨text, j, FileTree.eq_toUTF8_of_fromUTF8? utf8, Json.document_of_read? hj,
    encodes_of_ofJson? hc⟩

/-- Bytes that encode no cache count as the empty one. -/
theorem ofBytes_of_forall_not_encodedBy {bytes : ByteArray}
    (none : ∀ c, ¬ EncodedBy c bytes) : ofBytes bytes = {} := by
  unfold ofBytes
  cases hu : String.fromUTF8? bytes with
  | none => rfl
  | some text =>
    rw [Option.bind_some]
    cases hr : read? text with
    | none => rfl
    | some c => exact absurd (encodedBy_of_read? hu hr) (none c)

theorem ofFile_of_forall_not_encodedBy {t : FileTree} {cwd : Location} {p : Path}
    (none : ∀ bytes c, t.readFile cwd p = .ok bytes → ¬ EncodedBy c bytes) : ofFile t cwd p = {} := by
  unfold ofFile
  split
  · rename_i bytes hread
    exact ofBytes_of_forall_not_encodedBy fun c => none bytes c hread
  · rfl

/-! ### The disk -/

/-- Where any text can be written, every cache is saved, and the next load gives exactly
    the cache that was saved.  A path under which there are no bytes that encode a cache
    gives the empty one.  Loading changes nothing. -/
theorem cache_survives_disk (p : Path) (env : Environment) (h : Host) :
    (∀ text h', (Action.writeString p text).runOn env h = (.ok (), h') → ∀ c : FingerprintCache,
      ∃ saved, (c.save p).runOn env h = (.ok (), saved) ∧
        (load p).runOn env saved = (.ok c, saved)) ∧
    ((∀ bytes c, h.files.readFile env.cwd p = .ok bytes → ¬ EncodedBy c bytes) →
      ∃ h', (load p).runOn env h = (.ok {}, h') ∧ h.OnlyTold h') := by
  refine ⟨fun text h' ok c => ?_, fun none => ?_⟩
  · obtain ⟨saved, hw⟩ := Action.runOn_writeString_any ok c.write
    have hsave : (c.save p).runOn env h = (.ok (), saved) := by
      rw [save, Action.runOn_within, hw]
      rfl
    have hsaves := (saves_of_runOn c p env h).1
    rw [hsave] at hsaves
    exact ⟨saved, hsave, hsaves.runOn_load⟩
  · obtain ⟨h', hload, htold⟩ := runOn_load p env h
    rw [ofFile_of_forall_not_encodedBy none] at hload
    exact ⟨h', hload, htold⟩

/-- On the empty host a cache can be saved in the root, and there is none before. -/
theorem cache_survives_disk_root :
    (∃ h', (Action.writeString ⟨"/cache.json"⟩ "").runOn default { files := ∅ } =
      (.ok (), h')) ∧
    (∀ c : FingerprintCache, ∃ saved,
      (c.save ⟨"/cache.json"⟩).runOn default { files := ∅ } = (.ok (), saved) ∧
        (load ⟨"/cache.json"⟩).runOn default saved = (.ok c, saved)) ∧
    FileTree.readFile ∅ [] ⟨"/cache.json"⟩ = .error .notFound ∧
    ∃ h', (load ⟨"/cache.json"⟩).runOn default { files := ∅ } = (.ok {}, h') := by
  have hmissing : FileTree.readFile ∅ [] ⟨"/cache.json"⟩ = .error .notFound := rfl
  have hsurvives := cache_survives_disk ⟨"/cache.json"⟩ default { files := ∅ }
  refine ⟨⟨_, rfl⟩, hsurvives.1 "" _ rfl, hmissing, ?_⟩
  obtain ⟨h', hload, -⟩ := hsurvives.2 fun bytes c hread => by
    rw [show (default : Environment).cwd = [] from rfl, hmissing] at hread
    cases hread
  exact ⟨h', hload⟩

end FingerprintCache

end GrammarBuild
