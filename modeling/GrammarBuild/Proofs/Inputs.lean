import GrammarBuild.Build.Fingerprint
import GrammarBuild.Proofs.Actions
import GrammarBuild.Proofs.Encoding
import GrammarBuild.Proofs.Tables
import Mathlib.Data.Set.Function

/-
  GrammarBuild/Proofs/Inputs.lean
  ===============================
  **What a step depends on** — the bytes that a fingerprint stands for.  The fingerprint
  of a step is a function of what the step reads (`runOn_ofStep`), and if no two of the
  digested byte strings have one digest, two fingerprints agree exactly when the steps
  depend on the same things (`CompileFingerprint.agrees_iff`, `LinkFingerprint.agrees_iff`).

  `CompileKey` and `LinkKey` are these things, files told apart by the components of
  their paths as the fingerprints do.
-/

namespace GrammarBuild

namespace FileTree

/-- The bytes of a file as they are read for its digest. -/
def readToDigest (t : FileTree) (cwd : Location) (p : Path) : Except Failure ByteArray := do
  let node ← Failure.within (.openingForDigest p) (Failure.lift .host (t.openRead cwd p))
  Failure.within (.reading p) (Failure.lift .host (bytesOf node))

end FileTree

/-- The digest of a file's bytes. -/
def digestOf (bytes : ByteArray) : String := Sha256.hexDigest bytes.toList

/-- Bytes are compared as the core library compares them, whatever else is imported. -/
instance (priority := 2000) instDecidableEqByteArray : DecidableEq ByteArray :=
  ByteArray.instDecidableEq

/-! ### Compile steps -/

/-- What a compile step reads. -/
structure CompileInputs where
  source : ByteArray
  headers : Table Path ByteArray

/-- What the object of a compile step depends on. -/
structure CompileKey where
  compiler : String
  argv : List String
  source : ByteArray
  headers : List (List Component × ByteArray)
deriving DecidableEq

namespace CompileInputs

/-- The headers below a directory, added to others. -/
def addHeaders (t : FileTree) (cwd : Location) (headers : Table Path ByteArray) (dir : Path) :
    Except Failure (Table Path ByteArray) :=
  if t.isDir cwd dir then do
    (← Glob.files t cwd dir CompileFingerprint.headerPatterns).foldlM
      (fun hs h => do return hs.insert h (← t.readToDigest cwd h)) headers
  else pure headers

/-- What a compile step whose paths are relative to `root` reads. -/
def ofStep (t : FileTree) (cwd : Location) (root : Path) (s : CompileStep) :
    Except Failure CompileInputs := do
  let source ← t.readToDigest cwd (root.join s.source)
  let headers ← s.includeDirs.foldlM (fun hs d => addHeaders t cwd hs (root.join d)) Table.empty
  return { source, headers }

/-- The fingerprint of a step that reads this. -/
def fingerprint (i : CompileInputs) (s : CompileStep) (compiler : String) : CompileFingerprint where
  sourceHash := digestOf i.source
  compiler := compiler
  argsHash := Digest.ofTexts s.command.argv
  headerHashes := i.headers.mapValues digestOf

/-- What the object of a step that reads this depends on. -/
def key (i : CompileInputs) (s : CompileStep) (compiler : String) : CompileKey where
  compiler := compiler
  argv := s.command.argv
  source := i.source
  headers := i.headers.content

end CompileInputs

/-! ### Fingerprints as functions of the files -/

section

variable {env : Environment} {h : Host}

theorem runOn_digestFile (env : Environment) (h : Host) (p : Path) :
    (digestFile p).runOn env h = ((h.files.readToDigest env.cwd p).map digestOf, h) := by
  have hopen : (Action.within (.openingForDigest p) do
      Action.ofFault (← Action.look fun t cwd => t.openRead cwd p)).runOn env h =
      (Failure.within (.openingForDigest p) (Failure.lift .host (h.files.openRead env.cwd p)), h) :=
    rfl
  unfold digestFile FileTree.readToDigest
  rw [Action.runOn_bind_same hopen fun node => Action.runOn_bind_same (r :=
    Failure.within (.reading p) (Failure.lift .host (FileTree.bytesOf node))) rfl fun bytes => rfl]
  cases Failure.within (.openingForDigest p) (Failure.lift .host (h.files.openRead env.cwd p)) with
  | error e => rfl
  | ok node =>
    cases hb : Failure.within (.reading p) (Failure.lift .host (FileTree.bytesOf node)) with
    | error e => simp only [bind, Except.bind, hb]; rfl
    | ok bytes => simp only [bind, Except.bind, hb]; rfl

/-- The digests of files are entered as their bytes are. -/
theorem runOn_insertDigest (headers : Table Path ByteArray) (p : Path) :
    (do return (headers.mapValues digestOf).insert p (← digestFile p) : Action _).runOn env h =
      ((do return headers.insert p (← h.files.readToDigest env.cwd p) : Except Failure _).map
        (Table.mapValues digestOf), h) := by
  rw [Action.runOn_bind_same (runOn_digestFile env h p) fun d => rfl]
  cases h.files.readToDigest env.cwd p with
  | error e => rfl
  | ok bytes =>
    have hm := Table.mapValues_insert digestOf headers p bytes
    simp only [Except.map, bind, Except.bind, pure, Except.pure, hm]

theorem runOn_addHeaders (headers : Table Path ByteArray) (dir : Path) :
    (CompileFingerprint.addHeaders (headers.mapValues digestOf) dir).runOn env h =
      ((CompileInputs.addHeaders h.files env.cwd headers dir).map (Table.mapValues digestOf), h) := by
  unfold CompileFingerprint.addHeaders CompileInputs.addHeaders
  rw [Action.runOn_bind, Action.runOn_isDir]
  cases h.files.isDir env.cwd dir with
  | false => rfl
  | true =>
    have hglob : (Action.globFiles dir CompileFingerprint.headerPatterns).runOn env h =
        (Glob.files h.files env.cwd dir CompileFingerprint.headerPatterns, h) := rfl
    simp only [Bool.not_true, Bool.false_eq_true, if_false, if_true, Action.runOn_bind, hglob]
    cases Glob.files h.files env.cwd dir CompileFingerprint.headerPatterns with
    | error e => rfl
    | ok found =>
      exact Action.runOn_foldlM_same (m := Table.mapValues digestOf) runOn_insertDigest found headers

/-- The fingerprint of a compile step is that of what it reads. -/
theorem CompileFingerprint.runOn_ofStep (root : Path) (s : CompileStep) (compiler : String) :
    (CompileFingerprint.ofStep root s compiler).runOn env h =
      ((CompileInputs.ofStep h.files env.cwd root s).map fun i => i.fingerprint s compiler, h) := by
  have hsource := runOn_digestFile env h (root.join s.source)
  have hheaders := Action.runOn_foldlM_same (m := Table.mapValues digestOf)
    (f := fun t d => CompileFingerprint.addHeaders t (root.join d))
    (g := fun hs d => CompileInputs.addHeaders h.files env.cwd hs (root.join d))
    (fun headers d => runOn_addHeaders headers (root.join d)) s.includeDirs Table.empty
  unfold CompileFingerprint.ofStep CompileInputs.ofStep
  rw [Action.runOn_bind, hsource]
  cases h.files.readToDigest env.cwd (root.join s.source) with
  | error e => rfl
  | ok source =>
    simp only [Except.map, Action.runOn_bind]
    rw [Table.mapValues_empty] at hheaders
    rw [hheaders]
    simp only [bind, Except.bind]
    cases s.includeDirs.foldlM (fun hs d => CompileInputs.addHeaders h.files env.cwd hs (root.join d))
      Table.empty with
    | error e => rfl
    | ok headers => rfl

end

/-! ### Link steps -/

/-- What the module of a link step depends on. -/
structure LinkKey where
  argv : List String
  objects : List (List Component × ByteArray)
deriving DecidableEq

/-- The objects that a link step reads: those that are there. -/
abbrev LinkInputs := Table Path ByteArray

namespace LinkInputs

def addObject (t : FileTree) (cwd : Location) (objects : LinkInputs) (o : Path) :
    Except Failure LinkInputs :=
  if t.pathExists cwd o then do return objects.insert o (← t.readToDigest cwd o) else pure objects

def ofStep (t : FileTree) (cwd : Location) (s : LinkStep) : Except Failure LinkInputs :=
  s.objects.foldlM (addObject t cwd) Table.empty

/-- The fingerprint of a step that reads this. -/
def fingerprint (i : LinkInputs) (s : LinkStep) : LinkFingerprint where
  objectHashes := i.mapValues digestOf
  argsHash := Digest.ofTexts s.command.argv

/-- What the module of a step that reads this depends on. -/
def key (i : LinkInputs) (s : LinkStep) : LinkKey where
  argv := s.command.argv
  objects := i.content

/-- A step reads the same from files in which each of its objects adds the same. -/
theorem ofStep_congr {t u : FileTree} {cwd : Location} {s : LinkStep}
    (same : ∀ o ∈ s.objects, ∀ i, addObject t cwd i o = addObject u cwd i o) :
    ofStep t cwd s = ofStep u cwd s := by
  unfold ofStep
  generalize (Table.empty : LinkInputs) = i
  generalize s.objects = objects at same
  induction objects generalizing i with
  | nil => rfl
  | cons o os ih =>
    rw [List.foldlM_cons, List.foldlM_cons, same o List.mem_cons_self]
    congr 1
    funext i'
    exact ih i' fun o' ho' => same o' (List.mem_cons_of_mem o ho')

end LinkInputs

/-- The fingerprint of a link step is that of what it reads. -/
theorem LinkFingerprint.runOn_ofStep {env : Environment} {h : Host} (s : LinkStep) :
    (LinkFingerprint.ofStep s).runOn env h =
      ((LinkInputs.ofStep h.files env.cwd s).map fun i => i.fingerprint s, h) := by
  have hadd (objects : LinkInputs) (o : Path) :
      (do
        if ← Action.pathExists o then
          return (objects.mapValues digestOf).insert o (← digestFile o)
        else return objects.mapValues digestOf : Action _).runOn env h =
      ((LinkInputs.addObject h.files env.cwd objects o).map (Table.mapValues digestOf), h) := by
    unfold LinkInputs.addObject
    rw [Action.runOn_bind, Action.runOn_pathExists]
    cases h.files.pathExists env.cwd o with
    | false => rfl
    | true => exact runOn_insertDigest objects o
  have hobjects := Action.runOn_foldlM_same (m := Table.mapValues digestOf)
    (f := fun t o => do
      if ← Action.pathExists o then return t.insert o (← digestFile o) else return t)
    (g := LinkInputs.addObject h.files env.cwd) hadd s.objects Table.empty
  rw [Table.mapValues_empty] at hobjects
  unfold LinkFingerprint.ofStep LinkFingerprint.objectHashesOf LinkInputs.ofStep
  rw [Action.runOn_bind, hobjects]
  cases s.objects.foldlM (LinkInputs.addObject h.files env.cwd) Table.empty with
  | error e => rfl
  | ok objects => rfl

/-! ### Fingerprints without collisions -/

/-- Of the byte strings in `S` no two have the same digest. -/
abbrev NoCollision (S : Set (List UInt8)) : Prop := S.InjOn Sha256.hexDigest

section

variable {S : Set (List UInt8)} (hS : NoCollision S)

include hS

theorem digestOf_inj {a b : ByteArray} (ha : a.toList ∈ S) (hb : b.toList ∈ S)
    (h : digestOf a = digestOf b) : a = b := Digest.toList_injective (hS ha hb h)

theorem ofTexts_inj {xs ys : List String} (hx : Digest.encode xs ∈ S) (hy : Digest.encode ys ∈ S)
    (hxz : Digest.ZeroFree xs) (hyz : Digest.ZeroFree ys)
    (h : Digest.ofTexts xs = Digest.ofTexts ys) : xs = ys :=
  Digest.encode_injective hxz hyz (hS hx hy h)

/-- Files that have the same digests under the same names have the same bytes. -/
theorem map_digestOf_inj {α : Type} {a b : List (α × ByteArray)}
    (ha : ∀ e ∈ a, e.2.toList ∈ S) (hb : ∀ e ∈ b, e.2.toList ∈ S)
    (h : a.map (fun e => (e.1, digestOf e.2)) = b.map fun e => (e.1, digestOf e.2)) : a = b := by
  induction a generalizing b with
  | nil =>
    cases b with
    | nil => rfl
    | cons y b => simp at h
  | cons x a ih =>
    cases b with
    | nil => simp at h
    | cons y b =>
      simp only [List.map_cons, List.cons.injEq, Prod.mk.injEq] at h
      obtain ⟨⟨h1, h2⟩, h3⟩ := h
      have hxy : x.2 = y.2 := digestOf_inj hS (ha x List.mem_cons_self) (hb y List.mem_cons_self) h2
      rw [Prod.ext h1 hxy, ih (fun e he => ha e (List.mem_cons_of_mem x he))
        (fun e he => hb e (List.mem_cons_of_mem y he)) h3]

end

namespace CompileKey

/-- The byte strings that are digested for a step that depends on this. -/
def digested (k : CompileKey) : List (List UInt8) :=
  k.source.toList :: Digest.encode k.argv :: k.headers.map fun e => e.2.toList

/-- The digested byte strings are among `S`, and the arguments hold no zero characters. -/
structure Within (S : Set (List UInt8)) (k : CompileKey) : Prop where
  digested : ∀ b ∈ k.digested, b ∈ S
  zeroFree : Digest.ZeroFree k.argv

/-- The fingerprint was taken of a step that depends on this. -/
structure Records (f : CompileFingerprint) (k : CompileKey) : Prop where
  source : f.sourceHash = digestOf k.source
  compiler : f.compiler = k.compiler
  argv : f.argsHash = Digest.ofTexts k.argv
  headers : f.headerHashes.content = k.headers.map fun e => (e.1, digestOf e.2)

theorem records_fingerprint (i : CompileInputs) (s : CompileStep) (compiler : String) :
    Records (i.fingerprint s compiler) (i.key s compiler) where
  source := rfl
  compiler := rfl
  argv := rfl
  headers := Table.content_mapValues digestOf i.headers

/-- Fingerprints agree exactly if they were taken of the same things. -/
theorem agrees_iff {S : Set (List UInt8)} (hS : NoCollision S) {f g : CompileFingerprint}
    {k k' : CompileKey} (hf : Records f k) (hg : Records g k') (hk : k.Within S)
    (hk' : k'.Within S) : f.agrees g = true ↔ k = k' := by
  have mem {k : CompileKey} (hk : k.Within S) :
      k.source.toList ∈ S ∧ Digest.encode k.argv ∈ S ∧ ∀ e ∈ k.headers, e.2.toList ∈ S := by
    have h := hk.digested
    simp only [CompileKey.digested, List.mem_cons, List.mem_map] at h
    exact ⟨h _ (.inl rfl), h _ (.inr (.inl rfl)), fun e he => h _ (.inr (.inr ⟨e, he, rfl⟩))⟩
  simp only [CompileFingerprint.agrees, Bool.and_eq_true, beq_iff_eq, Table.agrees_iff_content,
    hf.source, hf.compiler, hf.argv, hf.headers, hg.source, hg.compiler, hg.argv, hg.headers]
  obtain ⟨hs, ha, hh⟩ := mem hk
  obtain ⟨hs', ha', hh'⟩ := mem hk'
  constructor
  · rintro ⟨⟨⟨h1, h2⟩, h3⟩, h4⟩
    have e1 := digestOf_inj hS hs hs' h1
    have e3 := ofTexts_inj hS ha ha' hk.zeroFree hk'.zeroFree h3
    have e4 := map_digestOf_inj hS hh hh' h4
    cases k
    cases k'
    simp only at e1 h2 e3 e4
    rw [e1, h2, e3, e4]
  · rintro rfl
    exact ⟨⟨⟨rfl, rfl⟩, rfl⟩, rfl⟩

end CompileKey

namespace LinkKey

/-- The byte strings that are digested for a step that depends on this. -/
def digested (k : LinkKey) : List (List UInt8) :=
  Digest.encode k.argv :: k.objects.map fun e => e.2.toList

/-- The digested byte strings are among `S`, and the arguments hold no zero characters. -/
structure Within (S : Set (List UInt8)) (k : LinkKey) : Prop where
  digested : ∀ b ∈ k.digested, b ∈ S
  zeroFree : Digest.ZeroFree k.argv

/-- The fingerprint was taken of a step that depends on this. -/
structure Records (f : LinkFingerprint) (k : LinkKey) : Prop where
  argv : f.argsHash = Digest.ofTexts k.argv
  objects : f.objectHashes.content = k.objects.map fun e => (e.1, digestOf e.2)

theorem records_fingerprint (i : LinkInputs) (s : LinkStep) :
    Records (i.fingerprint s) (i.key s) where
  argv := rfl
  objects := Table.content_mapValues digestOf i

/-- Fingerprints agree exactly if they were taken of the same things. -/
theorem agrees_iff {S : Set (List UInt8)} (hS : NoCollision S) {f g : LinkFingerprint}
    {k k' : LinkKey} (hf : Records f k) (hg : Records g k') (hk : k.Within S)
    (hk' : k'.Within S) : f.agrees g = true ↔ k = k' := by
  have mem {k : LinkKey} (hk : k.Within S) :
      Digest.encode k.argv ∈ S ∧ ∀ e ∈ k.objects, e.2.toList ∈ S := by
    have h := hk.digested
    simp only [LinkKey.digested, List.mem_cons, List.mem_map] at h
    exact ⟨h _ (.inl rfl), fun e he => h _ (.inr ⟨e, he, rfl⟩)⟩
  simp only [LinkFingerprint.agrees, Bool.and_eq_true, beq_iff_eq, Table.agrees_iff_content,
    hf.argv, hf.objects, hg.argv, hg.objects]
  obtain ⟨ha, ho⟩ := mem hk
  obtain ⟨ha', ho'⟩ := mem hk'
  constructor
  · rintro ⟨h1, h2⟩
    have e1 := map_digestOf_inj hS ho ho' h1
    have e2 := ofTexts_inj hS ha ha' hk.zeroFree hk'.zeroFree h2
    cases k
    cases k'
    simp only at e1 e2
    rw [e1, e2]
  · rintro rfl
    exact ⟨rfl, rfl⟩

end LinkKey

end GrammarBuild
