import GrammarBuild.Proofs.Phases
import Mathlib.Data.List.Dedup

/-
  GrammarBuild/Proofs/OutOfDate.lean
  ==================================
  **Exactly the steps that are out of date run** — over whole histories of builds.

  A `Record` says of each object and each module what it was made of, or found to be made
  of, when a step for it last came out well.  It is no part of the program: it grows along
  with a history (`Built`), and `Tracks` says that the fingerprints which are kept on disk
  are those of the record.  From this, `started_exactly_outOfDate` says which processes
  the next build starts: those of the steps whose result is absent, not in the cache, or
  recorded with other inputs.
-/

namespace GrammarBuild

/-! ### What results were last made of -/

/-- What objects, by the components of their paths, and modules, by their targets' names,
    were last made of or found to be made of. -/
structure Record where
  compile : List Component → Option CompileKey
  link : String → Option LinkKey

namespace Record

/-- The record before the first build. -/
def empty : Record := ⟨fun _ => none, fun _ => none⟩

def withCompile (R : Record) (object : Path) (k : CompileKey) : Record :=
  { R with compile := fun cs => if cs = object.components then some k else R.compile cs }

def withLink (R : Record) (target : String) (k : LinkKey) : Record :=
  { R with link := fun n => if n = target then some k else R.link n }

end Record

section

variable (env : Environment) (c : BuildContext)

/-- What a compile step reads at its turn, if it can be read. -/
def CompileReads (turn : CompileTurn) (i : CompileInputs) : Prop :=
  CompileInputs.ofStep turn.files env.cwd c.root turn.step = .ok i

/-- What a link step reads at its turn, if it can be read. -/
def LinkReads (turn : LinkTurn) (i : LinkInputs) : Prop :=
  LinkInputs.ofStep turn.files env.cwd turn.step = .ok i

/-- A compile step that came out well is entered. -/
def Record.afterCompile (R : Record) (turn : CompileTurn) : Record :=
  match turn.result, CompileInputs.ofStep turn.files env.cwd c.root turn.step with
  | .ok _, .ok i => R.withCompile turn.step.output (i.key turn.step c.toolchain.identity)
  | _, _ => R

/-- A link step that came out well is entered. -/
def Record.afterLink (R : Record) (turn : LinkTurn) : Record :=
  match turn.result, LinkInputs.ofStep turn.files env.cwd turn.step with
  | .ok _, .ok i => R.withLink turn.step.target (i.key turn.step)
  | _, _ => R

/-- The record after some turns. -/
def Record.afterTurns (R : Record) (turns : List CompileTurn) (links : List LinkTurn) : Record :=
  links.foldl (afterLink env) (turns.foldl (afterCompile env c) R)

/-! ### Histories -/

/-- The byte strings that are digested in some turns. -/
def digestedBy (turns : List CompileTurn) (links : List LinkTurn) : List (List UInt8) :=
  (turns.flatMap fun turn =>
    match CompileInputs.ofStep turn.files env.cwd c.root turn.step with
    | .ok i => (i.key turn.step c.toolchain.identity).digested
    | .error _ => []) ++
  links.flatMap fun turn =>
    match LinkInputs.ofStep turn.files env.cwd turn.step with
    | .ok i => (i.key turn.step).digested
    | .error _ => []

/-- All that is digested in some turns is among `S`, and no argument holds a zero
    character. -/
structure DigestsWithin (S : Set (List UInt8)) (turns : List CompileTurn) (links : List LinkTurn) :
    Prop where
  digested : ∀ b ∈ digestedBy env c turns links, b ∈ S
  compileArgs : ∀ turn ∈ turns, Digest.ZeroFree turn.step.command.argv
  linkArgs : ∀ turn ∈ links, Digest.ZeroFree turn.step.command.argv

variable {env c}

theorem DigestsWithin.compile {S : Set (List UInt8)} {turns : List CompileTurn}
    {links : List LinkTurn} (w : DigestsWithin env c S turns links) :
    ∀ turn ∈ turns, ∀ i, CompileReads env c turn i →
      (i.key turn.step c.toolchain.identity).Within S := by
  intro turn ht i hi
  refine ⟨fun b hb => w.digested b ?_, w.compileArgs turn ht⟩
  refine List.mem_append_left _ (List.mem_flatMap.2 ⟨turn, ht, ?_⟩)
  rw [CompileReads] at hi
  simpa only [hi] using hb

theorem DigestsWithin.link {S : Set (List UInt8)} {turns : List CompileTurn}
    {links : List LinkTurn} (w : DigestsWithin env c S turns links) :
    ∀ turn ∈ links, ∀ i, LinkReads env turn i → (i.key turn.step).Within S := by
  intro turn ht i hi
  refine ⟨fun b hb => w.digested b ?_, w.linkArgs turn ht⟩
  refine List.mem_append_right _ (List.mem_flatMap.2 ⟨turn, ht, ?_⟩)
  rw [LinkReads] at hi
  simpa only [hi] using hb

/-- Turns that are among others digest nothing but what those digest. -/
theorem DigestsWithin.of_subset {all : List (List UInt8)} {turns turns' : List CompileTurn}
    {links links' : List LinkTurn} (digested : digestedBy env c turns links ⊆ all)
    (compiles : turns ⊆ turns') (linked : links ⊆ links')
    (compileArgs : ∀ turn ∈ turns', Digest.ZeroFree turn.step.command.argv)
    (linkArgs : ∀ turn ∈ links', Digest.ZeroFree turn.step.command.argv) :
    DigestsWithin env c { b | b ∈ all.dedup } turns links where
  digested _ hb := List.mem_dedup.2 (digested hb)
  compileArgs turn ht := compileArgs turn (compiles ht)
  linkArgs turn ht := linkArgs turn (linked ht)

end

/-- Histories of a project whose cache is kept at `place`: builds of any plans, with any
    tools, that can save the cache, and between them changes of any files but that of the
    cache, which can only be removed. -/
inductive Built (S : Set (List UInt8)) (place : Location) : FileTree → Record → Prop where
  | start {t : FileTree} (empty : FingerprintCache.keptAt t place = {}) : Built S place t .empty
  | build {R : Record} (env : Environment) (c : BuildContext) (plan : BuildPlan) (h : Host)
    (before : Built S place h.files R)
    (kept : c.fingerprintPath.locate env.cwd = place)
    (within : DigestsWithin env c S (c.planCompileTurns plan env h) (c.planLinkTurns plan env h))
    (saved : CacheSaved ((c.execute plan).runOn env h).1) :
    Built S place ((c.execute plan).runOn env h).2.files
      (R.afterTurns env c (c.planCompileTurns plan env h) (c.planLinkTurns plan env h))
  | edit {t u : FileTree} {R : Record} (before : Built S place t R)
    (kept : u.node? place = t.node? place ∨ u.node? place = none) : Built S place u R

/-! ### The cache follows the record -/

/-- Each fingerprint in the cache was taken of what the record says. -/
structure Tracks (S : Set (List UInt8)) (cache : FingerprintCache) (R : Record) : Prop where
  compile : ∀ p f, cache.compile.get? p = some f →
    ∃ k, R.compile p.components = some k ∧ CompileKey.Records f k ∧ k.Within S
  link : ∀ n f, cache.link.get? n = some f →
    ∃ k, R.link n = some k ∧ LinkKey.Records f k ∧ k.Within S

namespace Tracks

variable {S : Set (List UInt8)} {cache : FingerprintCache} {R : Record}

theorem empty (R : Record) : Tracks S {} R where
  compile p f h := by simp at h
  link n f h := by simp at h

theorem recordCompile (tr : Tracks S cache R) {p : Path} {f : CompileFingerprint} {k : CompileKey}
    (hf : CompileKey.Records f k) (hk : k.Within S) :
    Tracks S (cache.recordCompile p f) (R.withCompile p k) where
  compile q g h := by
    simp only [FingerprintCache.recordCompile, Table.get?_insert, Path.compare_eq_eq_iff] at h
    simp only [Record.withCompile]
    split at h
    · rename_i hq
      injection h with h
      rw [if_pos hq, ← h]
      exact ⟨k, rfl, hf, hk⟩
    · rename_i hq
      rw [if_neg hq]
      exact tr.compile q g h
  link n g h := tr.link n g h

theorem recordLink (tr : Tracks S cache R) {n : String} {f : LinkFingerprint} {k : LinkKey}
    (hf : LinkKey.Records f k) (hk : k.Within S) :
    Tracks S (cache.recordLink n f) (R.withLink n k) where
  compile q g h := tr.compile q g h
  link m g h := by
    simp only [FingerprintCache.recordLink, Table.get?_insert, Std.LawfulEqCmp.compare_eq_iff_eq] at h
    simp only [Record.withLink]
    split at h
    · rename_i hm
      injection h with h
      rw [if_pos hm, ← h]
      exact ⟨k, rfl, hf, hk⟩
    · rename_i hm
      rw [if_neg hm]
      exact tr.link m g h

end Tracks

section

variable {env : Environment} {c : BuildContext} {S : Set (List UInt8)}

/-- A compile step that comes out well has read its inputs and gives their fingerprint. -/
theorem Compiles.reads {cache : FingerprintCache} {s : CompileStep} {t t₁ : FileTree}
    {d : Compiled} {procs : List Invocation} (h : Compiles env c cache s t (.ok d) t₁ procs) :
    ∃ i, CompileInputs.ofStep t env.cwd c.root s = .ok i ∧ d.fingerprint = c.compileNow s i := by
  cases h with
  | fresh inputs => exact ⟨_, inputs, rfl⟩
  | succeeded inputs => exact ⟨_, inputs, rfl⟩

/-- A link step that comes out well has read its objects and records their fingerprint. -/
theorem Links.reads {cache cache₁ : FingerprintCache} {rebuilt : Bool} {s : LinkStep}
    {t t₁ : FileTree} {a : Artifact} {procs : List Invocation}
    (h : Links env c cache rebuilt s t (.ok (a, cache₁)) t₁ procs) :
    ∃ i, LinkInputs.ofStep t env.cwd s = .ok i ∧
      cache₁ = cache.recordLink s.target (i.fingerprint s) := by
  cases h with
  | fresh inputs => exact ⟨_, inputs, rfl⟩
  | succeeded inputs => exact ⟨_, inputs, rfl⟩

/-- After the compile steps the cache tracks the record again. -/
theorem Tracks.afterCompileTurns {cache : FingerprintCache} {R : Record} (tr : Tracks S cache R)
    {turns : List CompileTurn}
    (reads : ∀ turn ∈ turns, ∀ d, turn.result = .ok d →
      ∃ i, CompileReads env c turn i ∧ d.fingerprint = c.compileNow turn.step i)
    (within : ∀ turn ∈ turns, ∀ i, CompileReads env c turn i →
      (i.key turn.step c.toolchain.identity).Within S) :
    Tracks S (BuildContext.recordOutcomes cache (outcomesOf turns))
      (turns.foldl (Record.afterCompile env c) R) := by
  induction turns generalizing cache R with
  | nil => exact tr
  | cons turn turns ih =>
    have hrest := fun {cache'} {R'} (tr' : Tracks S cache' R') =>
      ih tr' (fun u hu => reads u (List.mem_cons_of_mem turn hu))
        (fun u hu => within u (List.mem_cons_of_mem turn hu))
    obtain ⟨s, t, r, t₁⟩ := turn
    cases r with
    | error e => exact hrest tr
    | ok d =>
      obtain ⟨i, hi, hd⟩ := reads ⟨s, t, .ok d, t₁⟩ List.mem_cons_self d rfl
      have hR : R.afterCompile env c ⟨s, t, .ok d, t₁⟩ =
          R.withCompile s.output (i.key s c.toolchain.identity) := by
        have hi' : CompileInputs.ofStep t env.cwd c.root s = .ok i := hi
        simp only [Record.afterCompile, hi']
      rw [List.foldl_cons, hR]
      refine hrest (tr.recordCompile ?_ (within _ List.mem_cons_self i hi))
      rw [hd]
      exact CompileKey.records_fingerprint i s c.toolchain.identity

/-- After the link steps the cache tracks the record again. -/
theorem Tracks.afterLinkTurns {cache : FingerprintCache} {R : Record} (tr : Tracks S cache R)
    {rebuilt : List String} {t t₁ : FileTree} {ss : List LinkStep} {links : List LinkTurn}
    {procs : List Invocation} (all : LinksAll env c rebuilt cache t ss links t₁ procs)
    (within : ∀ turn ∈ links, ∀ i, LinkReads env turn i → (i.key turn.step).Within S) :
    Tracks S (cacheAfterLinks cache links) (links.foldl (Record.afterLink env) R) := by
  induction all generalizing R with
  | nil cache t => exact tr
  | failed first => exact tr
  | @cons cache cache₁ s ss t t₁ t₂ a turns procs procs' first rest ih =>
    obtain ⟨i, hi, rfl⟩ := first.reads
    have hR : R.afterLink env ⟨s, t, .ok (a, cache.recordLink s.target (i.fingerprint s)), t₁⟩ =
        R.withLink s.target (i.key s) := by
      simp only [Record.afterLink, hi]
    rw [List.foldl_cons, hR]
    refine ih (tr.recordLink (LinkKey.records_fingerprint i s) (within _ List.mem_cons_self i hi))
      fun u hu => within u (List.mem_cons_of_mem _ hu)

/-- After a build the cache that it saves tracks the record of the build. -/
theorem Tracks.afterBuild {plan : BuildPlan} {t t₁ : FileTree} {R : Record}
    {turns : List CompileTurn} {links : List LinkTurn} {r : Except Failure (List Artifact)}
    {procs : List Invocation}
    (tr : Tracks S (.ofFile t env.cwd c.fingerprintPath) R)
    (ex : Executes env c plan t turns links r t₁ procs)
    (within : DigestsWithin env c S turns links) :
    Tracks S (cacheAfterTurns (.ofFile t env.cwd c.fingerprintPath) turns links)
      (R.afterTurns env c turns links) := by
  cases ex with
  | mk compiles finishes saves =>
    have reads : ∀ turn ∈ turns, ∀ d, turn.result = .ok d →
        ∃ i, CompileReads env c turn i ∧ d.fingerprint = c.compileNow turn.step i := by
      intro turn ht d hd
      obtain ⟨procs₁, hc⟩ := compiles.turn ht
      rw [hd] at hc
      exact hc.reads
    have hcomp := tr.afterCompileTurns reads within.compile
    cases finishes with
    | stopped first => exact hcomp
    | linked first links_all => exact hcomp.afterLinkTurns links_all within.link

/-- What is kept on disk, and so what a build starts from, tracks the record. -/
theorem Tracks.ofFile {t : FileTree} {R : Record} {cwd : Location} {p : Path}
    (tr : Tracks S (FingerprintCache.keptAt t (p.locate cwd)) R) : Tracks S (.ofFile t cwd p) R := by
  rcases FingerprintCache.ofFile_eq_keptAt_or_empty t cwd p with h | h
  · rw [h]
    exact tr
  · rw [h]
    exact .empty R

/-- Along every history the cache on disk tracks the record. -/
theorem Built.tracks {place : Location} {t : FileTree} {R : Record} (built : Built S place t R) :
    Tracks S (FingerprintCache.keptAt t place) R := by
  induction built with
  | start empty =>
    rw [empty]
    exact .empty .empty
  | build env c plan h before kept within saved ih =>
    obtain ⟨procs, ex, -⟩ := c.executes_runOn plan env h
    subst kept
    obtain ⟨t₁, saves⟩ := ex.saves saved
    rw [saves.keptAt_eq]
    exact ih.ofFile.afterBuild ex within
  | @edit t u R before kept ih =>
    rcases kept with h | h
    · have hsame : FingerprintCache.keptAt u place = FingerprintCache.keptAt t place := by
        simp only [FingerprintCache.keptAt, h]
      rw [hsame]
      exact ih
    · have hnone : FingerprintCache.keptAt u place = {} := by
        simp only [FingerprintCache.keptAt, h]
      rw [hnone]
      exact .empty R

end

/-! ### What is out of date -/

section

variable (env : Environment) (c : BuildContext) (cache : FingerprintCache) (R : Record)

/-- The object of a compile step that reads `i` is out of date: it is absent, it is not in
    the cache, or it was last made of something else. -/
def CompileOutOfDate (turn : CompileTurn) (i : CompileInputs) : Prop :=
  turn.files.pathExists env.cwd turn.step.output = false ∨
    cache.compile.get? turn.step.output = none ∨
    R.compile turn.step.output.components ≠ some (i.key turn.step c.toolchain.identity)

/-- A compile step is due at its turn: what it reads can be read, the directory for its
    object is there or can be made, and the object is out of date. -/
def CompileDue (turn : CompileTurn) : Prop :=
  ∃ i, CompileReads env c turn i ∧ (turn.files.prepare env.cwd turn.step.output).1 = .ok () ∧
    CompileOutOfDate env c cache R turn i

/-- Some compile step of a target is due. -/
def RecompileDue (turns : List CompileTurn) (target : String) : Prop :=
  ∃ turn ∈ turns, turn.step.target = target ∧ CompileDue env c cache R turn

/-- The module of a link step that reads `i` is out of date: an object of its target is
    compiled in this build, it is absent, no link is recorded for it, or it was last made
    of something else. -/
def LinkOutOfDate (turns : List CompileTurn) (turn : LinkTurn) (i : LinkInputs) : Prop :=
  RecompileDue env c cache R turns turn.step.target ∨
    turn.files.pathExists env.cwd turn.step.output = false ∨
    cache.link.get? turn.step.target = none ∨ R.link turn.step.target ≠ some (i.key turn.step)

/-- A link step is due at its turn. -/
def LinkDue (turns : List CompileTurn) (turn : LinkTurn) : Prop :=
  ∃ i, LinkReads env turn i ∧ (turn.files.prepare env.cwd turn.step.output).1 = .ok () ∧
    LinkOutOfDate env c cache R turns turn i

end

section

variable {env : Environment} {c : BuildContext} {S : Set (List UInt8)} {cache : FingerprintCache}
  {R : Record}

/-- Whether something recorded is what is there now, told by the fingerprints. -/
theorem objectFresh_eq_false_iff (hS : NoCollision S) (tr : Tracks S cache R) (env : Environment)
    (turn : CompileTurn) {i : CompileInputs} (within : (i.key turn.step c.toolchain.identity).Within S) :
    cache.objectFresh turn.files env.cwd turn.step.output (c.compileNow turn.step i) = false ↔
      CompileOutOfDate env c cache R turn i := by
  unfold FingerprintCache.objectFresh CompileOutOfDate
  cases turn.files.pathExists env.cwd turn.step.output with
  | false => simp
  | true =>
    cases hget : cache.compile.get? turn.step.output with
    | none => simp
    | some f =>
      obtain ⟨k, hR, hf, hk⟩ := tr.compile _ f hget
      have hagree := CompileKey.agrees_iff hS hf
        (CompileKey.records_fingerprint i turn.step c.toolchain.identity) hk within
      have hfalse : f.agrees (c.compileNow turn.step i) = false ↔
          k ≠ i.key turn.step c.toolchain.identity := by
        rw [← Bool.not_eq_true]
        exact not_congr hagree
      simp [hR, hfalse]

theorem moduleFresh_eq_false_iff (hS : NoCollision S) (tr : Tracks S cache R) (env : Environment)
    {cache₁ : FingerprintCache} (turn : LinkTurn)
    (same : cache₁.link.get? turn.step.target = cache.link.get? turn.step.target)
    {i : LinkInputs} (within : (i.key turn.step).Within S) :
    cache₁.moduleFresh turn.files env.cwd turn.step.target turn.step.output (i.fingerprint turn.step)
        = false ↔
      turn.files.pathExists env.cwd turn.step.output = false ∨
        cache.link.get? turn.step.target = none ∨ R.link turn.step.target ≠ some (i.key turn.step) := by
  unfold FingerprintCache.moduleFresh
  rw [same]
  cases turn.files.pathExists env.cwd turn.step.output with
  | false => simp
  | true =>
    cases hget : cache.link.get? turn.step.target with
    | none => simp
    | some f =>
      obtain ⟨k, hR, hf, hk⟩ := tr.link _ f hget
      have hagree := LinkKey.agrees_iff hS hf (LinkKey.records_fingerprint i turn.step) hk within
      have hfalse : f.agrees (i.fingerprint turn.step) = false ↔ k ≠ i.key turn.step := by
        rw [← Bool.not_eq_true]
        exact not_congr hagree
      simp [hR, hfalse]

open Classical in
/-- A compile step starts its process if it is due, and nothing otherwise. -/
theorem Compiles.procs_eq (hS : NoCollision S) (tr : Tracks S cache R) {s : CompileStep}
    {t t₁ : FileTree} {r : Except Failure Compiled} {procs : List Invocation}
    (h : Compiles env c cache s t r t₁ procs)
    (within : ∀ i, CompileReads env c ⟨s, t, r, t₁⟩ i → (i.key s c.toolchain.identity).Within S) :
    procs = if CompileDue env c cache R ⟨s, t, r, t₁⟩ then [c.compileCall s] else [] := by
  have hstale {i : CompileInputs} (inputs : CompileInputs.ofStep t env.cwd c.root s = .ok i) :=
    objectFresh_eq_false_iff hS tr env ⟨s, t, r, t₁⟩ (within i inputs)
  have hdue {i : CompileInputs} (inputs : CompileInputs.ofStep t env.cwd c.root s = .ok i) :
      CompileDue env c cache R ⟨s, t, r, t₁⟩ ↔ (t.prepare env.cwd s.output).1 = .ok () ∧
        cache.objectFresh t env.cwd s.output (c.compileNow s i) = false := by
    simp only [CompileDue, CompileReads, inputs, Except.ok.injEq, exists_eq_left', hstale inputs]
  cases h with
  | unreadable inputs =>
    rw [if_neg]
    rintro ⟨i, hi, -⟩
    exact absurd (inputs.symm.trans hi) (by simp)
  | fresh inputs fresh => rw [if_neg fun hd => by simpa [fresh] using ((hdue inputs).1 hd).2]
  | blocked inputs stale dir => rw [if_neg fun hd => by simpa [dir] using ((hdue inputs).1 hd).1]
  | succeeded inputs stale dir run exit => rw [if_pos ((hdue inputs).2 ⟨by rw [dir], stale⟩)]
  | failed inputs stale dir run exit => rw [if_pos ((hdue inputs).2 ⟨by rw [dir], stale⟩)]

open Classical in
/-- The processes of the compile steps are those of the steps that are due, in order. -/
theorem CompilesAll.procs_eq (hS : NoCollision S) (tr : Tracks S cache R) {t t₁ : FileTree}
    {ss : List CompileStep} {turns : List CompileTurn} {procs : List Invocation}
    (h : CompilesAll env c cache t ss turns t₁ procs)
    (within : ∀ turn ∈ turns, ∀ i, CompileReads env c turn i →
      (i.key turn.step c.toolchain.identity).Within S) :
    procs = (turns.filter (CompileDue env c cache R ·)).map fun turn => c.compileCall turn.step := by
  induction h with
  | nil t => rfl
  | cons first rest ih =>
    rw [first.procs_eq hS tr (within _ List.mem_cons_self),
      ih fun u hu => within u (List.mem_cons_of_mem _ hu), List.filter_cons]
    split
    · rename_i hd
      simp [hd]
    · rename_i hd
      simp [hd]

open Classical in
/-- A link step starts its process if it is due, and nothing otherwise.  Its cache may be
    a later one if that says the same of the step's target. -/
theorem Links.procs_eq (hS : NoCollision S) (tr : Tracks S cache R) {turns : List CompileTurn}
    {cache₁ : FingerprintCache} {rebuilt : Bool} {s : LinkStep} {t t₁ : FileTree}
    {r : Except Failure (Artifact × FingerprintCache)} {procs : List Invocation}
    (h : Links env c cache₁ rebuilt s t r t₁ procs)
    (same : cache₁.link.get? s.target = cache.link.get? s.target)
    (again : rebuilt = true ↔ RecompileDue env c cache R turns s.target)
    (within : ∀ i, LinkReads env ⟨s, t, r, t₁⟩ i → (i.key s).Within S) :
    procs = if LinkDue env c cache R turns ⟨s, t, r, t₁⟩ then [c.linkCall s] else [] := by
  have hstale {i : LinkInputs} (inputs : LinkInputs.ofStep t env.cwd s = .ok i) :
      cache₁.linkFresh t env.cwd rebuilt s i = false ↔
        LinkOutOfDate env c cache R turns ⟨s, t, r, t₁⟩ i := by
    have hmod := moduleFresh_eq_false_iff hS tr env ⟨s, t, r, t₁⟩ same (within i inputs)
    simp only [FingerprintCache.linkFresh, Bool.and_eq_false_iff, Bool.not_eq_false', hmod, again]
    rfl
  have hdue {i : LinkInputs} (inputs : LinkInputs.ofStep t env.cwd s = .ok i) :
      LinkDue env c cache R turns ⟨s, t, r, t₁⟩ ↔ (t.prepare env.cwd s.output).1 = .ok () ∧
        cache₁.linkFresh t env.cwd rebuilt s i = false := by
    simp only [LinkDue, LinkReads, inputs, Except.ok.injEq, exists_eq_left', hstale inputs]
  cases h with
  | unreadable inputs =>
    rw [if_neg]
    rintro ⟨i, hi, -⟩
    exact absurd (inputs.symm.trans hi) (by simp)
  | fresh inputs fresh => rw [if_neg fun hd => by simpa [fresh] using ((hdue inputs).1 hd).2]
  | blocked inputs stale dir => rw [if_neg fun hd => by simpa [dir] using ((hdue inputs).1 hd).1]
  | succeeded inputs stale dir run exit => rw [if_pos ((hdue inputs).2 ⟨by rw [dir], stale⟩)]
  | failed inputs stale dir run exit => rw [if_pos ((hdue inputs).2 ⟨by rw [dir], stale⟩)]

/-- An entry of one target leaves those of the others alone. -/
theorem get?_recordLink_ne (cache : FingerprintCache) {n m : String} (f : LinkFingerprint)
    (h : m ≠ n) : (cache.recordLink n f).link.get? m = cache.link.get? m := by
  simp only [FingerprintCache.recordLink, Table.get?_insert, Std.LawfulEqCmp.compare_eq_iff_eq]
  rw [if_neg h]

/-- The link steps after one of another target find the entries that were there before it. -/
theorem get?_recordLink_later {cache₁ : FingerprintCache} {s : LinkStep} {ss : List LinkStep}
    (f : LinkFingerprint) (new : s.target ∉ ss.map LinkStep.target)
    (same : ∀ s' ∈ s :: ss, cache₁.link.get? s'.target = cache.link.get? s'.target) :
    ∀ s' ∈ ss, (cache₁.recordLink s.target f).link.get? s'.target = cache.link.get? s'.target := by
  intro s' hs'
  rw [get?_recordLink_ne _ _ fun he => new (List.mem_map.2 ⟨s', hs', he⟩)]
  exact same s' (List.mem_cons_of_mem s hs')

open Classical in
/-- The processes of the link steps are those of the steps that are due, in order. -/
theorem LinksAll.procs_eq (hS : NoCollision S) (tr : Tracks S cache R) {turns : List CompileTurn}
    {cache₁ : FingerprintCache} {rebuilt : List String} {ss : List LinkStep} {t t₁ : FileTree}
    {links : List LinkTurn} {procs : List Invocation}
    (h : LinksAll env c rebuilt cache₁ t ss links t₁ procs)
    (unique : (ss.map LinkStep.target).Nodup)
    (same : ∀ s ∈ ss, cache₁.link.get? s.target = cache.link.get? s.target)
    (again : ∀ n, rebuilt.contains n = true ↔ RecompileDue env c cache R turns n)
    (within : ∀ turn ∈ links, ∀ i, LinkReads env turn i → (i.key turn.step).Within S) :
    procs = (links.filter (LinkDue env c cache R turns ·)).map fun turn => c.linkCall turn.step := by
  induction h with
  | nil cache t => rfl
  | failed first =>
    rw [first.procs_eq hS tr (same _ List.mem_cons_self) (again _) (within _ List.mem_cons_self),
      List.filter_cons]
    split
    · rename_i hd
      simp [hd]
    · rename_i hd
      simp [hd]
  | @cons cache₁ cache₂ s ss t t₁ t₂ a links procs procs' first rest ih =>
    obtain ⟨hs, hunique⟩ := List.nodup_cons.1 unique
    obtain ⟨i, -, rfl⟩ := first.reads
    have hsame := get?_recordLink_later (i.fingerprint s) hs same
    rw [first.procs_eq hS tr (same _ List.mem_cons_self) (again _) (within _ List.mem_cons_self),
      ih hunique hsame fun u hu => within u (List.mem_cons_of_mem _ hu), List.filter_cons]
    split
    · rename_i hd
      simp [hd]
    · rename_i hd
      simp [hd]

/-! ### What a build starts -/

/-- A compile step that came out well is fresh exactly if it was not due. -/
theorem Compiles.fresh_iff (hS : NoCollision S) (tr : Tracks S cache R) {s : CompileStep}
    {t t₁ : FileTree} {d : Compiled} {procs : List Invocation}
    (h : Compiles env c cache s t (.ok d) t₁ procs)
    (within : ∀ i, CompileReads env c ⟨s, t, .ok d, t₁⟩ i → (i.key s c.toolchain.identity).Within S) :
    d.fresh = false ↔ CompileDue env c cache R ⟨s, t, .ok d, t₁⟩ := by
  have hp := h.procs_eq hS tr within
  cases h with
  | fresh inputs fresh =>
    split at hp
    · cases hp
    · rename_i hd
      simp [hd]
  | succeeded inputs stale dir run exit =>
    split at hp
    · rename_i hd
      simp [hd]
    · cases hp

/-- A link step that came out well is fresh exactly if it was not due. -/
theorem Links.fresh_iff (hS : NoCollision S) (tr : Tracks S cache R) {turns : List CompileTurn}
    {cache₁ cache₂ : FingerprintCache} {rebuilt : Bool} {s : LinkStep} {t t₁ : FileTree}
    {a : Artifact} {procs : List Invocation}
    (h : Links env c cache₁ rebuilt s t (.ok (a, cache₂)) t₁ procs)
    (same : cache₁.link.get? s.target = cache.link.get? s.target)
    (again : rebuilt = true ↔ RecompileDue env c cache R turns s.target)
    (within : ∀ i, LinkReads env ⟨s, t, .ok (a, cache₂), t₁⟩ i → (i.key s).Within S) :
    a.target = s.target ∧ a.path = s.output ∧
      (a.fresh = false ↔ LinkDue env c cache R turns ⟨s, t, .ok (a, cache₂), t₁⟩) ∧
      (rebuilt = true → a.fresh = false) := by
  have hp := h.procs_eq hS tr same again within
  cases h with
  | fresh inputs fresh =>
    refine ⟨rfl, rfl, ?_, ?_⟩
    · split at hp
      · cases hp
      · rename_i hd
        exact ⟨fun hf => absurd hf (by simp [LinkStep.artifact]), fun hd' => absurd hd' hd⟩
    · intro hr
      simp [FingerprintCache.linkFresh, hr] at fresh
  | succeeded inputs stale dir run exit =>
    refine ⟨rfl, rfl, ?_, fun _ => rfl⟩
    split at hp
    · rename_i hd
      exact ⟨fun _ => hd, fun _ => rfl⟩
    · cases hp

theorem link_recordOutcomes (cache : FingerprintCache) (outcomes : List BuildContext.CompileOutcome) :
    (BuildContext.recordOutcomes cache outcomes).link = cache.link := by
  unfold BuildContext.recordOutcomes
  induction outcomes generalizing cache with
  | nil => rfl
  | cons o outcomes ih =>
    obtain ⟨s, r⟩ := o
    cases r with
    | error e => exact ih cache
    | ok d => exact ih (cache.recordCompile s.output d.fingerprint)

/-- If no compile step failed, each came out well. -/
theorem ok_of_firstFailure? {turns : List CompileTurn}
    (h : BuildContext.firstFailure? (outcomesOf turns) = none) {turn : CompileTurn}
    (ht : turn ∈ turns) : ∃ d, turn.result = .ok d := by
  have hnone := List.findSome?_eq_none_iff.1 h (turn.step, turn.result)
    (List.mem_map.2 ⟨turn, ht, rfl⟩)
  cases hr : turn.result with
  | ok d => exact ⟨d, rfl⟩
  | error e => simp [hr] at hnone

/-- The first failure is that of a compile step. -/
theorem exists_of_firstFailure? {turns : List CompileTurn} {e : Failure}
    (h : BuildContext.firstFailure? (outcomesOf turns) = some e) :
    ∃ turn ∈ turns, turn.result = .error e := by
  obtain ⟨⟨s, r⟩, hmem, hfail⟩ := List.exists_of_findSome?_eq_some h
  obtain ⟨turn, hturn, heq⟩ := List.mem_map.1 hmem
  obtain ⟨rfl, rfl⟩ := Prod.mk.inj heq
  refine ⟨turn, hturn, ?_⟩
  cases hr : turn.result with
  | ok d =>
    rw [hr] at hfail
    cases hfail
  | error e' =>
    rw [hr] at hfail
    rw [Option.some.inj hfail]

/-- The targets that count as rebuilt are those with a compile step that was due. -/
theorem rebuiltTargets_contains (hS : NoCollision S) (tr : Tracks S cache R) {t t₁ : FileTree}
    {ss : List CompileStep} {turns : List CompileTurn} {procs : List Invocation}
    (all : CompilesAll env c cache t ss turns t₁ procs)
    (none : BuildContext.firstFailure? (outcomesOf turns) = none)
    (within : ∀ turn ∈ turns, ∀ i, CompileReads env c turn i →
      (i.key turn.step c.toolchain.identity).Within S) (n : String) :
    (BuildContext.rebuiltTargets (outcomesOf turns)).contains n = true ↔
      RecompileDue env c cache R turns n := by
  have hdue {turn : CompileTurn} (ht : turn ∈ turns) {d : Compiled} (hr : turn.result = .ok d) :
      d.fresh = false ↔ CompileDue env c cache R turn := by
    obtain ⟨procs₁, hc⟩ := all.turn ht
    obtain ⟨s, u, r, u₁⟩ := turn
    obtain rfl : r = .ok d := hr
    exact hc.fresh_iff hS tr (within _ ht)
  rw [List.contains_iff_mem]
  simp only [BuildContext.rebuiltTargets, outcomesOf, List.mem_filterMap, List.mem_map]
  constructor
  · rintro ⟨o, ⟨turn, ht, rfl⟩, ho⟩
    obtain ⟨d, hr⟩ := ok_of_firstFailure? none ht
    simp only [hr] at ho
    split at ho
    · cases ho
    · rename_i hf
      exact ⟨turn, ht, Option.some.inj ho, (hdue ht hr).1 (Bool.eq_false_iff.2 hf)⟩
  · rintro ⟨turn, ht, rfl, hd⟩
    obtain ⟨d, hr⟩ := ok_of_firstFailure? none ht
    refine ⟨_, ⟨turn, ht, rfl⟩, ?_⟩
    simp [hr, (hdue ht hr).2 hd]

/-- Some process is due for a target. -/
def AnyDue (env : Environment) (c : BuildContext) (cache : FingerprintCache) (R : Record)
    (turns : List CompileTurn) (links : List LinkTurn) (target : String) : Prop :=
  RecompileDue env c cache R turns target ∨
    ∃ turn ∈ links, turn.step.target = target ∧ LinkDue env c cache R turns turn

/-- Each artifact comes from the turn of a link step, and tells whether that was due. -/
theorem LinksAll.artifacts (hS : NoCollision S) (tr : Tracks S cache R) {turns : List CompileTurn}
    {cache₁ : FingerprintCache} {rebuilt : List String} {ss : List LinkStep} {t t₁ : FileTree}
    {links : List LinkTurn} {procs : List Invocation}
    (h : LinksAll env c rebuilt cache₁ t ss links t₁ procs)
    (unique : (ss.map LinkStep.target).Nodup)
    (same : ∀ s ∈ ss, cache₁.link.get? s.target = cache.link.get? s.target)
    (again : ∀ n, rebuilt.contains n = true ↔ RecompileDue env c cache R turns n)
    (within : ∀ turn ∈ links, ∀ i, LinkReads env turn i → (i.key turn.step).Within S)
    {artifacts : List Artifact} (hr : artifactsOf links = .ok artifacts) :
    artifacts.map (fun a => (a.target, a.path)) = ss.map (fun s => (s.target, s.output)) ∧
      links.map Turn.step = ss ∧
      ∀ a ∈ artifacts, (RecompileDue env c cache R turns a.target → a.fresh = false) ∧
        ∃ turn ∈ links, turn.step.target = a.target ∧
          (a.fresh = false ↔ LinkDue env c cache R turns turn) := by
  induction h generalizing artifacts with
  | nil cache t =>
    injection hr with hr
    subst hr
    exact ⟨rfl, rfl, fun a ha => by cases ha⟩
  | failed first => cases hr
  | @cons cache₁ cache₂ s ss t t₁ t₂ a links procs procs' first rest ih =>
    obtain ⟨hs, hunique⟩ := List.nodup_cons.1 unique
    obtain ⟨ht, hp, hfresh, hagain⟩ := first.fresh_iff hS tr (same _ List.mem_cons_self) (again _)
      (within _ List.mem_cons_self)
    obtain ⟨i, -, rfl⟩ := first.reads
    have hsame := get?_recordLink_later (i.fingerprint s) hs same
    simp only [artifactsOf] at hr
    cases hrest : artifactsOf links with
    | error e =>
      rw [hrest] at hr
      cases hr
    | ok as =>
      rw [hrest] at hr
      injection hr with hr
      subst hr
      obtain ⟨hmap, hsteps, hall⟩ := ih hunique hsame
        (fun u hu => within u (List.mem_cons_of_mem _ hu)) hrest
      refine ⟨by simp [hmap, ht, hp], by simp [hsteps], fun b hb => ?_⟩
      rcases List.mem_cons.1 hb with rfl | hb
      · exact ⟨fun hd => hagain ((again _).2 (ht ▸ hd)), _, List.mem_cons_self, ht.symm, hfresh⟩
      · obtain ⟨hre, turn, hturn, htarget⟩ := hall b hb
        exact ⟨hre, turn, List.mem_cons_of_mem _ hturn, htarget⟩

open Classical in
/-- The processes of a build, its turns and its artifacts, if its cache tracks a record. -/
theorem Executes.exactly (hS : NoCollision S) {plan : BuildPlan} {t u : FileTree}
    {turns : List CompileTurn} {links : List LinkTurn} {r : Except Failure (List Artifact)}
    {procs : List Invocation} (ex : Executes env c plan t turns links r u procs)
    (hcache : cache = .ofFile t env.cwd c.fingerprintPath) (tr : Tracks S cache R)
    (within : DigestsWithin env c S turns links)
    (unique : (plan.linkSteps.map LinkStep.target).Nodup) :
    procs = ((turns.filter (CompileDue env c cache R ·)).map fun turn => c.compileCall turn.step)
        ++ ((links.filter (LinkDue env c cache R turns ·)).map fun turn => c.linkCall turn.step) ∧
      turns.map Turn.step = plan.compileSteps ∧
      ∀ artifacts, r = .ok artifacts →
        links.map Turn.step = plan.linkSteps ∧
        artifacts.map (fun a => (a.target, a.path)) =
          plan.linkSteps.map (fun s => (s.target, s.output)) ∧
        ∀ a ∈ artifacts, a.fresh = true ↔ ¬ AnyDue env c cache R turns links a.target := by
  cases ex with
  | @mk t₁ t₂ t₃ r saved procs procs' compiles finishes saves =>
    rw [← hcache] at compiles finishes
    rw [compiles.procs_eq hS tr within.compile]
    cases finishes with
    | stopped first =>
      refine ⟨rfl, compiles.steps, fun artifacts hr => ?_⟩
      cases saved with
      | ok _ => cases hr
      | error f => cases hr
    | linked first all =>
      have same : ∀ s ∈ plan.linkSteps,
          (BuildContext.recordOutcomes cache (outcomesOf turns)).link.get? s.target =
            cache.link.get? s.target := fun s _ => by rw [link_recordOutcomes]
      have again := rebuiltTargets_contains hS tr compiles first within.compile
      rw [all.procs_eq hS tr unique same again within.link]
      refine ⟨rfl, compiles.steps, fun artifacts hr => ?_⟩
      have hr : artifactsOf links = .ok artifacts := by
        cases saved with
        | ok _ => exact hr
        | error f => cases hr
      obtain ⟨hmap, hsteps, hall⟩ := all.artifacts hS tr unique same again within.link hr
      refine ⟨hsteps, hmap, fun a ha => ?_⟩
      obtain ⟨hre, turn, hturn, htarget, hdue⟩ := hall a ha
      rw [← hsteps, List.map_map] at unique
      rw [← Bool.not_eq_false]
      refine not_congr ⟨fun hf => .inr ⟨turn, hturn, htarget, hdue.1 hf⟩, ?_⟩
      rintro (hcomp | ⟨other, hother, hsame, hlink⟩)
      · exact hre hcomp
      · obtain rfl : other = turn :=
          List.inj_on_of_nodup_map unique hother hturn (hsame.trans htarget.symm)
        exact hdue.2 hlink

open Classical in
/-- A build does exactly what is due: it starts the processes of the compile steps that are
    due at their turns, then those of the link steps that are due, and no others; if it
    comes out well, there is an artifact for each link step, fresh exactly if no process
    was due for its target. -/
structure ExactlyDue (R : Record) (env : Environment) (c : BuildContext) (plan : BuildPlan)
    (h : Host) : Prop where
  started : ((c.execute plan).runOn env h).2.started = h.started
    ++ ((((c.planCompileTurns plan env h).filter
          (CompileDue env c (c.cacheBefore env h) R ·)).map fun turn => c.compileCall turn.step)
      ++ (((c.planLinkTurns plan env h).filter
          (LinkDue env c (c.cacheBefore env h) R (c.planCompileTurns plan env h) ·)).map
            fun turn => c.linkCall turn.step))
  compileSteps : (c.planCompileTurns plan env h).map Turn.step = plan.compileSteps
  artifacts : ∀ artifacts, ((c.execute plan).runOn env h).1 = .ok artifacts →
    (c.planLinkTurns plan env h).map Turn.step = plan.linkSteps ∧
    artifacts.map (fun a => (a.target, a.path)) = plan.linkSteps.map (fun s => (s.target, s.output)) ∧
    ∀ a ∈ artifacts, a.fresh = true ↔ ¬ AnyDue env c (c.cacheBefore env h) R
      (c.planCompileTurns plan env h) (c.planLinkTurns plan env h) a.target

/-- **Exactly the steps that are out of date run**, after any history. -/
theorem started_exactly_outOfDate {place : Location} (hS : NoCollision S) (env : Environment)
    (c : BuildContext) (plan : BuildPlan) (h : Host) (built : Built S place h.files R)
    (kept : c.fingerprintPath.locate env.cwd = place)
    (within : DigestsWithin env c S (c.planCompileTurns plan env h) (c.planLinkTurns plan env h))
    (unique : (plan.linkSteps.map LinkStep.target).Nodup) : ExactlyDue R env c plan h := by
  subst kept
  obtain ⟨procs, ex, hstarted⟩ := c.executes_runOn plan env h
  obtain ⟨hprocs, hsteps, hartifacts⟩ := ex.exactly hS rfl built.tracks.ofFile within unique
  exact ⟨by rw [hstarted, hprocs]; rfl, hsteps, hartifacts⟩

end

/-! ### A source that is edited, and one that is missing -/

namespace Sample

def context : BuildContext where
  toolchain := .gnu ⟨"/bin/cc"⟩ .gcc
  profile := { optLevel := "0", debug := true, cflags := [] }
  profileName := "debug"
  outputDir := ⟨"/p/out"⟩
  root := ⟨"/p"⟩
  fingerprintPath := ⟨"/p/out/.fingerprints.json"⟩
  cflags := []
  ldflags := []

def compileStep (source object : String) : CompileStep where
  target := "a"
  source := ⟨source⟩
  output := ⟨object⟩
  includeDirs := []
  command := ⟨⟨"/bin/cc"⟩, ["-c", source, "-o", object]⟩

def linkStep : LinkStep where
  target := "a"
  objects := [⟨"/p/out/a.o"⟩, ⟨"/p/out/b.o"⟩]
  output := ⟨"/p/out/a.so"⟩
  command := ⟨⟨"/bin/cc"⟩, ["-shared", "-o", "/p/out/a.so", "/p/out/a.o", "/p/out/b.o"]⟩

/-- One target with two sources. -/
def plan : BuildPlan where
  profile := "debug"
  root := ⟨"/p"⟩
  compileSteps := [compileStep "a.c" "/p/out/a.o", compileStep "b.c" "/p/out/b.o"]
  linkSteps := [linkStep]

/-- The project's directories, without its sources. -/
def directories : FileTree := ((∅ : FileTree).set ["p"] .dir).set ["p", "out"] .dir

/-- The project before its first build. -/
def unedited : Host where
  files := (directories.set ["p", "a.c"] (.file "int a;".toUTF8 false)).set
    ["p", "b.c"] (.file "int b;".toUTF8 false)

@[irreducible] def uneditedTurns : List CompileTurn :=
  context.planCompileTurns plan (tellingEnvironment "-bad") unedited

@[irreducible] def uneditedLinks : List LinkTurn :=
  context.planLinkTurns plan (tellingEnvironment "-bad") unedited

@[irreducible] def builtCache : FingerprintCache :=
  context.cacheRecorded plan (tellingEnvironment "-bad") unedited

/-- After the first build one of the sources is edited. -/
@[irreducible] def edited : Host where
  files := ((context.execute plan).runOn (tellingEnvironment "-bad") unedited).2.files.set
    ["p", "a.c"] (.file "int x;".toUTF8 false)

@[irreducible] def editedTurns : List CompileTurn :=
  context.compileTurns builtCache (tellingEnvironment "-bad") edited plan.compileSteps

@[irreducible] def editedLinks : List LinkTurn :=
  context.linkTurnsWith builtCache plan (tellingEnvironment "-bad") edited

/-- What is digested in the build before the edit and the one after it. -/
@[irreducible] def editedDigests : List (List UInt8) :=
  (digestedBy (tellingEnvironment "-bad") context uneditedTurns uneditedLinks ++
    digestedBy (tellingEnvironment "-bad") context editedTurns editedLinks).dedup

/-- The first build saves its cache, and the second one compiles the edited source alone. -/
theorem course_of_edited :
    failedToSave ((context.execute plan).runOn (tellingEnvironment "-bad") unedited).1 = false ∧
    ((context.proceed builtCache plan).runOn (tellingEnvironment "-bad") edited).2.started =
      [context.compileCall (compileStep "a.c" "/p/out/a.o"), context.linkCall linkStep] ∧
    (editedDigests.map Sha256.hexDigest).Nodup ∧
    (∀ turn ∈ uneditedTurns ++ editedTurns, Digest.ZeroFree turn.step.command.argv) ∧
    (∀ turn ∈ uneditedLinks ++ editedLinks, Digest.ZeroFree turn.step.command.argv) := by
  unfold Digest.ZeroFree
  decide +kernel

theorem saved_unedited :
    CacheSaved ((context.execute plan).runOn (tellingEnvironment "-bad") unedited).1 :=
  (cacheSaved_iff _).2 course_of_edited.1

theorem node?_edited {l : Location} (hl : l ≠ ["p", "a.c"]) : edited.files.node? l =
    ((context.execute plan).runOn (tellingEnvironment "-bad") unedited).2.files.node? l := by
  unfold edited
  rw [FileTree.node?_set, if_neg (fun h => hl h.2)]

theorem load_edited :
    (FingerprintCache.load context.fingerprintPath).runOn (tellingEnvironment "-bad") edited =
      (.ok builtCache, edited) := by
  have hway : ["p", "a.c"] ∉ context.fingerprintPath.way [] := by decide
  rw [builtCache]
  exact context.runOn_load_of_kept plan _ unedited saved_unedited fun l hl =>
    node?_edited fun heq => hway (heq ▸ hl)

theorem turns_edited :
    context.planCompileTurns plan (tellingEnvironment "-bad") edited = editedTurns ∧
      context.planLinkTurns plan (tellingEnvironment "-bad") edited = editedLinks := by
  rw [editedTurns, editedLinks]
  exact ⟨context.planCompileTurns_of_load plan load_edited,
    context.planLinkTurns_of_load plan load_edited⟩

theorem noCollision_edited : NoCollision { b | b ∈ editedDigests } := by
  obtain ⟨-, -, hnodup, -⟩ := course_of_edited
  exact fun a ha b hb => List.inj_on_of_nodup_map hnodup ha hb

theorem within_unedited : DigestsWithin (tellingEnvironment "-bad") context { b | b ∈ editedDigests }
    uneditedTurns uneditedLinks := by
  obtain ⟨-, -, -, hcompile, hlink⟩ := course_of_edited
  rw [editedDigests]
  exact .of_subset (List.subset_append_left _ _) (List.subset_append_left _ _)
    (List.subset_append_left _ _) hcompile hlink

theorem within_edited : DigestsWithin (tellingEnvironment "-bad") context { b | b ∈ editedDigests }
    editedTurns editedLinks := by
  obtain ⟨-, -, -, hcompile, hlink⟩ := course_of_edited
  rw [editedDigests]
  exact .of_subset (List.subset_append_right _ _) (List.subset_append_right _ _)
    (List.subset_append_right _ _) hcompile hlink

/-- A build of the project, and an edit. -/
theorem built_edited : Built { b | b ∈ editedDigests } ["p", "out", ".fingerprints.json"] edited.files
    (Record.empty.afterTurns (tellingEnvironment "-bad") context uneditedTurns uneditedLinks) := by
  have start : Built { b | b ∈ editedDigests } ["p", "out", ".fingerprints.json"] unedited.files .empty :=
    .start (by decide)
  have hwithin := within_unedited
  rw [uneditedTurns, uneditedLinks] at hwithin ⊢
  exact .edit (.build (tellingEnvironment "-bad") context plan unedited start (by decide) hwithin
    saved_unedited) (.inl (node?_edited (by decide)))

end Sample

/-- The build after an edit does exactly what is due: it compiles the source that was edited
    and not the other one, and links the module. -/
theorem exactlyDue_after_edit :
    ∃ (S : Set (List UInt8)) (R : Record), NoCollision S ∧
      Built S ["p", "out", ".fingerprints.json"] Sample.edited.files R ∧
      ExactlyDue R (Sample.tellingEnvironment "-bad") Sample.context Sample.plan Sample.edited ∧
      ((Sample.context.execute Sample.plan).runOn (Sample.tellingEnvironment "-bad")
        Sample.edited).2.started =
          [Sample.context.compileCall (Sample.compileStep "a.c" "/p/out/a.o"),
            Sample.context.linkCall Sample.linkStep] := by
  have hwithin := Sample.within_edited
  rw [← Sample.turns_edited.1, ← Sample.turns_edited.2] at hwithin
  refine ⟨_, _, Sample.noCollision_edited, Sample.built_edited,
    started_exactly_outOfDate Sample.noCollision_edited (Sample.tellingEnvironment "-bad")
      Sample.context Sample.plan Sample.edited Sample.built_edited (by decide) hwithin (by decide), ?_⟩
  rw [Sample.context.runOn_execute_of_load Sample.plan Sample.load_edited]
  exact Sample.course_of_edited.2.1

/-- The objects are absent, and no process is started: the sources cannot be read. -/
theorem absent_object_not_started :
    (∀ s ∈ Sample.plan.compileSteps,
      Sample.directories.pathExists (default : Environment).cwd s.output = false) ∧
      ((Sample.context.execute Sample.plan).runOn (Sample.tellingEnvironment "-bad")
        { files := Sample.directories }).2.started = [] := by
  decide

end GrammarBuild
