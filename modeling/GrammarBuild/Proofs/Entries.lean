import GrammarBuild.Proofs.Growth
import GrammarBuild.Proofs.Tables

/-
  GrammarBuild/Proofs/Entries.lean
  ================================
  **What a build enters into the cache** — the cache that a build saves is the one that it
  loaded with the entries of its turns (`cacheRecorded_eq`): for each compile step that
  came out well the fingerprint of what it read, under its object's path, and the same for
  each module, under its target's name.

  Entering what a table holds already changes nothing (`insertAll_same`), and entries under
  different keys can be entered in any order (`insertAll_perm`).
-/

namespace GrammarBuild

/-! ### Entering into tables -/

namespace Table

variable {α β : Type} [Ord α] [Std.TransOrd α]

/-- A table with several values entered, one after the other. -/
def insertAll (t : Table α β) (es : List (α × β)) : Table α β :=
  es.foldl (fun t e => t.insert e.1 e.2) t

@[simp]
theorem insertAll_nil (t : Table α β) : t.insertAll [] = t := rfl

@[simp]
theorem insertAll_cons (t : Table α β) (e : α × β) (es : List (α × β)) :
    t.insertAll (e :: es) = (t.insert e.1 e.2).insertAll es := rfl

theorem insertAll_append (t : Table α β) (es fs : List (α × β)) :
    t.insertAll (es ++ fs) = (t.insertAll es).insertAll fs := List.foldl_append

/-- A key under which nothing was entered keeps its value. -/
theorem get?_insertAll_other {t : Table α β} {es : List (α × β)} {k : α}
    (h : ∀ e ∈ es, compare k e.1 ≠ .eq) : (t.insertAll es).get? k = t.get? k := by
  induction es generalizing t with
  | nil => rfl
  | cons e es ih =>
    rw [insertAll_cons, ih fun e' he' => h e' (List.mem_cons_of_mem e he'), get?_insert,
      if_neg (h e List.mem_cons_self)]

/-- A key under which one value was entered, be it several times, has this value. -/
theorem get?_insertAll_of_mem {t : Table α β} {es : List (α × β)} {e : α × β} (he : e ∈ es)
    (same : ∀ e' ∈ es, compare e.1 e'.1 = .eq → e'.2 = e.2) :
    (t.insertAll es).get? e.1 = some e.2 := by
  have hfold := get?_foldl_insert t es e.1
  have hmem : e ∈ es.filter fun e' => compare e.1 e'.1 == .eq :=
    List.mem_filter.2 ⟨he, by simp [Std.ReflCmp.compare_self]⟩
  obtain ⟨last, hlast⟩ :=
    Option.isSome_iff_exists.1 (List.getLast?_isSome.2 (List.ne_nil_of_mem hmem))
  obtain ⟨hin, heq⟩ := List.mem_filter.1 (List.mem_of_getLast? hlast)
  rw [hlast] at hfold
  rw [insertAll, hfold, ← same last hin (eq_of_beq heq)]
  rfl

omit [Std.TransOrd α] in
theorem lookup_of_lt {k : α} {es : List (α × β)} (h : ∀ e ∈ es, compare k e.1 = .lt) :
    lookup k es = none := by
  induction es with
  | nil => rfl
  | cons e es ih =>
    rw [lookup, h e List.mem_cons_self, if_neg (by decide)]
    exact ih fun e' he' => h e' (List.mem_cons_of_mem e he')

theorem put_of_lookup {k : α} {v : β} {es : List (α × β)}
    (sorted : es.Pairwise fun a b => compare a.1 b.1 = .lt) (h : lookup k es = some v) :
    put k v es = es := by
  induction es with
  | nil => cases h
  | cons e es ih =>
    obtain ⟨hfirst, hrest⟩ := List.pairwise_cons.1 sorted
    rw [lookup] at h
    rw [put]
    cases hk : compare k e.1 with
    | lt =>
      -- what is found does not stand behind a greater key
      have hnone := lookup_of_lt fun e' he' => Std.TransCmp.lt_trans hk (hfirst e' he')
      rw [hk, if_neg (by decide), hnone] at h
      cases h
    | eq =>
      rw [hk, if_pos rfl] at h
      rw [← Option.some.inj h]
    | gt =>
      rw [hk, if_neg (by decide)] at h
      simp only [ih hrest h]

/-- Entering what is there changes nothing. -/
theorem insert_same {t : Table α β} {k : α} {v : β} (h : t.get? k = some v) : t.insert k v = t :=
  ext ((entries_insert t k v).trans (put_of_lookup t.sorted h))

theorem insertAll_same {t : Table α β} {es : List (α × β)}
    (h : ∀ e ∈ es, t.get? e.1 = some e.2) : t.insertAll es = t := by
  induction es with
  | nil => rfl
  | cons e es ih =>
    rw [insertAll_cons, insert_same (h e List.mem_cons_self)]
    exact ih fun e' he' => h e' (List.mem_cons_of_mem e he')

theorem put_comm_of_lt {k k' : α} (v v' : β) (hlt : compare k k' = .lt) (es : List (α × β)) :
    put k v (put k' v' es) = put k' v' (put k v es) := by
  have hgt : compare k' k = .gt := Std.OrientedCmp.gt_of_lt hlt
  induction es with
  | nil => simp [put, hlt, hgt]
  | cons e es ih =>
    cases hk : compare k e.1 with
    | lt =>
      cases hk' : compare k' e.1 with
      | lt => simp [put, hk, hk', hlt, hgt]
      | eq => simp [put, hk, hk', hgt]
      | gt => simp [put, hk, hk', hgt]
    | eq =>
      have hk' : compare k' e.1 = .gt :=
        Std.OrientedCmp.gt_of_lt (Std.TransCmp.lt_of_eq_of_lt (Std.OrientedCmp.eq_symm hk) hlt)
      simp [put, hk, hk']
    | gt =>
      have hk' : compare k' e.1 = .gt := Std.TransCmp.gt_trans hgt hk
      simp [put, hk, hk', ih]

theorem put_comm {k k' : α} (v v' : β) (hne : compare k k' ≠ .eq) (es : List (α × β)) :
    put k v (put k' v' es) = put k' v' (put k v es) := by
  cases hk : compare k k' with
  | lt => exact put_comm_of_lt v v' hk es
  | eq => exact absurd hk hne
  | gt => exact (put_comm_of_lt v' v (Std.OrientedCmp.lt_of_gt hk) es).symm

theorem insert_comm {k k' : α} (v v' : β) (hne : compare k k' ≠ .eq) (t : Table α β) :
    (t.insert k v).insert k' v' = (t.insert k' v').insert k v := by
  refine ext ?_
  rw [entries_insert, entries_insert, entries_insert, entries_insert, put_comm v v' hne]

/-- Values under different keys can be entered in any order. -/
theorem insertAll_perm {es fs : List (α × β)} (perm : es.Perm fs)
    (apart : es.Pairwise fun e f => compare e.1 f.1 ≠ .eq) (t : Table α β) :
    t.insertAll es = t.insertAll fs := by
  induction perm generalizing t with
  | nil => rfl
  | cons e perm ih =>
    rw [insertAll_cons, insertAll_cons]
    exact ih (List.pairwise_cons.1 apart).2 _
  | swap e f es =>
    have hne := (List.pairwise_cons.1 apart).1 e List.mem_cons_self
    rw [insertAll_cons, insertAll_cons, insertAll_cons, insertAll_cons, insert_comm f.2 e.2 hne]
  | trans perm perm' ih ih' =>
    have hsymm : ∀ {e f : α × β}, compare e.1 f.1 ≠ .eq → compare f.1 e.1 ≠ .eq :=
      fun hne heq => hne (Std.OrientedCmp.eq_symm heq)
    rw [ih apart, ih' ((perm.pairwise_iff hsymm).1 apart)]

end Table

/-! ### The entries of a build -/

/-- The entry of a compile step that came out well. -/
def entryOfCompile? (turn : CompileTurn) : Option (Path × CompileFingerprint) :=
  match turn.result with
  | .ok d => some (turn.step.output, d.fingerprint)
  | .error _ => none

def compileEntries (turns : List CompileTurn) : List (Path × CompileFingerprint) :=
  turns.filterMap entryOfCompile?

/-- The entry of a link step that came out well. -/
def entryOfLink? (cwd : Location) (turn : LinkTurn) : Option (String × LinkFingerprint) :=
  match turn.result, LinkInputs.ofStep turn.files cwd turn.step with
  | .ok _, .ok i => some (turn.step.target, i.fingerprint turn.step)
  | _, _ => none

def linkEntries (cwd : Location) (links : List LinkTurn) : List (String × LinkFingerprint) :=
  links.filterMap (entryOfLink? cwd)

theorem mem_compileEntries {turns : List CompileTurn} {e : Path × CompileFingerprint} :
    e ∈ compileEntries turns ↔
      ∃ turn ∈ turns, ∃ d, turn.result = .ok d ∧ e = (turn.step.output, d.fingerprint) := by
  simp only [compileEntries, List.mem_filterMap, entryOfCompile?]
  refine exists_congr fun turn => and_congr_right fun _ => ?_
  cases turn.result with
  | ok d => simp [eq_comm]
  | error e => simp

theorem mem_linkEntries {cwd : Location} {links : List LinkTurn} {e : String × LinkFingerprint} :
    e ∈ linkEntries cwd links ↔
      ∃ turn ∈ links, (∃ a, turn.result = .ok a) ∧
        ∃ i, LinkInputs.ofStep turn.files cwd turn.step = .ok i ∧
          e = (turn.step.target, i.fingerprint turn.step) := by
  simp only [linkEntries, List.mem_filterMap, entryOfLink?]
  refine exists_congr fun turn => and_congr_right fun _ => ?_
  cases turn.result with
  | error e => simp
  | ok a =>
    cases LinkInputs.ofStep turn.files cwd turn.step with
    | ok i => simp [eq_comm]
    | error e => simp

theorem recordOutcomes_eq (cache : FingerprintCache) (turns : List CompileTurn) :
    BuildContext.recordOutcomes cache (outcomesOf turns) =
      { cache with compile := cache.compile.insertAll (compileEntries turns) } := by
  unfold BuildContext.recordOutcomes outcomesOf
  induction turns generalizing cache with
  | nil => rfl
  | cons turn turns ih =>
    rw [List.map_cons, List.foldl_cons, ih, compileEntries, compileEntries, List.filterMap_cons]
    cases hr : turn.result with
    | ok d => simp [entryOfCompile?, hr, FingerprintCache.recordCompile]
    | error e => simp [entryOfCompile?, hr]

section

variable {env : Environment} {c : BuildContext} {cache : FingerprintCache} {t u : FileTree}
  {links : List LinkTurn} {procs : List Invocation}

theorem LinksAll.cacheAfterLinks_eq {rebuilt : List String} {ss : List LinkStep}
    (all : LinksAll env c rebuilt cache t ss links u procs) :
    cacheAfterLinks cache links =
      { cache with link := cache.link.insertAll (linkEntries env.cwd links) } := by
  induction all with
  | nil cache t => rfl
  | failed first => rfl
  | cons first later ih =>
    obtain ⟨i, hi, rfl⟩ := first.reads
    simp only [cacheAfterLinks, ih]
    simp [linkEntries, entryOfLink?, hi, FingerprintCache.recordLink]

theorem Executes.cacheAfterTurns_eq {plan : BuildPlan} {turns : List CompileTurn}
    {r : Except Failure (List Artifact)} (ex : Executes env c plan t turns links r u procs)
    (loaded : FingerprintCache.ofFile t env.cwd c.fingerprintPath = cache) :
    cacheAfterTurns cache turns links =
      ⟨cache.compile.insertAll (compileEntries turns),
        cache.link.insertAll (linkEntries env.cwd links)⟩ := by
  obtain ⟨compiles, finishes, saves⟩ := ex
  rw [loaded] at finishes
  rw [cacheAfterTurns]
  cases finishes with
  | stopped first => rw [cacheAfterLinks, recordOutcomes_eq, linkEntries, List.filterMap_nil, Table.insertAll_nil]
  | linked first all => rw [all.cacheAfterLinks_eq, recordOutcomes_eq]

/-- What a build saves is what it loaded, with the entries of its turns. -/
theorem BuildContext.cacheRecorded_eq (c : BuildContext) (plan : BuildPlan) (env : Environment)
    (h : Host) :
    c.cacheRecorded plan env h =
      ⟨(c.cacheBefore env h).compile.insertAll (compileEntries (c.planCompileTurns plan env h)),
        (c.cacheBefore env h).link.insertAll (linkEntries env.cwd (c.planLinkTurns plan env h))⟩ := by
  obtain ⟨procs, ex, -⟩ := c.executes_runOn plan env h
  exact ex.cacheAfterTurns_eq rfl

end

/-! ### Entries that are recorded -/

theorem CompileFingerprint.agrees_self (f : CompileFingerprint) : f.agrees f = true := by
  simp [agrees, (Table.agrees_iff_content _ _).2 rfl]

theorem LinkFingerprint.agrees_self (f : LinkFingerprint) : f.agrees f = true := by
  simp [agrees, (Table.agrees_iff_content _ _).2 rfl]

/-- An object that is there is up to date if what its step reads is recorded. -/
theorem FingerprintCache.objectFresh_of_recorded {cache : FingerprintCache} {t : FileTree}
    {cwd : Location} {o : Path} {f : CompileFingerprint} (found : t.pathExists cwd o = true)
    (recorded : cache.compile.get? o = some f) : cache.objectFresh t cwd o f = true := by
  rw [objectFresh, found, recorded]
  exact f.agrees_self

theorem FingerprintCache.linkFresh_of_recorded {cache : FingerprintCache} {t : FileTree}
    {cwd : Location} {s : LinkStep} {i : LinkInputs} (found : t.pathExists cwd s.output = true)
    (recorded : cache.link.get? s.target = some (i.fingerprint s)) :
    cache.linkFresh t cwd false s i = true := by
  rw [linkFresh, moduleFresh, found, recorded]
  exact (i.fingerprint s).agrees_self

section

variable {env : Environment} {c : BuildContext} {plan : BuildPlan} {t u : FileTree}

variable (env c) in
/-- From the cache `before` to the cache `after` the compile steps that came out well
    were entered with the fingerprints of what they read, and nothing else. -/
structure RecordsCompiles (turns : List CompileTurn) (before after : FingerprintCache) : Prop where
  done : ∀ turn ∈ turns, ∀ d, turn.result = .ok d → ∃ i, CompileReads env c turn i ∧
    after.compile.get? turn.step.output = some (c.compileNow turn.step i)
  others : ∀ p : Path, (∀ turn ∈ turns, ∀ d, turn.result = .ok d →
    p.components ≠ turn.step.output.components) → after.compile.get? p = before.compile.get? p

variable (env) in
/-- The same for link steps. -/
structure RecordsLinks (links : List LinkTurn) (before after : FingerprintCache) : Prop where
  done : ∀ turn ∈ links, ∀ a, turn.result = .ok a → ∃ i, LinkReads env turn i ∧
    after.link.get? turn.step.target = some (i.fingerprint turn.step)
  others : ∀ n, (∀ turn ∈ links, ∀ a, turn.result = .ok a → n ≠ turn.step.target) →
    after.link.get? n = before.link.get? n

/-- The compile steps of a build are entered into what it saves.  Steps with the same
    object have to come to the same fingerprint. -/
theorem Executes.recordsCompiles {turns : List CompileTurn} {links : List LinkTurn}
    {r : Except Failure (List Artifact)} {procs : List Invocation} {before : FingerprintCache}
    (ex : Executes env c plan t turns links r u procs)
    (loaded : .ofFile t env.cwd c.fingerprintPath = before)
    (alike : ∀ turn ∈ turns, ∀ turn' ∈ turns, ∀ d d', turn.result = .ok d → turn'.result = .ok d' →
      turn.step.output.components = turn'.step.output.components → d'.fingerprint = d.fingerprint) :
    RecordsCompiles env c turns before (cacheAfterTurns before turns links) := by
  have hcache := ex.cacheAfterTurns_eq loaded
  obtain ⟨compiles, -, -⟩ := ex
  rw [hcache]
  constructor
  · intro turn ht d hd
    obtain ⟨procs₁, hturn⟩ := compiles.turn ht
    rw [hd] at hturn
    obtain ⟨i, hi, hf⟩ := hturn.reads
    refine ⟨i, hi, ?_⟩
    rw [← hf]
    refine Table.get?_insertAll_of_mem (e := (turn.step.output, d.fingerprint))
      (mem_compileEntries.2 ⟨turn, ht, d, hd, rfl⟩) ?_
    rintro e he heq
    obtain ⟨turn', ht', d', hd', rfl⟩ := mem_compileEntries.1 he
    exact alike turn ht turn' ht' d d' hd hd' (Path.compare_eq_eq_iff.1 heq)
  · intro p hp
    refine Table.get?_insertAll_other fun e he => ?_
    obtain ⟨turn, ht, d, hd, rfl⟩ := mem_compileEntries.1 he
    intro heq
    exact hp turn ht d hd (Path.compare_eq_eq_iff.1 heq)

theorem Executes.recordsLinks {turns : List CompileTurn} {links : List LinkTurn}
    {r : Except Failure (List Artifact)} {procs : List Invocation} {before : FingerprintCache}
    (ex : Executes env c plan t turns links r u procs)
    (loaded : .ofFile t env.cwd c.fingerprintPath = before)
    (unique : (links.map fun turn => turn.step.target).Nodup) :
    RecordsLinks env links before (cacheAfterTurns before turns links) := by
  have hcache := ex.cacheAfterTurns_eq loaded
  obtain ⟨-, finishes, -⟩ := ex
  rw [hcache]
  constructor
  · intro turn ht a ha
    cases finishes with
    | stopped first => cases ht
    | linked first all =>
      obtain ⟨now, procs₁, hturn, -⟩ := all.turn ht
      rw [ha] at hturn
      obtain ⟨i, hi, -⟩ := hturn.reads
      refine ⟨i, hi, ?_⟩
      refine Table.get?_insertAll_of_mem (e := (turn.step.target, i.fingerprint turn.step))
        (mem_linkEntries.2 ⟨turn, ht, ⟨a, ha⟩, i, hi, rfl⟩) ?_
      rintro e he heq
      obtain ⟨turn', ht', -, j, hj, rfl⟩ := mem_linkEntries.1 he
      obtain rfl := List.inj_on_of_nodup_map unique ht ht' (Std.LawfulEqCmp.compare_eq_iff_eq.1 heq)
      rw [Except.ok.inj (hi.symm.trans hj)]
  · intro n hn
    refine Table.get?_insertAll_other fun e he => ?_
    obtain ⟨turn, ht, ⟨a, ha⟩, i, hi, rfl⟩ := mem_linkEntries.1 he
    intro heq
    exact hn turn ht a ha (Std.LawfulEqCmp.compare_eq_iff_eq.1 heq)

end

end GrammarBuild
