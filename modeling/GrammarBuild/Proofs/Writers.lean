import GrammarBuild.Proofs.Layout
import GrammarBuild.Proofs.Phases
import Mathlib.Logic.Function.Basic

/-
  GrammarBuild/Proofs/Writers.lean
  ================================
  **Who wrote a result last** — for each place of a result, the last process that wrote
  there (`Writer`): what its step depended on, what it left, and how it came out.
  `Writers` is no part of the program; it grows along with the turns of a build.

  `Account` says what an entry of the cache is worth: some process wrote the result, what
  is there is what the last one left, and if that one was recorded, it depended on what
  the entry stands for.  Nothing more can be said, since an entry stays when a later
  process fails or its build is cut short.  `Accounts.afterCompile` and
  `Accounts.afterLink` keep this for all results of a project.
-/

namespace GrammarBuild

deriving instance DecidableEq for Node

/-! ### The last process at a place -/

/-- How a process came out, and what became of it. -/
inductive Fate where
  /-- It did not exit with 0. -/
  | failed
  /-- It exited with 0, but its build did not save the cache. -/
  | lost
  /-- It exited with 0 and was recorded. -/
  | saved
deriving DecidableEq

def Fate.of (ran recorded : Bool) : Fate :=
  if ran then if recorded then .saved else .lost else .failed

/-- A process that wrote a result: what the result depended on, what was there
    afterwards, and how it came out. -/
structure Writer (κ : Type) where
  key : κ
  left : Option Node
  fate : Fate

/-- The last writer at a place after a step whose process came out well (`ran`) or not, or
    that started none; `before` and `after` are what is at the place.  A process that did
    not exit with 0 has written if it left something else, directories apart: these are
    made by steps. -/
def Writer.next {κ : Type} (w : Option (Writer κ)) (key : κ) (ran recorded : Bool)
    (before after : Option Node) : Option (Writer κ) :=
  if ran = true ∨ (after ≠ before ∧ after ≠ some .dir) then some ⟨key, after, .of ran recorded⟩
  else w

/-- The last writers of objects and of modules, by the places of these. -/
structure Writers where
  objects : Location → Option (Writer CompileKey)
  modules : Location → Option (Writer LinkKey)

namespace Writers

def none : Writers := ⟨fun _ => .none, fun _ => .none⟩

end Writers

/-- Whether a process was run for the step and exited with 0. -/
def compilerRan : Except Failure Compiled → Bool
  | .ok d => !d.fresh
  | .error _ => false

def linkerRan : Except Failure (Artifact × FingerprintCache) → Bool
  | .ok (a, _) => !a.fresh
  | .error _ => false

/-- The last writers after a compile step, of which nothing was recorded if `recorded` is
    false. -/
def Writers.afterCompile (env : Environment) (c : BuildContext) (recorded : Bool) (W : Writers)
    (turn : CompileTurn) : Writers :=
  match CompileInputs.ofStep turn.files env.cwd c.root turn.step with
  | .error _ => W
  | .ok i =>
    let l := turn.step.output.locate env.cwd
    let w := Writer.next (W.objects l) (i.key turn.step c.toolchain.identity)
      (compilerRan turn.result) recorded (turn.files.node? l) (turn.after.node? l)
    { W with objects := Function.update W.objects l w }

def Writers.afterLink (env : Environment) (recorded : Bool) (W : Writers) (turn : LinkTurn) :
    Writers :=
  match LinkInputs.ofStep turn.files env.cwd turn.step with
  | .error _ => W
  | .ok i =>
    let l := turn.step.output.locate env.cwd
    let w := Writer.next (W.modules l) (i.key turn.step) (linkerRan turn.result)
      recorded (turn.files.node? l) (turn.after.node? l)
    { W with modules := Function.update W.modules l w }

def Writers.afterTurns (env : Environment) (c : BuildContext) (recorded : Bool) (W : Writers)
    (turns : List CompileTurn) (links : List LinkTurn) : Writers :=
  links.foldl (afterLink env recorded) (turns.foldl (afterCompile env c recorded) W)

theorem Writers.afterTurns_nil (env : Environment) (c : BuildContext) (recorded : Bool) (W : Writers) :
    W.afterTurns env c recorded [] [] = W :=
  rfl

/-! ### What an entry of the cache is worth -/

/-- What is at the place of a result is nothing, what the writer left, or a directory. -/
def Remains {κ : Type} (n : Option Node) (w : Writer κ) : Prop :=
  n = none ∨ n = w.left ∨ n = some .dir

/-- What the cache's entry `e` is worth for a result with `n` at its place and the last
    writer `w`, if it concerns this result (`mine`). -/
structure Account {φ κ : Type} (Records : φ → κ → Prop) (mine : κ → Prop) (n : Option Node)
    (e : Option φ) (w : Option (Writer κ)) : Prop where
  vouched : ∀ f, e = some f →
    ∃ k, Records f k ∧ (mine k → ∃ v, w = some v ∧ (v.fate = .saved → v.key = k))
  remains : ∀ v, w = some v → Remains n v

namespace Account

variable {φ κ : Type} {Records : φ → κ → Prop} {mine : κ → Prop} {n m : Option Node} {e : Option φ}
  {w : Option (Writer κ)}

/-- Of a result that was never written nothing is recorded. -/
theorem blank (n : Option Node) : Account Records mine n none none := by
  constructor
  · intro f hf
    cases hf
  · intro v hv
    cases hv

theorem remains_of_dir {v : Writer κ} (h : Remains n v) (hm : m = n ∨ m = some .dir) :
    Remains m v := by
  rcases hm with rfl | rfl
  · exact h
  · exact .inr (.inr rfl)

/-- Another step's turn leaves the place alone or makes a directory there. -/
theorem elsewhere (a : Account Records mine n e w) (hm : m = n ∨ m = some .dir) :
    Account Records mine m e w := by
  refine ⟨a.vouched, ?_⟩
  intro v hv
  exact remains_of_dir (a.remains v hv) hm

theorem removed (a : Account Records mine n e w) : Account Records mine none e w :=
  ⟨a.vouched, fun _ _ => .inl rfl⟩

theorem forgotten (a : Account Records mine n e w) : Account Records mine n none w := by
  refine ⟨?_, a.remains⟩
  intro f hf
  cases hf

theorem remains_next {ran recorded : Bool} {key : κ} (a : Account Records mine n e w) {v : Writer κ}
    (hv : Writer.next w key ran recorded n m = some v) : Remains m v := by
  unfold Writer.next at hv
  split at hv
  · injection hv with hv
    subst hv
    exact .inr (.inl rfl)
  · rename_i hwrote
    simp only [not_or, not_and, not_not] at hwrote
    apply remains_of_dir (a.remains v hv)
    by_cases hm : m = n
    · exact .inl hm
    · exact .inr (hwrote.2 hm)

/-- A process that is not recorded leaves the entry as it is. -/
theorem unrecorded {ran recorded : Bool} {key : κ} (a : Account Records mine n e w)
    (h : ran = false ∨ recorded = false) :
    Account Records mine m e (Writer.next w key ran recorded n m) := by
  refine ⟨?_, fun v hv => a.remains_next hv⟩
  intro f hf
  obtain ⟨k, hk, hmine⟩ := a.vouched f hf
  refine ⟨k, hk, ?_⟩
  intro hm
  unfold Writer.next
  split
  · refine ⟨_, rfl, ?_⟩
    intro hsaved
    rcases h with rfl | rfl
    · cases hsaved
    · cases ran with
      | false => cases hsaved
      | true => cases hsaved
  · exact hmine hm

/-- A process that exited with 0 gives the entry. -/
theorem recorded {key : κ} {f : φ} (a : Account Records mine n e w) (hf : Records f key)
    (recorded : Bool) (m : Option Node) :
    Account Records mine m (some f) (Writer.next w key true recorded n m) := by
  refine ⟨?_, fun v hv => a.remains_next hv⟩
  intro g hg
  injection hg with hg
  subst hg
  refine ⟨key, hf, ?_⟩
  intro _
  exact ⟨⟨key, m, .of true recorded⟩, if_pos (.inl rfl), fun _ => rfl⟩

/-- An entry that agrees may be entered anew. -/
theorem renewed {key : κ} {f g : φ} (a : Account Records mine n e w) (he : e = some f)
    (hg : Records g key) (agrees : ∀ k, Records f k → k = key) :
    Account Records mine n (some g) w := by
  refine ⟨?_, a.remains⟩
  intro g' hg'
  injection hg' with hg'
  subst hg'
  obtain ⟨k, hk, hmine⟩ := a.vouched f he
  obtain rfl := agrees k hk
  exact ⟨k, hg, hmine⟩

/-- An entry may be exchanged for one that does not concern the result. -/
theorem replaced {key : κ} {g : φ} (a : Account Records mine n e w) (hg : Records g key)
    (other : ¬ mine key) : Account Records mine n (some g) w := by
  refine ⟨?_, a.remains⟩
  intro g' hg'
  injection hg' with hg'
  subst hg'
  exact ⟨key, hg, fun h => absurd h other⟩

/-- Where an entry that agrees is found, the result was written, and if the last writer
    was recorded, it depended on the same things. -/
theorem of_entry {key : κ} {f : φ} (a : Account Records mine n (some f) w) (there : n ≠ none)
    (agrees : ∀ k, Records f k → k = key) (hmine : mine key) :
    ∃ v, w = some v ∧ (n = v.left ∨ n = some .dir) ∧ (v.fate = .saved → v.key = key) := by
  obtain ⟨k, hk, h⟩ := a.vouched f rfl
  obtain rfl := agrees k hk
  obtain ⟨v, hv, hkey⟩ := h hmine
  refine ⟨v, hv, ?_, hkey⟩
  rcases a.remains v hv with hn | hn
  · exact absurd hn there
  · exact hn

end Account

theorem Writer.next_of_same {κ : Type} (w : Option (Writer κ)) (key : κ) (recorded : Bool)
    (n : Option Node) : Writer.next w key false recorded n n = w := by
  unfold Writer.next
  rw [if_neg]
  simp

/-! ### The accounts of a project -/

/-- The fingerprint was taken of a step that depends on this, and nothing that it digests
    collides. -/
def CompileKey.Kept (S : Set (List UInt8)) (f : CompileFingerprint) (k : CompileKey) : Prop :=
  CompileKey.Records f k ∧ k.Within S

def LinkKey.Kept (S : Set (List UInt8)) (f : LinkFingerprint) (k : LinkKey) : Prop :=
  LinkKey.Records f k ∧ k.Within S

/-- Every entry for a result of the project is worth what `Account` says.  The entry of a
    target concerns the module that the link step's arguments name. -/
structure Accounts (S : Set (List UInt8)) (P : Project) (cwd : Location) (t : FileTree)
    (cache : FingerprintCache) (W : Writers) : Prop where
  object : ∀ {c : BuildContext} {plan : BuildPlan} {s : CompileStep}, P.Plans c plan →
    s ∈ plan.compileSteps →
    Account (CompileKey.Kept S) (fun _ => True) (t.node? (s.output.locate cwd))
      (cache.compile.get? s.output) (W.objects (s.output.locate cwd))
  module : ∀ {c : BuildContext} {plan : BuildPlan} {s : LinkStep}, P.Plans c plan →
    s ∈ plan.linkSteps →
    Account (LinkKey.Kept S) (·.argv = s.command.argv) (t.node? (s.output.locate cwd))
      (cache.link.get? s.target) (W.modules (s.output.locate cwd))

/-- Every process of a build writes at the place of its step's result only. -/
structure WritesOwn (env : Environment) (c : BuildContext) (plan : BuildPlan) : Prop where
  compile : ∀ s ∈ plan.compileSteps, ∀ v l, l ≠ s.output.locate env.cwd →
    (env.run v (c.compileCall s)).2.node? l = v.node? l
  link : ∀ s ∈ plan.linkSteps, ∀ v l, l ≠ s.output.locate env.cwd →
    (env.run v (c.linkCall s)).2.node? l = v.node? l

theorem FileTree.AddsDirs.node?_or {A : List Location} {t u : FileTree}
    (a : FileTree.AddsDirs A t u) (l : Location) :
    u.node? l = t.node? l ∨ u.node? l = some .dir := by
  rcases a l with h | ⟨-, -, h⟩
  · exact .inl h
  · exact .inr h

section

variable {S : Set (List UInt8)} {P : Project} {env : Environment} {c : BuildContext}
  {plan : BuildPlan} {cache now : FingerprintCache} {W : Writers} {t u : FileTree}

theorem FileTree.prepare_node?_or {e : Except Failure Unit} {output : Path}
    (h : t.prepare env.cwd output = (e, u)) (l : Location) :
    u.node? l = t.node? l ∨ u.node? l = some .dir := by
  have ha := FileTree.prepare_adds t env.cwd output
  rw [h] at ha
  exact ha.node?_or l

theorem run_elsewhere {v : FileTree} {output : Path} {call : Invocation} {l : Location}
    {q : Except HostFault Completed} (dir : t.prepare env.cwd output = (.ok (), v))
    (run : env.run v call = (q, u)) (own : (env.run v call).2.node? l = v.node? l) :
    u.node? l = t.node? l ∨ u.node? l = some .dir := by
  rw [run] at own
  rw [own]
  exact FileTree.prepare_node?_or dir l

/-- A compile step leaves every other place alone, or makes a directory there. -/
theorem Compiles.elsewhere {s : CompileStep} {r : Except Failure Compiled} {procs : List Invocation}
    (h : Compiles env c now s t r u procs) (own : WritesOwn env c plan) (hs : s ∈ plan.compileSteps)
    {l : Location} (hl : l ≠ s.output.locate env.cwd) :
    u.node? l = t.node? l ∨ u.node? l = some .dir := by
  cases h with
  | unreadable => exact .inl rfl
  | fresh => exact .inl rfl
  | blocked _ _ dir => exact FileTree.prepare_node?_or dir l
  | succeeded _ _ dir run => exact run_elsewhere dir run (own.compile s hs _ l hl)
  | failed _ _ dir run => exact run_elsewhere dir run (own.compile s hs _ l hl)

theorem Links.elsewhere {s : LinkStep} {rebuilt : Bool}
    {r : Except Failure (Artifact × FingerprintCache)} {procs : List Invocation}
    (h : Links env c now rebuilt s t r u procs) (own : WritesOwn env c plan)
    (hs : s ∈ plan.linkSteps) {l : Location} (hl : l ≠ s.output.locate env.cwd) :
    u.node? l = t.node? l ∨ u.node? l = some .dir := by
  cases h with
  | unreadable => exact .inl rfl
  | fresh => exact .inl rfl
  | blocked _ _ dir => exact FileTree.prepare_node?_or dir l
  | succeeded _ _ dir run => exact run_elsewhere dir run (own.link s hs _ l hl)
  | failed _ _ dir run => exact run_elsewhere dir run (own.link s hs _ l hl)

theorem Writers.modules_afterCompile (recorded : Bool) (turn : CompileTurn) :
    (W.afterCompile env c recorded turn).modules = W.modules := by
  unfold Writers.afterCompile
  split
  · rfl
  · rfl

theorem Writers.objects_afterCompile_ne (recorded : Bool) (turn : CompileTurn) {l : Location}
    (hl : l ≠ turn.step.output.locate env.cwd) :
    (W.afterCompile env c recorded turn).objects l = W.objects l := by
  unfold Writers.afterCompile
  split
  · rfl
  · exact Function.update_of_ne hl _ _

theorem Writers.objects_afterCompile (recorded : Bool) {s : CompileStep} {i : CompileInputs}
    (hi : CompileInputs.ofStep t env.cwd c.root s = .ok i) (r : Except Failure Compiled) :
    (W.afterCompile env c recorded ⟨s, t, r, u⟩).objects (s.output.locate env.cwd) =
      Writer.next (W.objects (s.output.locate env.cwd)) (i.key s c.toolchain.identity)
        (compilerRan r) recorded (t.node? (s.output.locate env.cwd))
        (u.node? (s.output.locate env.cwd)) := by
  unfold Writers.afterCompile
  simp only [hi]
  exact Function.update_self _ _ _

theorem Writers.objects_afterLink (recorded : Bool) (turn : LinkTurn) :
    (W.afterLink env recorded turn).objects = W.objects := by
  unfold Writers.afterLink
  split
  · rfl
  · rfl

theorem Writers.modules_afterLink_ne (recorded : Bool) (turn : LinkTurn) {l : Location}
    (hl : l ≠ turn.step.output.locate env.cwd) :
    (W.afterLink env recorded turn).modules l = W.modules l := by
  unfold Writers.afterLink
  split
  · rfl
  · exact Function.update_of_ne hl _ _

theorem Writers.modules_afterLink (recorded : Bool) {s : LinkStep} {i : LinkInputs}
    (hi : LinkInputs.ofStep t env.cwd s = .ok i) (r : Except Failure (Artifact × FingerprintCache)) :
    (W.afterLink env recorded ⟨s, t, r, u⟩).modules (s.output.locate env.cwd) =
      Writer.next (W.modules (s.output.locate env.cwd)) (i.key s) (linkerRan r) recorded
        (t.node? (s.output.locate env.cwd)) (u.node? (s.output.locate env.cwd)) := by
  unfold Writers.afterLink
  simp only [hi]
  exact Function.update_self _ _ _

/-! ### Turns of compile steps -/

/-- What is recorded of an object that was up to date tells what it depends on. -/
theorem CompileKey.eq_of_agrees (hS : NoCollision S) {f : CompileFingerprint} {s : CompileStep}
    {i : CompileInputs} (hi : (i.key s c.toolchain.identity).Within S)
    (ha : f.agrees (c.compileNow s i) = true) (k : CompileKey) (hk : CompileKey.Kept S f k) :
    k = i.key s c.toolchain.identity :=
  (CompileKey.agrees_iff hS hk.1 (CompileKey.records_fingerprint i s _) hk.2 hi).1 ha

theorem LinkKey.eq_of_agrees (hS : NoCollision S) {f : LinkFingerprint} {s : LinkStep}
    {i : LinkInputs} (hi : (i.key s).Within S) (ha : f.agrees (i.fingerprint s) = true)
    (k : LinkKey) (hk : LinkKey.Kept S f k) : k = i.key s :=
  (LinkKey.agrees_iff hS hk.1 (LinkKey.records_fingerprint i s) hk.2 hi).1 ha

theorem FingerprintCache.objectFresh_iff {s : CompileStep} {f : CompileFingerprint} :
    now.objectFresh t env.cwd s.output f = true ↔ t.pathExists env.cwd s.output = true ∧
      ∃ g, now.compile.get? s.output = some g ∧ g.agrees f = true := by
  unfold FingerprintCache.objectFresh
  rw [Bool.and_eq_true, Option.any_eq_true]

theorem FingerprintCache.linkFresh_iff {s : LinkStep} {i : LinkInputs} {rebuilt : Bool} :
    now.linkFresh t env.cwd rebuilt s i = true ↔ rebuilt = false ∧
      t.pathExists env.cwd s.output = true ∧
      ∃ g, now.link.get? s.target = some g ∧ g.agrees (i.fingerprint s) = true := by
  unfold FingerprintCache.linkFresh FingerprintCache.moduleFresh
  rw [Bool.and_eq_true, Bool.and_eq_true, Option.any_eq_true, Bool.not_eq_true']

/-- The account of the object whose step has its turn, if the turn is recorded. -/
theorem Account.afterCompile (hS : NoCollision S) {s : CompileStep} {r : Except Failure Compiled}
    {procs : List Invocation}
    (a : Account (CompileKey.Kept S) (fun _ => True) (t.node? (s.output.locate env.cwd))
      (cache.compile.get? s.output) (W.objects (s.output.locate env.cwd)))
    (h : Compiles env c now s t r u procs)
    (same : now.compile.get? s.output = cache.compile.get? s.output)
    (within : ∀ i, CompileInputs.ofStep t env.cwd c.root s = .ok i →
      (i.key s c.toolchain.identity).Within S) :
    Account (CompileKey.Kept S) (fun _ => True) (u.node? (s.output.locate env.cwd))
      ((BuildContext.recordOutcomes cache [(s, r)]).compile.get? s.output)
      ((W.afterCompile env c true ⟨s, t, r, u⟩).objects (s.output.locate env.cwd)) := by
  have hkept {i : CompileInputs} (hi : CompileInputs.ofStep t env.cwd c.root s = .ok i) :
      CompileKey.Kept S (c.compileNow s i) (i.key s c.toolchain.identity) :=
    ⟨CompileKey.records_fingerprint i s _, within i hi⟩
  have hget (d : Compiled) :
      (BuildContext.recordOutcomes cache [(s, .ok d)]).compile.get? s.output = some d.fingerprint := by
    simp [BuildContext.recordOutcomes, FingerprintCache.recordCompile, Table.get?_insert]
  cases h with
  | @unreadable e inputs =>
    have hW : W.afterCompile env c true ⟨s, t, .error (e.inside (.readingSource s.source)), t⟩ = W := by
      unfold Writers.afterCompile
      simp only [inputs]
    rw [hW]
    exact a
  | @fresh i inputs fresh =>
    rw [Writers.objects_afterCompile true inputs, hget]
    simp only [compilerRan, Bool.not_true, Writer.next_of_same]
    obtain ⟨-, g, hg, ha⟩ := FingerprintCache.objectFresh_iff.1 fresh
    exact a.renewed (same ▸ hg) (hkept inputs) (CompileKey.eq_of_agrees hS (within i inputs) ha)
  | blocked inputs =>
    rw [Writers.objects_afterCompile true inputs]
    exact a.unrecorded (.inl rfl)
  | succeeded inputs =>
    rw [Writers.objects_afterCompile true inputs, hget]
    exact a.recorded (hkept inputs) true _
  | failed inputs =>
    rw [Writers.objects_afterCompile true inputs]
    exact a.unrecorded (.inl rfl)

/-- After a turn of a compile step that is recorded all accounts are right again.  `now` is
    the cache that the step was looked up in. -/
theorem Accounts.afterCompile (hS : NoCollision S) {s : CompileStep} {r : Except Failure Compiled}
    {procs : List Invocation} (acc : Accounts S P env.cwd t cache W) (hP : P.Plans c plan)
    (hs : s ∈ plan.compileSteps) (own : WritesOwn env c plan) (h : Compiles env c now s t r u procs)
    (same : now.compile.get? s.output = cache.compile.get? s.output)
    (within : ∀ i, CompileInputs.ofStep t env.cwd c.root s = .ok i →
      (i.key s c.toolchain.identity).Within S) :
    Accounts S P env.cwd u (BuildContext.recordOutcomes cache [(s, r)])
      (W.afterCompile env c true ⟨s, t, r, u⟩) where
  object {c' plan' s'} hP' hs' := by
    have a := acc.object hP' hs'
    by_cases hl : s'.output.locate env.cwd = s.output.locate env.cwd
    · rw [Project.object_eq_of_location hP' hP hs' hs hl] at a ⊢
      exact a.afterCompile hS h same within
    · have hget : (BuildContext.recordOutcomes cache [(s, r)]).compile.get? s'.output =
          cache.compile.get? s'.output := by
        cases r with
        | error e => rfl
        | ok d =>
          have hne : s'.output.components ≠ s.output.components := fun he =>
            hl (FileTree.locate_congr he env.cwd)
          simp [BuildContext.recordOutcomes, FingerprintCache.recordCompile, Table.get?_insert,
            Path.compare_eq_eq_iff, hne]
      rw [hget, Writers.objects_afterCompile_ne true ⟨s, t, r, u⟩ hl]
      exact a.elsewhere (h.elsewhere own hs hl)
  module {c' plan' s'} hP' hs' := by
    have a := acc.module hP' hs'
    have hget : (BuildContext.recordOutcomes cache [(s, r)]).link = cache.link := by
      cases r with
      | error e => rfl
      | ok d => rfl
    rw [hget, Writers.modules_afterCompile]
    exact a.elsewhere (h.elsewhere own hs (Project.object_ne_module hP hP' hs hs').symm)

/-- A turn of a compile step that is not recorded leaves the accounts of the cache right. -/
theorem Accounts.afterLostCompile {s : CompileStep} {r : Except Failure Compiled}
    {procs : List Invocation} (acc : Accounts S P env.cwd t cache W) (hP : P.Plans c plan)
    (hs : s ∈ plan.compileSteps) (own : WritesOwn env c plan)
    (h : Compiles env c now s t r u procs) :
    Accounts S P env.cwd u cache (W.afterCompile env c false ⟨s, t, r, u⟩) where
  object {c' plan' s'} hP' hs' := by
    have a := acc.object hP' hs'
    by_cases hl : s'.output.locate env.cwd = s.output.locate env.cwd
    · cases hi : CompileInputs.ofStep t env.cwd c.root s with
      | error e =>
        have hW : W.afterCompile env c false ⟨s, t, r, u⟩ = W := by
          unfold Writers.afterCompile
          simp only [hi]
        have hu : u = t := by
          cases h with
          | unreadable => rfl
          | fresh => rfl
          | blocked inputs => simp [hi] at inputs
          | succeeded inputs => simp [hi] at inputs
          | failed inputs => simp [hi] at inputs
        rw [hW, hu]
        exact a
      | ok i =>
        rw [hl] at a ⊢
        rw [Writers.objects_afterCompile false hi]
        exact a.unrecorded (.inr rfl)
    · rw [Writers.objects_afterCompile_ne false ⟨s, t, r, u⟩ hl]
      exact a.elsewhere (h.elsewhere own hs hl)
  module {c' plan' s'} hP' hs' := by
    rw [Writers.modules_afterCompile]
    exact (acc.module hP' hs').elsewhere
      (h.elsewhere own hs (Project.object_ne_module hP hP' hs hs').symm)

/-! ### Turns of link steps -/

/-- The cache after a link step. -/
def cacheAfterLink (cache : FingerprintCache) : Except Failure (Artifact × FingerprintCache) →
    FingerprintCache
  | .ok (_, cache) => cache
  | .error _ => cache

theorem get?_recordLink (s : LinkStep) (f : LinkFingerprint) (n : String) :
    (cache.recordLink s.target f).link.get? n = if n = s.target then some f else cache.link.get? n := by
  simp [FingerprintCache.recordLink, Table.get?_insert, Std.LawfulEqCmp.compare_eq_iff_eq]

/-- The account of a target's module after a turn of a link step of this target, if the
    turn is recorded. -/
theorem Account.afterLink (hS : NoCollision S) {s s' : LinkStep} {rebuilt : Bool}
    {r : Except Failure (Artifact × FingerprintCache)} {procs : List Invocation}
    (a : Account (LinkKey.Kept S) (·.argv = s'.command.argv) (t.node? (s'.output.locate env.cwd))
      (now.link.get? s'.target) (W.modules (s'.output.locate env.cwd)))
    (h : Links env c now rebuilt s t r u procs) (target : s'.target = s.target)
    (elsewhere : s'.output.locate env.cwd ≠ s.output.locate env.cwd →
      (u.node? (s'.output.locate env.cwd) = t.node? (s'.output.locate env.cwd) ∨
        u.node? (s'.output.locate env.cwd) = some .dir) ∧ s.command.argv ≠ s'.command.argv)
    (within : ∀ i, LinkInputs.ofStep t env.cwd s = .ok i → (i.key s).Within S) :
    Account (LinkKey.Kept S) (·.argv = s'.command.argv) (u.node? (s'.output.locate env.cwd))
      ((cacheAfterLink now r).link.get? s'.target)
      ((W.afterLink env true ⟨s, t, r, u⟩).modules (s'.output.locate env.cwd)) := by
  have hkept {i : LinkInputs} (hi : LinkInputs.ofStep t env.cwd s = .ok i) :
      LinkKey.Kept S (i.fingerprint s) (i.key s) := ⟨LinkKey.records_fingerprint i s, within i hi⟩
  by_cases hl : s'.output.locate env.cwd = s.output.locate env.cwd
  · rw [hl] at a ⊢
    cases h with
    | @unreadable e inputs =>
      have hW : W.afterLink env true ⟨s, t, .error e, t⟩ = W := by
        unfold Writers.afterLink
        simp only [inputs]
      rw [hW]
      exact a
    | @fresh i inputs fresh =>
      rw [Writers.modules_afterLink true inputs]
      simp only [linkerRan, LinkStep.artifact, Bool.not_true, Writer.next_of_same, cacheAfterLink,
        get?_recordLink, target, if_true]
      obtain ⟨-, -, g, hg, ha⟩ := FingerprintCache.linkFresh_iff.1 fresh
      exact a.renewed (target ▸ hg) (hkept inputs) (LinkKey.eq_of_agrees hS (within i inputs) ha)
    | blocked inputs =>
      rw [Writers.modules_afterLink true inputs]
      exact a.unrecorded (.inl rfl)
    | succeeded inputs =>
      rw [Writers.modules_afterLink true inputs]
      simp only [linkerRan, LinkStep.artifact, Bool.not_false, cacheAfterLink, get?_recordLink, target,
        if_true]
      exact a.recorded (hkept inputs) true _
    | failed inputs =>
      rw [Writers.modules_afterLink true inputs]
      exact a.unrecorded (.inl rfl)
  · obtain ⟨hnode, hargv⟩ := elsewhere hl
    rw [Writers.modules_afterLink_ne true ⟨s, t, r, u⟩ hl]
    have a := a.elsewhere hnode
    cases h with
    | unreadable => exact a
    | fresh inputs =>
      simp only [cacheAfterLink, get?_recordLink, target, if_true]
      exact a.replaced (hkept inputs) hargv
    | blocked => exact a
    | succeeded inputs =>
      simp only [cacheAfterLink, get?_recordLink, target, if_true]
      exact a.replaced (hkept inputs) hargv
    | failed => exact a

/-- After a turn of a link step that is recorded all accounts are right again. -/
theorem Accounts.afterLink (hS : NoCollision S) {s : LinkStep} {rebuilt : Bool}
    {r : Except Failure (Artifact × FingerprintCache)} {procs : List Invocation}
    (acc : Accounts S P env.cwd t now W) (hP : P.Plans c plan) (hs : s ∈ plan.linkSteps)
    (own : WritesOwn env c plan) (h : Links env c now rebuilt s t r u procs)
    (within : ∀ i, LinkInputs.ofStep t env.cwd s = .ok i → (i.key s).Within S) :
    Accounts S P env.cwd u (cacheAfterLink now r) (W.afterLink env true ⟨s, t, r, u⟩) where
  object {c' plan' s'} hP' hs' := by
    have a := acc.object hP' hs'
    have hcompile : (cacheAfterLink now r).compile = now.compile := by
      cases h with
      | unreadable => rfl
      | fresh => rfl
      | blocked => rfl
      | succeeded => rfl
      | failed => rfl
    rw [hcompile, Writers.objects_afterLink]
    exact a.elsewhere (h.elsewhere own hs (Project.object_ne_module hP' hP hs' hs))
  module {c' plan' s'} hP' hs' := by
    have a := acc.module hP' hs'
    by_cases htarget : s'.target = s.target
    · refine a.afterLink hS h htarget ?_ within
      intro hl
      refine ⟨h.elsewhere own hs hl, ?_⟩
      intro ha
      apply hl
      rw [Project.module_eq_of_argv hP hP' hs hs' ha]
    · have hl : s'.output.locate env.cwd ≠ s.output.locate env.cwd := fun hl =>
        htarget (Project.target_eq_of_location hP' hP hs' hs hl)
      have hget : (cacheAfterLink now r).link.get? s'.target = now.link.get? s'.target := by
        cases h with
        | unreadable => rfl
        | fresh => simp only [cacheAfterLink, get?_recordLink, if_neg htarget]
        | blocked => rfl
        | succeeded => simp only [cacheAfterLink, get?_recordLink, if_neg htarget]
        | failed => rfl
      rw [hget, Writers.modules_afterLink_ne true ⟨s, t, r, u⟩ hl]
      exact a.elsewhere (h.elsewhere own hs hl)

/-- A turn of a link step that is not recorded leaves the accounts of the cache right. -/
theorem Accounts.afterLostLink {s : LinkStep} {rebuilt : Bool}
    {r : Except Failure (Artifact × FingerprintCache)} {procs : List Invocation}
    (acc : Accounts S P env.cwd t cache W) (hP : P.Plans c plan) (hs : s ∈ plan.linkSteps)
    (own : WritesOwn env c plan) (h : Links env c now rebuilt s t r u procs) :
    Accounts S P env.cwd u cache (W.afterLink env false ⟨s, t, r, u⟩) where
  object {c' plan' s'} hP' hs' := by
    rw [Writers.objects_afterLink]
    exact (acc.object hP' hs').elsewhere
      (h.elsewhere own hs (Project.object_ne_module hP' hP hs' hs))
  module {c' plan' s'} hP' hs' := by
    have a := acc.module hP' hs'
    by_cases hl : s'.output.locate env.cwd = s.output.locate env.cwd
    · cases hi : LinkInputs.ofStep t env.cwd s with
      | error e =>
        have hW : W.afterLink env false ⟨s, t, r, u⟩ = W := by
          unfold Writers.afterLink
          simp only [hi]
        have hu : u = t := by
          cases h with
          | unreadable => rfl
          | fresh => rfl
          | blocked inputs => simp [hi] at inputs
          | succeeded inputs => simp [hi] at inputs
          | failed inputs => simp [hi] at inputs
        rw [hW, hu]
        exact a
      | ok i =>
        rw [hl] at a ⊢
        rw [Writers.modules_afterLink false hi]
        exact a.unrecorded (.inr rfl)
    · rw [Writers.modules_afterLink_ne false ⟨s, t, r, u⟩ hl]
      exact a.elsewhere (h.elsewhere own hs hl)

end

end GrammarBuild
