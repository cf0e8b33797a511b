import GrammarBuild.Proofs.Directories
import GrammarBuild.Proofs.Phases

/-
  GrammarBuild/Proofs/Observations.lean
  =====================================
  **Actions go by what the files show** — two trees can be built differently and show the
  same at every location (`FileTree.Alike`).  Walks, reading and writing cannot tell them
  apart, and if processes cannot either (`Environment.Observant`), then linking the
  targets and saving the cache come to the same on both and leave trees that show the
  same again (`observant_linkAll`, `observant_save`).
-/

namespace GrammarBuild

namespace FileTree

/-- Two trees show the same at every location. -/
def Alike (t u : FileTree) : Prop := t.node? = u.node?

namespace Alike

variable {t u : FileTree}

theorem refl (t : FileTree) : Alike t t := Eq.refl _

theorem isDirAt (h : Alike t u) : t.isDirAt = u.isDirAt := by
  funext l
  rw [FileTree.isDirAt, h, FileTree.isDirAt]

theorem stepFrom (h : Alike t u) : t.stepFrom = u.stepFrom := by
  funext l name
  unfold FileTree.stepFrom
  rw [h.isDirAt, h]

theorem walk (h : Alike t u) : t.walk = u.walk := by
  funext l steps
  rw [walk_eq_foldlM, walk_eq_foldlM, h.stepFrom]

theorem resolve (h : Alike t u) : t.resolve = u.resolve := by
  funext cwd p
  unfold FileTree.resolve
  rw [h.walk]

theorem at? (h : Alike t u) : t.at? = u.at? := by
  funext cwd p
  unfold FileTree.at?
  rw [h.resolve, h]

theorem pathExists (h : Alike t u) : t.pathExists = u.pathExists := by
  funext cwd p
  rw [FileTree.pathExists, h.at?, FileTree.pathExists]

theorem isDir (h : Alike t u) : t.isDir = u.isDir := by
  funext cwd p
  rw [FileTree.isDir, h.at?, FileTree.isDir]

theorem openRead (h : Alike t u) : t.openRead = u.openRead := by
  funext cwd p
  unfold FileTree.openRead
  rw [h.resolve, h]

theorem readFile (h : Alike t u) : t.readFile = u.readFile := by
  funext cwd p
  unfold FileTree.readFile
  rw [h.openRead]

theorem readToDigest (h : Alike t u) : t.readToDigest = u.readToDigest := by
  funext cwd p
  unfold FileTree.readToDigest
  rw [h.openRead]

theorem parentOf (h : Alike t u) : t.parentOf = u.parentOf := by
  funext cwd p
  unfold FileTree.parentOf
  rw [h.walk, h.isDirAt]

theorem set (h : Alike t u) (l : Location) (n : Node) : Alike (t.set l n) (u.set l n) := by
  funext m
  rw [node?_set, node?_set, h]

theorem writeAt (h : Alike t u) (l : Location) (bytes : ByteArray) :
    Alike (t.writeAt l bytes) (u.writeAt l bytes) := by
  unfold FileTree.writeAt
  rw [h]
  exact h.set l _

/-- Two outcomes of a change that can fail: the same failure, or trees that show the
    same. -/
def Changes : Except HostFault FileTree → Except HostFault FileTree → Prop
  | .ok t, .ok u => Alike t u
  | .error e, .error f => e = f
  | _, _ => False

theorem Changes.ok {y : Except HostFault FileTree} (h : Changes (.ok t) y) :
    ∃ u, y = .ok u ∧ Alike t u := by
  cases y with
  | ok u => exact ⟨u, rfl, h⟩
  | error f => cases h

theorem Changes.error {e : HostFault} {y : Except HostFault FileTree} (h : Changes (.error e) y) :
    y = .error e := by
  cases y with
  | ok u => cases h
  | error f =>
    obtain rfl : e = f := h
    rfl

theorem createDir (h : Alike t u) (cwd : Location) (p : Path) :
    Changes (t.createDir cwd p) (u.createDir cwd p) := by
  unfold FileTree.createDir
  rw [h.parentOf, h]
  cases u.parentOf cwd p with
  | error f => exact rfl
  | ok r =>
    obtain ⟨l, last⟩ := r
    cases last with
    | none => exact rfl
    | some name =>
      simp only [bind, Except.bind]
      split
      · exact rfl
      simp only [pure, Except.pure]
      split
      · exact rfl
      split
      · exact rfl
      · exact h.set _ _

theorem writeUnless (h : Alike t u) (refuses : Location → Option Refusal) (cwd : Location) (p : Path)
    (bytes : ByteArray) :
    (t.writeUnless refuses cwd p bytes).1 = (u.writeUnless refuses cwd p bytes).1 ∧
      Alike (t.writeUnless refuses cwd p bytes).2 (u.writeUnless refuses cwd p bytes).2 := by
  have hplace : t.placeToWrite cwd p = u.placeToWrite cwd p := by
    unfold placeToWrite
    rw [h.parentOf, h.isDirAt]
  unfold FileTree.writeUnless
  rw [hplace]
  cases u.placeToWrite cwd p with
  | error f => exact ⟨rfl, h⟩
  | ok l =>
    cases hr : refuses l with
    | none =>
      simp only [hr]
      exact ⟨trivial, h.writeAt l bytes⟩
    | some r =>
      simp only [hr]
      cases r.taken with
      | none => exact ⟨trivial, h⟩
      | some n => exact ⟨trivial, h.writeAt l _⟩

theorem createLast (h : Alike t u) (cwd : Location) (p : Path) :
    (t.createLast cwd p).1 = (u.createLast cwd p).1 ∧
      Alike (t.createLast cwd p).2 (u.createLast cwd p).2 := by
  have hcreate := h.createDir cwd p
  unfold FileTree.createLast
  rw [h.isDir]
  cases ht : t.createDir cwd p with
  | ok t' =>
    rw [ht] at hcreate
    obtain ⟨u', hu, halike⟩ := hcreate.ok
    rw [hu]
    exact ⟨rfl, halike⟩
  | error e =>
    rw [ht] at hcreate
    rw [hcreate.error]
    cases u.isDir cwd p with
    | true => exact ⟨rfl, h⟩
    | false => exact ⟨rfl, h⟩

theorem createDirs (h : Alike t u) (cwd : Location) (p : Path) :
    (t.createDirs cwd p).1 = (u.createDirs cwd p).1 ∧
      Alike (t.createDirs cwd p).2 (u.createDirs cwd p).2 := by
  have hchanges (p : Path) := h.createDir cwd p
  fun_induction FileTree.createDirs t cwd p with
  | case1 p hempty =>
    rw [FileTree.createDirs, if_pos hempty]
    exact ⟨rfl, h⟩
  | case2 p hempty t' ht =>
    have hcreate := hchanges p
    rw [ht] at hcreate
    obtain ⟨u', hu, halike⟩ := hcreate.ok
    rw [FileTree.createDirs, if_neg hempty, hu]
    exact ⟨rfl, halike⟩
  | case3 p hempty ht hp =>
    have hcreate := hchanges p
    rw [ht] at hcreate
    rw [FileTree.createDirs, if_neg hempty, hcreate.error]
    simp only []
    split
    · exact ⟨rfl, h⟩
    · rename_i q hq
      rw [hp] at hq
      cases hq
  | case4 p hempty ht parent hp v hv ih =>
    have hcreate := hchanges p
    rw [ht] at hcreate
    rw [createDirs_of_notFound (by simpa using hempty) hcreate.error hp]
    rcases hu : u.createDirs cwd parent with ⟨r, w⟩
    rw [hv, hu] at ih
    obtain ⟨rfl, halike⟩ := ih
    exact halike.createLast cwd p
  | case5 p hempty ht parent hp hfailed ih =>
    have hcreate := hchanges p
    rw [ht] at hcreate
    rw [createDirs_of_notFound (by simpa using hempty) hcreate.error hp]
    rcases hv : t.createDirs cwd parent with ⟨r, v⟩
    rcases hu : u.createDirs cwd parent with ⟨r', w⟩
    rw [hv, hu] at ih
    obtain ⟨rfl, halike⟩ := ih
    cases r with
    | ok _ => exact absurd hv (hfailed v)
    | error e => exact ⟨rfl, halike⟩
  | case6 p hempty f ht hf hdir =>
    have hcreate := hchanges p
    rw [hf] at hcreate
    rw [createDirs_of_error (by simpa using hempty) hcreate.error ht, ← h.isDir, hdir]
    exact ⟨rfl, h⟩
  | case7 p hempty f ht hf hdir =>
    have hcreate := hchanges p
    rw [hf] at hcreate
    rw [createDirs_of_error (by simpa using hempty) hcreate.error ht, ← h.isDir, if_neg hdir]
    exact ⟨rfl, h⟩

theorem prepare (h : Alike t u) (cwd : Location) (output : Path) :
    (t.prepare cwd output).1 = (u.prepare cwd output).1 ∧
      Alike (t.prepare cwd output).2 (u.prepare cwd output).2 := by
  unfold FileTree.prepare
  cases output.parent? with
  | none => exact ⟨rfl, h⟩
  | some dir =>
    simp only [h.pathExists]
    split
    · exact ⟨rfl, h⟩
    · obtain ⟨hres, halike⟩ := h.createDirs cwd dir
      rw [hres]
      exact ⟨rfl, halike⟩

end Alike

end FileTree

/-! ### Actions -/

/-- The processes go by what the files show. -/
def Environment.Observant (env : Environment) : Prop :=
  ∀ t u i, FileTree.Alike t u →
    (env.run t i).1 = (env.run u i).1 ∧ FileTree.Alike (env.run t i).2 (env.run u i).2

namespace Action

variable {α β : Type} {env : Environment}

/-- An action goes by what the files show. -/
def Observant (env : Environment) (x : Action α) : Prop :=
  ∀ h h' : Host, h.files.Alike h'.files →
    (x.runOn env h).1 = (x.runOn env h').1 ∧
      (x.runOn env h).2.files.Alike (x.runOn env h').2.files

theorem observant_pure (a : α) : Observant env (pure a : Action α) :=
  fun _ _ alike => ⟨rfl, alike⟩

theorem observant_throw (e : Failure) : Observant env (throw e : Action α) :=
  fun _ _ alike => ⟨rfl, alike⟩

theorem observant_bind {x : Action α} {f : α → Action β} (hx : Observant env x)
    (hf : ∀ a, Observant env (f a)) : Observant env (x >>= f) := by
  intro h h' alike
  obtain ⟨hres, hfiles⟩ := hx h h' alike
  rw [runOn_bind, runOn_bind]
  rcases hr : x.runOn env h with ⟨r, k⟩
  rcases hr' : x.runOn env h' with ⟨r', k'⟩
  rw [hr, hr'] at hres hfiles
  obtain rfl : r = r' := hres
  cases r with
  | error e => exact ⟨rfl, hfiles⟩
  | ok a => exact hf a k k' hfiles

theorem observant_attempt {x : Action α} (hx : Observant env x) : Observant env (attempt x) := by
  intro h h' alike
  obtain ⟨hres, hfiles⟩ := hx h h' alike
  rw [runOn_attempt, runOn_attempt, hres]
  exact ⟨rfl, hfiles⟩

theorem observant_within {x : Action α} (a : Activity) (hx : Observant env x) :
    Observant env (within a x) := by
  intro h h' alike
  obtain ⟨hres, hfiles⟩ := hx h h' alike
  rw [runOn_within, runOn_within, hres]
  exact ⟨rfl, hfiles⟩

/-- An action that leaves the files alone and whose result is a function of what they
    show. -/
theorem observant_look {x : Action α} {r : FileTree → Except Failure α}
    (hx : ∀ h, (x.runOn env h).1 = r h.files ∧ (x.runOn env h).2.files = h.files)
    (hr : ∀ t u, FileTree.Alike t u → r t = r u) : Observant env x := by
  intro h h' alike
  rw [(hx h).1, (hx h).2, (hx h').1, (hx h').2]
  exact ⟨hr _ _ alike, alike⟩

theorem observant_log (level : Level) (text : String) : Observant env (log level text) :=
  observant_look (r := fun _ => .ok ()) (fun _ => ⟨rfl, rfl⟩) fun _ _ _ => rfl

theorem observant_modify {f : Host → Host} (hf : ∀ h, (f h).files = h.files) :
    Observant env (modify f : Action Unit) :=
  observant_look (r := fun _ => .ok ()) (fun h => ⟨rfl, hf h⟩) fun _ _ _ => rfl

theorem observant_pathExists (p : Path) : Observant env (pathExists p) :=
  observant_look (r := fun t => .ok (t.pathExists env.cwd p)) (fun _ => ⟨rfl, rfl⟩)
    fun t u alike => by rw [alike.pathExists]

theorem observant_execAndCheck (henv : env.Observant) (c : Command) (dir : Option Path) :
    Observant env (execAndCheck c dir) := by
  intro h h' alike
  obtain ⟨hres, hfiles⟩ := henv _ _ ⟨c, dir⟩ alike
  rw [runOn_execAndCheck, runOn_execAndCheck, hres]
  exact ⟨rfl, hfiles⟩

theorem observant_ensureDir (p : Path) : Observant env (ensureDir p) := by
  apply observant_bind (observant_pathExists p)
  intro found
  cases found with
  | true => exact observant_pure ()
  | false =>
    apply observant_within
    intro h h' alike
    obtain ⟨hres, hfiles⟩ := alike.createDirs env.cwd p
    rw [runOn_changeWith, runOn_changeWith, hres]
    exact ⟨rfl, hfiles⟩

theorem observant_writeText (p : Path) (text : String) : Observant env (writeText p text) := by
  intro h h' alike
  obtain ⟨hres, hfiles⟩ := alike.writeUnless env.refuses env.cwd p text.toUTF8
  rw [runOn_writeText, runOn_writeText, hres]
  exact ⟨rfl, hfiles⟩

theorem observant_writeString (p : Path) (text : String) : Observant env (writeString p text) := by
  have hwrite : Observant env (within (.writingFile p) (writeText p text)) :=
    observant_within _ (observant_writeText p text)
  unfold writeString
  cases p.parent? with
  | none => exact observant_bind (observant_pure ()) fun _ => hwrite
  | some parent => exact observant_bind (observant_ensureDir parent) fun _ => hwrite

end Action

namespace BuildContext

variable {env : Environment}

theorem observant_save (cache : FingerprintCache) (p : Path) : Action.Observant env (cache.save p) :=
  Action.observant_within _ (Action.observant_writeString p cache.write)

theorem observant_prepareOutput (output : Path) : Action.Observant env (prepareOutput output) := by
  intro h h' alike
  obtain ⟨hres, hfiles⟩ := alike.prepare env.cwd output
  rw [runOn_prepareOutput, runOn_prepareOutput, hres]
  exact ⟨rfl, hfiles⟩

theorem linkInputs_alike {t u : FileTree} (h : FileTree.Alike t u) (cwd : Location) (s : LinkStep) :
    LinkInputs.ofStep t cwd s = LinkInputs.ofStep u cwd s := by
  have hadd : LinkInputs.addObject t cwd = LinkInputs.addObject u cwd := by
    funext objects o
    unfold LinkInputs.addObject
    rw [h.pathExists, h.readToDigest]
  rw [LinkInputs.ofStep, hadd, LinkInputs.ofStep]

theorem observant_linkFingerprint (s : LinkStep) : Action.Observant env (LinkFingerprint.ofStep s) :=
  Action.observant_look
    (r := fun t => (LinkInputs.ofStep t env.cwd s).map fun i => i.fingerprint s)
    (fun h => by rw [LinkFingerprint.runOn_ofStep]; exact ⟨rfl, rfl⟩)
    fun t u alike => by rw [linkInputs_alike alike]

theorem observant_needsLink (cache : FingerprintCache) (s : LinkStep) (f : LinkFingerprint) :
    Action.Observant env (cache.needsLink s.target s.output f) :=
  Action.observant_look
    (r := fun t => .ok (!cache.moduleFresh t env.cwd s.target s.output f))
    (fun h => by rw [FingerprintCache.runOn_needsLink]; exact ⟨rfl, rfl⟩)
    fun t u alike => by
      unfold FingerprintCache.moduleFresh
      rw [alike.pathExists]

theorem observant_link (henv : env.Observant) (c : BuildContext) (cache : FingerprintCache)
    (rebuilt : Bool) (s : LinkStep) : Action.Observant env (c.link cache rebuilt s) := by
  apply Action.observant_bind (observant_linkFingerprint s)
  intro fingerprint
  have hdone (stale : Bool) : Action.Observant env (do
      modify fun h => { h with progress := h.progress.addLinked }
      return ({ target := s.target, path := s.output, fresh := !stale },
        cache.recordLink s.target fingerprint) : Action (Artifact × FingerprintCache)) := by
    apply Action.observant_bind
    · apply Action.observant_modify
      intro h
      rfl
    · intro _
      exact Action.observant_pure _
  have hmade (stale : Bool) : Action.Observant env (do
      if stale then do
        prepareOutput s.output
        Action.log .debug ("linking " ++ s.output.text)
        let _ ← Action.within (.linking s.target) (Action.execAndCheck s.command (some c.root))
      else Action.log .debug ("fresh: " ++ s.output.text)
      modify fun h => { h with progress := h.progress.addLinked }
      return ({ target := s.target, path := s.output, fresh := !stale },
        cache.recordLink s.target fingerprint) : Action (Artifact × FingerprintCache)) := by
    cases stale with
    | false => exact Action.observant_bind (Action.observant_log _ _) fun _ => hdone false
    | true =>
      apply Action.observant_bind (observant_prepareOutput s.output)
      intro _
      apply Action.observant_bind (Action.observant_log _ _)
      intro _
      apply Action.observant_bind (Action.observant_within _ (Action.observant_execAndCheck henv _ _))
      intro _
      exact hdone true
  cases rebuilt with
  | true => exact Action.observant_bind (Action.observant_pure true) hmade
  | false => exact Action.observant_bind (observant_needsLink cache s fingerprint) hmade

theorem observant_linkAll (henv : env.Observant) (c : BuildContext) (rebuilt : List String)
    (cache : FingerprintCache) (ss : List LinkStep) : Action.Observant env (c.linkAll rebuilt cache ss) := by
  induction ss generalizing cache with
  | nil => exact Action.observant_pure _
  | cons s ss ih =>
    apply Action.observant_bind (Action.observant_attempt (observant_link henv c cache _ s))
    intro r
    cases r with
    | error e =>
      apply Action.observant_bind (observant_save cache c.fingerprintPath)
      intro _
      exact Action.observant_throw e
    | ok made =>
      obtain ⟨artifact, cache₁⟩ := made
      apply Action.observant_bind (ih cache₁)
      intro rest
      exact Action.observant_pure _

end BuildContext

end GrammarBuild
