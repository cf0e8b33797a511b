import GrammarBuild.Proofs.Locations

/-
  GrammarBuild/Proofs/Walks.lean
  ==============================
  **Walks and changes of files** — a walk ends where the path's components say
  (`resolve_ok`), a walk that succeeds still succeeds where directories and files were
  only added (`Keeps`), and each operation that writes changes the one location that its
  path spells (`writeFile_ok`, `createDir_ok`) or adds directories on the way to it
  (`createDirs_adds`).
-/

namespace GrammarBuild.FileTree

variable {t u v : FileTree} {cwd l l' : Location} {p : Path}

/-! ### Walks end where the path says -/

/-- A step that succeeds leads where its name says, from a directory to something that
    is there. -/
theorem stepFrom_ok {name : String} (h : t.stepFrom l name = .ok l') :
    l' = stepTo l name ∧ t.isDirAt l = true ∧
      (name ≠ "." → name ≠ ".." → name.utf8ByteSize ≤ nameLimit ∧ (t.node? l').isSome = true) := by
  unfold stepFrom at h
  unfold stepTo
  split at h
  · cases h
  rename_i hdir
  have hdir : t.isDirAt l = true := by simpa using hdir
  split at h
  · rename_i hd
    injection h with h
    subst h
    exact ⟨by simp [hd], hdir, fun hne => absurd hd hne⟩
  rename_i hd
  split at h
  · rename_i hu
    injection h with h
    subst h
    exact ⟨by simp [hu], hdir, fun _ hne => absurd hu hne⟩
  rename_i hu
  split at h
  · cases h
  rename_i hlim
  split at h
  · rename_i n hn
    injection h with h
    subst h
    exact ⟨by simp [hd, hu], hdir, fun _ _ => ⟨by omega, by simp [hn]⟩⟩
  · cases h

/-- A step can be made from a directory to anything that is there. -/
theorem stepFrom_of_node {name : String} (hdir : t.isDirAt l = true)
    (h : name ≠ "." → name ≠ ".." →
      name.utf8ByteSize ≤ nameLimit ∧ (t.node? (stepTo l name)).isSome = true) :
    t.stepFrom l name = .ok (stepTo l name) := by
  unfold stepFrom
  rw [hdir]
  simp only [Bool.not_true, Bool.false_eq_true, if_false]
  split
  · rename_i hd
    simp [stepTo, hd]
  rename_i hd
  split
  · rename_i hu
    simp [stepTo, hu]
  rename_i hu
  obtain ⟨hlim, hn⟩ := h hd hu
  have hto : stepTo l name = l ++ [name] := by simp [stepTo, hd, hu]
  rw [hto] at hn ⊢
  rw [if_neg (by omega)]
  split
  · rfl
  · rename_i hnone
    simp [hnone] at hn

theorem walk_nil (t : FileTree) (l : Location) : t.walk l [] = .ok l := by
  rw [walk_eq_foldlM]
  rfl

theorem walk_cons (t : FileTree) (l : Location) (name : String) (steps : List String) :
    t.walk l (name :: steps) =
      match t.stepFrom l name with
      | .ok l' => t.walk l' steps
      | .error f => .error f := by
  rw [walk_eq_foldlM, List.foldlM_cons]
  cases h : t.stepFrom l name with
  | ok l' =>
    simp only [walk_eq_foldlM]
    rfl
  | error f => rfl

theorem walk_append (t : FileTree) (l : Location) (a b : List String) :
    t.walk l (a ++ b) =
      match t.walk l a with
      | .ok l' => t.walk l' b
      | .error f => .error f := by
  induction a generalizing l with
  | nil => simp [walk_nil]
  | cons name a ih =>
    simp only [List.cons_append, walk_cons]
    cases t.stepFrom l name with
    | ok l' => exact ih l'
    | error f => rfl

theorem walk_ok {steps : List String} (h : t.walk l steps = .ok l') : l' = steps.foldl stepTo l := by
  induction steps generalizing l with
  | nil =>
    rw [walk_nil] at h
    injection h with h
    exact h.symm
  | cons name steps ih =>
    rw [walk_cons] at h
    cases hs : t.stepFrom l name with
    | ok m =>
      rw [hs] at h
      rw [List.foldl_cons, ← (stepFrom_ok hs).1]
      exact ih h
    | error f =>
      rw [hs] at h
      cases h

/-- A path that leads anywhere leads to the location that it spells. -/
theorem resolve_ok (h : t.resolve cwd p = .ok l) : l = p.locate cwd := by
  unfold resolve at h
  cases hc : checkText p with
  | error f =>
    rw [hc] at h
    cases h
  | ok _ =>
    rw [hc] at h
    have hw : t.walk (startOf cwd p) (stepsOf p ++ if endsInSlash p then ["."] else []) = .ok l := h
    have hl := walk_ok hw
    rw [List.foldl_append, foldl_stepTo] at hl
    rw [hl]
    split
    · simp [stepTo]
    · rfl

theorem at?_some {n : Node} (h : t.at? cwd p = some n) : t.node? (p.locate cwd) = some n := by
  unfold at? at h
  cases hr : t.resolve cwd p with
  | ok l =>
    rw [hr] at h
    rw [← resolve_ok hr]
    exact h
  | error f =>
    rw [hr] at h
    cases h

theorem node?_of_pathExists (h : t.pathExists cwd p = true) :
    (t.node? (p.locate cwd)).isSome = true := by
  obtain ⟨n, hn⟩ := Option.isSome_iff_exists.1 h
  simp [at?_some hn]

theorem openRead_ok {n : Node} (h : t.openRead cwd p = .ok n) : t.node? (p.locate cwd) = some n := by
  unfold openRead at h
  cases hr : t.resolve cwd p with
  | ok l =>
    rw [hr] at h
    rw [← resolve_ok hr]
    cases hn : t.node? l with
    | some m =>
      simp only [hn, Except.ok.injEq] at h
      rw [h]
    | none =>
      simp only [hn] at h
      cases h
  | error f =>
    rw [hr] at h
    cases h

/-! ### Trees in which nothing was lost -/

/-- Every directory of `t` is one of `u`, and what is there in `t` is there in `u`. -/
structure Keeps (t u : FileTree) : Prop where
  dirs : ∀ l, t.isDirAt l = true → u.isDirAt l = true
  nodes : ∀ l, (t.node? l).isSome = true → (u.node? l).isSome = true

theorem Keeps.stepFrom {name : String} (k : Keeps t u) (h : t.stepFrom l name = .ok l') :
    u.stepFrom l name = .ok l' := by
  obtain ⟨rfl, hdir, hn⟩ := stepFrom_ok h
  exact stepFrom_of_node (k.dirs l hdir) fun hd hu => ⟨(hn hd hu).1, k.nodes _ (hn hd hu).2⟩

theorem Keeps.walk {steps : List String} (k : Keeps t u) (h : t.walk l steps = .ok l') :
    u.walk l steps = .ok l' := by
  induction steps generalizing l with
  | nil => rwa [walk_nil] at h ⊢
  | cons name steps ih =>
    rw [walk_cons] at h ⊢
    cases hs : t.stepFrom l name with
    | ok m =>
      rw [hs] at h
      rw [k.stepFrom hs]
      exact ih h
    | error f =>
      rw [hs] at h
      cases h

theorem Keeps.trans (a : Keeps t u) (b : Keeps u v) : Keeps t v :=
  ⟨fun l h => b.dirs l (a.dirs l h), fun l h => b.nodes l (a.nodes l h)⟩

theorem Keeps.refl (t : FileTree) : Keeps t t := ⟨fun _ h => h, fun _ h => h⟩

/-! ### What is found -/

theorem resolve_of_pathExists (found : t.pathExists cwd p = true) :
    t.resolve cwd p = .ok (p.locate cwd) := by
  unfold pathExists at? at found
  cases hr : t.resolve cwd p with
  | error f => simp [hr] at found
  | ok l => rw [resolve_ok hr]

theorem Keeps.resolve (k : Keeps t u) (h : t.resolve cwd p = .ok l) : u.resolve cwd p = .ok l := by
  unfold FileTree.resolve at h ⊢
  cases hc : checkText p with
  | error f =>
    rw [hc] at h
    cases h
  | ok _ =>
    rw [hc] at h
    exact k.walk h

/-- What is found is found again where nothing was lost. -/
theorem Keeps.pathExists (k : Keeps t u) (found : t.pathExists cwd p = true) :
    u.pathExists cwd p = true := by
  have hu := k.resolve (resolve_of_pathExists found)
  unfold FileTree.pathExists at?
  rw [hu]
  exact k.nodes _ (node?_of_pathExists found)

theorem pathExists_of_readFile {bytes : ByteArray} (h : t.readFile cwd p = .ok bytes) :
    t.pathExists cwd p = true := by
  unfold readFile openRead at h
  unfold FileTree.pathExists at?
  cases hr : t.resolve cwd p with
  | error f =>
    rw [hr] at h
    cases h
  | ok l =>
    rw [hr] at h
    cases hn : t.node? l with
    | none =>
      simp only [hn] at h
      cases h
    | some n => simp [hn]

/-- What is found by a path is read alike in two trees that have the same there. -/
theorem openRead_of_found (found : t.pathExists cwd p = true) (found' : u.pathExists cwd p = true)
    (same : u.node? (p.locate cwd) = t.node? (p.locate cwd)) :
    u.openRead cwd p = t.openRead cwd p := by
  unfold openRead
  rw [resolve_of_pathExists found, resolve_of_pathExists found']
  simp only [same]

/-! ### The place of a new file or directory -/

theorem parentOf_ok {last : Option String} (h : t.parentOf cwd p = .ok (l, last)) :
    checkText p = .ok () ∧ t.walk (startOf cwd p) (stepsOf p).dropLast = .ok l ∧
      t.isDirAt l = true ∧ last = (stepsOf p).getLast? := by
  unfold parentOf at h
  cases hc : checkText p with
  | error f =>
    rw [hc] at h
    cases h
  | ok _ =>
    rw [hc] at h
    cases hw : t.walk (startOf cwd p) (stepsOf p).dropLast with
    | error f =>
      simp only [hw, bind, Except.bind] at h
      cases h
    | ok m =>
      simp only [hw, bind, Except.bind] at h
      cases hd : t.isDirAt m with
      | false =>
        simp only [hd] at h
        cases h
      | true =>
        simp only [hd, Bool.not_true, Bool.false_eq_true, if_false] at h
        injection h with h
        injection h with h1 h2
        subst h1
        exact ⟨rfl, rfl, hd, h2.symm⟩

/-- The last name of a path leads from its parent's location to its own. -/
theorem locate_of_parentOf {name : String} (h : t.parentOf cwd p = .ok (l, some name))
    (hdots : isDots name = false) : l ++ [name] = p.locate cwd := by
  obtain ⟨-, hw, -, hlast⟩ := parentOf_ok h
  obtain ⟨front, hfront⟩ := List.getLast?_eq_some_iff.1 hlast.symm
  have hl := walk_ok hw
  simp only [isDots, Bool.or_eq_false_iff, beq_eq_false_iff_ne] at hdots
  rw [← foldl_stepTo, hfront, List.foldl_append, List.foldl_cons, List.foldl_nil]
  rw [hfront, List.dropLast_concat] at hl
  rw [← hl]
  simp [stepTo, hdots.1, hdots.2]

theorem placeToWrite_ok (h : t.placeToWrite cwd p = .ok l) :
    ∃ m name, t.parentOf cwd p = .ok (m, some name) ∧ l = m ++ [name] ∧ endsInSlash p = false ∧
      isDots name = false ∧ name.utf8ByteSize ≤ nameLimit ∧ t.isDirAt l = false := by
  unfold placeToWrite at h
  cases hp : t.parentOf cwd p with
  | error f =>
    rw [hp] at h
    cases h
  | ok r =>
    obtain ⟨m, last⟩ := r
    rw [hp] at h
    cases last with
    | none => cases h
    | some name =>
      simp only [bind, Except.bind] at h
      split at h
      · cases h
      rename_i hend
      simp only [pure, Except.pure] at h
      split at h
      · cases h
      rename_i hlim
      split at h
      · cases h
      rename_i hdir
      injection h with h
      simp only [Bool.or_eq_true, not_or, Bool.not_eq_true] at hend
      subst h
      exact ⟨m, name, rfl, rfl, hend.1, hend.2, by omega, by simpa using hdir⟩

/-- A place is found where the walk to the directory can be made. -/
theorem placeToWrite_of_walk {name : String} (text : checkText p = .ok ())
    (walk : t.walk (startOf cwd p) (stepsOf p).dropLast = .ok l) (dir : t.isDirAt l = true)
    (last : (stepsOf p).getLast? = some name) (noSlash : endsInSlash p = false)
    (noDots : isDots name = false) (short : name.utf8ByteSize ≤ nameLimit)
    (free : t.isDirAt (l ++ [name]) = false) : t.placeToWrite cwd p = .ok (l ++ [name]) := by
  have hparent : t.parentOf cwd p = .ok (l, some name) := by
    simp only [parentOf, text, bind, Except.bind, walk, dir, last]
    rfl
  simp only [placeToWrite, hparent, bind, Except.bind, noSlash, noDots, free, Bool.or_self,
    Bool.false_eq_true, if_false, if_neg (Nat.not_lt.2 short)]
  rfl

theorem locate_of_placeToWrite (h : t.placeToWrite cwd p = .ok l) : l = p.locate cwd := by
  obtain ⟨m, name, hparent, rfl, -, hdots, -, -⟩ := placeToWrite_ok h
  exact locate_of_parentOf hparent hdots

/-- A place for a file stays one as long as no directory is made there. -/
theorem Keeps.placeToWrite (k : Keeps t u) (h : t.placeToWrite cwd p = .ok l)
    (free : u.isDirAt l = false) : u.placeToWrite cwd p = .ok l := by
  obtain ⟨m, name, hparent, rfl, hslash, hdots, hlim, -⟩ := placeToWrite_ok h
  obtain ⟨hc, hw, hm, hlast⟩ := parentOf_ok hparent
  exact placeToWrite_of_walk hc (k.walk hw) (k.dirs m hm) hlast.symm hslash hdots hlim free

/-- A file that is written is the file at the path's location, and what was no file
    there was nothing. -/
theorem writeFile_ok {bytes : ByteArray} (h : t.writeFile cwd p bytes = .ok u) :
    u = t.writeAt (p.locate cwd) bytes ∧ p.locate cwd ≠ [] ∧ t.isDirAt (p.locate cwd) = false := by
  unfold writeFile at h
  cases hp : t.placeToWrite cwd p with
  | error f =>
    rw [hp] at h
    cases h
  | ok l =>
    rw [hp] at h
    injection h with h
    obtain ⟨m, name, hparent, rfl, -, hdots, -, hdir⟩ := placeToWrite_ok hp
    rw [locate_of_parentOf hparent hdots] at h hdir
    refine ⟨h.symm, ?_, hdir⟩
    rw [← locate_of_parentOf hparent hdots]
    simp

theorem isExecutable_file (bytes : ByteArray) (x : Bool) : (Node.file bytes x).isExecutable = x := by
  cases x <;> rfl

theorem node?_writeAt (t : FileTree) (l l' : Location) (bytes : ByteArray) :
    (t.writeAt l bytes).node? l' =
      if l' ≠ [] ∧ l' = l then some (.file bytes ((t.node? l).map Node.isExecutable |>.getD false))
      else t.node? l' := node?_set t l l' _

/-- Writing where no directory is loses nothing. -/
theorem keeps_writeAt {bytes : ByteArray} (h : t.isDirAt l = false) : Keeps t (t.writeAt l bytes) where
  dirs l' hd := by
    by_cases hl : l' ≠ [] ∧ l' = l
    · rw [hl.2, h] at hd
      cases hd
    · unfold isDirAt at hd ⊢
      rwa [node?_writeAt, if_neg hl]
  nodes l' hn := by
    rw [node?_writeAt]
    split
    · rfl
    · exact hn

/-- A file that was written is found by the path that it was written by. -/
theorem resolve_of_writeFile {bytes : ByteArray} (h : t.writeFile cwd p bytes = .ok u) :
    u.resolve cwd p = .ok (p.locate cwd) := by
  obtain ⟨hu, hne, hdir⟩ := writeFile_ok h
  unfold writeFile at h
  cases hp : t.placeToWrite cwd p with
  | error f =>
    rw [hp] at h
    cases h
  | ok l =>
    obtain ⟨m, name, hparent, rfl, hslash, hdots, hlim, -⟩ := placeToWrite_ok hp
    have hloc := locate_of_parentOf hparent hdots
    obtain ⟨hc, hw, hm, hlast⟩ := parentOf_ok hparent
    obtain ⟨front, hfront⟩ := List.getLast?_eq_some_iff.1 hlast.symm
    rw [hfront, List.dropLast_concat] at hw
    have hk : Keeps t u := hu ▸ keeps_writeAt hdir
    have hto : stepTo m name = m ++ [name] := by
      simp only [isDots, Bool.or_eq_false_iff, beq_eq_false_iff_ne] at hdots
      simp [stepTo, hdots.1, hdots.2]
    have hstep : u.stepFrom m name = .ok (m ++ [name]) := by
      rw [← hto]
      refine stepFrom_of_node (hk.dirs m hm) fun _ _ => ⟨hlim, ?_⟩
      rw [hto, hloc, hu, node?_writeAt, if_pos ⟨hne, rfl⟩]
      rfl
    unfold resolve
    rw [hc, hslash, hfront]
    show u.walk (startOf cwd p) (front ++ [name] ++ []) = _
    rw [List.append_nil, walk_append, hk.walk hw]
    simp only [walk_cons, hstep, walk_nil, hloc]

theorem node?_of_writeFile {bytes : ByteArray} (h : t.writeFile cwd p bytes = .ok u) :
    u.node? (p.locate cwd) =
      some (.file bytes ((t.node? (p.locate cwd)).map Node.isExecutable |>.getD false)) := by
  obtain ⟨hu, hne, -⟩ := writeFile_ok h
  rw [hu, node?_writeAt, if_pos ⟨hne, rfl⟩]

theorem readFile_of_writeFile {bytes : ByteArray} (h : t.writeFile cwd p bytes = .ok u) :
    u.readFile cwd p = .ok bytes := by
  simp only [readFile, openRead, resolve_of_writeFile h, node?_of_writeFile h]
  rfl

theorem fromUTF8?_toUTF8 (s : String) : String.fromUTF8? s.toUTF8 = some s :=
  dif_pos s.isValidUTF8

theorem eq_toUTF8_of_fromUTF8? {bytes : ByteArray} {s : String} (h : String.fromUTF8? bytes = some s) :
    bytes = s.toUTF8 := by
  unfold String.fromUTF8? at h
  split at h
  · injection h with h
    subst h
    rfl
  · cases h

/-- A file that holds a text is read as that text. -/
theorem readText_of_readFile {text : String} (h : t.readFile cwd p = .ok text.toUTF8) :
    t.readText cwd p = .ok text := by
  simp only [readText, h, bind, Except.bind, fromUTF8?_toUTF8]
  rfl

/-- A text that was written is read again under the same path. -/
theorem readText_of_writeFile {text : String} (h : t.writeFile cwd p text.toUTF8 = .ok u) :
    u.readText cwd p = .ok text :=
  readText_of_readFile (readFile_of_writeFile h)

/-! ### Directories that are made -/

/-- `u` is `t` with directories added at some of the locations `S`, where nothing was. -/
def AddsDirs (S : List Location) (t u : FileTree) : Prop :=
  ∀ l, u.node? l = t.node? l ∨ (l ∈ S ∧ t.node? l = none ∧ u.node? l = some .dir)

theorem AddsDirs.refl (S : List Location) (t : FileTree) : AddsDirs S t t := fun _ => .inl rfl

theorem AddsDirs.trans {S : List Location} (a : AddsDirs S t u) (b : AddsDirs S u v) :
    AddsDirs S t v := by
  intro l
  rcases a l with ha | ⟨hS, hnone, hdir⟩
  · rcases b l with hb | ⟨hS, hnone, hdir⟩
    · exact .inl (hb.trans ha)
    · exact .inr ⟨hS, ha ▸ hnone, hdir⟩
  · rcases b l with hb | ⟨_, hnone', _⟩
    · exact .inr ⟨hS, hnone, hb.trans hdir⟩
    · rw [hdir] at hnone'
      cases hnone'

theorem AddsDirs.mono {S T : List Location} (a : AddsDirs S t u) (h : S ⊆ T) : AddsDirs T t u :=
  fun l => (a l).imp_right fun ⟨hS, hr⟩ => ⟨h hS, hr⟩

/-- What was there is as it was. -/
theorem AddsDirs.node?_eq {S : List Location} (a : AddsDirs S t u) (h : (t.node? l).isSome = true) :
    u.node? l = t.node? l := by
  rcases a l with ha | ⟨-, hnone, -⟩
  · exact ha
  · simp [hnone] at h

theorem AddsDirs.node?_none {S : List Location} (a : AddsDirs S t u)
    (h : u.node? l = none) : t.node? l = none := by
  rcases a l with ha | ⟨-, hnone, -⟩
  · rw [← ha, h]
  · exact hnone

/-- A file is there afterwards exactly if it was there before. -/
theorem AddsDirs.file_iff {S : List Location} (a : AddsDirs S t u) {bytes : ByteArray} {x : Bool} :
    u.node? l = some (.file bytes x) ↔ t.node? l = some (.file bytes x) := by
  rcases a l with ha | ⟨-, hnone, hdir⟩
  · rw [ha]
  · simp [hnone, hdir]

theorem AddsDirs.keeps {S : List Location} (a : AddsDirs S t u) : Keeps t u where
  dirs l hd := by
    have hn : (t.node? l).isSome = true := by
      unfold isDirAt at hd
      cases h : t.node? l with
      | some n => rfl
      | none => simp [h] at hd
    unfold isDirAt at hd ⊢
    rwa [a.node?_eq hn]
  nodes l hn := by rwa [a.node?_eq hn]

theorem createDir_ok (h : t.createDir cwd p = .ok u) :
    u = t.set (p.locate cwd) .dir ∧ t.node? (p.locate cwd) = none := by
  unfold createDir at h
  cases hp : t.parentOf cwd p with
  | error f =>
    rw [hp] at h
    cases h
  | ok r =>
    obtain ⟨m, last⟩ := r
    rw [hp] at h
    cases last with
    | none => cases h
    | some name =>
      simp only [bind, Except.bind] at h
      split at h
      · cases h
      rename_i hdots
      simp only [pure, Except.pure] at h
      split at h
      · cases h
      split at h
      · cases h
      rename_i hnone
      injection h with h
      have hloc := locate_of_parentOf hp (by simpa using hdots)
      rw [← hloc]
      exact ⟨h.symm, by simpa using hnone⟩

theorem addsDirs_set_dir (h : t.node? l = none) : AddsDirs [l] t (t.set l .dir) := by
  intro l'
  rw [node?_set]
  split
  · rename_i hl
    rw [hl.2]
    exact .inr ⟨List.mem_singleton.2 rfl, h, rfl⟩
  · exact .inl rfl

theorem pathExists_of_isFile (h : t.isFile cwd p = true) : t.pathExists cwd p = true := by
  unfold isFile at h
  unfold pathExists
  cases ha : t.at? cwd p with
  | none => simp [ha] at h
  | some n => rfl

theorem createDir_adds (h : t.createDir cwd p = .ok u) : AddsDirs (p.way cwd) t u := by
  obtain ⟨rfl, hnone⟩ := createDir_ok h
  refine (addsDirs_set_dir hnone).mono fun l hl => ?_
  rw [List.mem_singleton.1 hl]
  exact p.locate_mem_way cwd

theorem createLast_adds (t : FileTree) (cwd : Location) (p : Path) :
    AddsDirs (p.way cwd) t (t.createLast cwd p).2 := by
  unfold createLast
  split
  · rename_i u hu
    exact createDir_adds hu
  · split
    · exact .refl _ t
    · exact .refl _ t

/-- Making a directory with its parents only adds directories on the way to it, also
    where it fails half done. -/
theorem createDirs_adds (t : FileTree) (cwd : Location) (p : Path) :
    AddsDirs (p.way cwd) t (t.createDirs cwd p).2 := by
  fun_induction createDirs t cwd p with
  | case1 => exact .refl _ _
  | case2 p _ u hu => exact createDir_adds hu
  | case3 => exact .refl _ _
  | case4 p _ _ parent hparent u hu ih =>
    have hway : parent.way cwd ⊆ p.way cwd := by
      rw [p.way_parent? hparent]
      exact p.dirWay_subset_way cwd
    rw [hu] at ih
    exact (ih.mono hway).trans (createLast_adds u cwd p)
  | case5 p _ _ parent hparent _ ih =>
    have hway : parent.way cwd ⊆ p.way cwd := by
      rw [p.way_parent? hparent]
      exact p.dirWay_subset_way cwd
    exact ih.mono hway
  | case6 => exact .refl _ _
  | case7 => exact .refl _ _

end GrammarBuild.FileTree
