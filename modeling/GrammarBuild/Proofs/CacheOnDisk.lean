import GrammarBuild.Proofs.CutTexts
import GrammarBuild.Proofs.RefusedWrites

/-
  GrammarBuild/Proofs/CacheOnDisk.lean
  ====================================
  **Loading and saving the fingerprint cache** — loading never fails and changes
  nothing; it gives what the file spells (`runOn_load`).  Saving starts nothing; if it
  succeeds, the next load gives the cache that was saved (`Saves.runOn_load`), and apart
  from the file only directories on the way to it were made (`saves_of_runOn`).  A file
  of which only a part was written spells no cache (`ofBytes_part`).
-/

namespace GrammarBuild

namespace Host

/-- `h'` is `h` with nothing changed but what was told, no start of a process among it. -/
structure OnlyTold (h h' : Host) : Prop where
  files : h'.files = h.files
  started : h'.started = h.started

@[simp]
theorem started_log (h : Host) (level : Level) (text : String) :
    ({ h with events := h.events ++ [.log level text] } : Host).started = h.started := by
  simp [started]

@[simp]
theorem started_start (h : Host) (t : FileTree) (i : Invocation) :
    ({ h with events := h.events ++ [.started i], files := t } : Host).started =
      h.started ++ [i] := by
  simp [started]

@[simp]
theorem started_files (h : Host) (t : FileTree) : ({ h with files := t } : Host).started = h.started :=
  rfl

@[simp]
theorem started_progress (h : Host) (p : Progress) :
    ({ h with progress := p } : Host).started = h.started := rfl

/-- The files of a host are those by which it is defined. -/
theorem files_of_eq {h : Host} {t : FileTree} (defined : h = { files := t }) : h.files = t := by
  rw [defined]

end Host

namespace FingerprintCache

/-! ### Loading -/

/-- The cache that some bytes spell; an empty one if they spell none. -/
def ofBytes (bytes : ByteArray) : FingerprintCache :=
  ((String.fromUTF8? bytes).bind read?).getD {}

/-- The cache that is kept at a location. -/
def keptAt (t : FileTree) (l : Location) : FingerprintCache :=
  match t.node? l with
  | some (.file bytes _) => ofBytes bytes
  | _ => {}

theorem keptAt_congr {t u : FileTree} {l : Location} (h : t.node? l = u.node? l) :
    keptAt t l = keptAt u l := by
  rw [keptAt, keptAt, h]

/-- The cache that is found under a path. -/
def ofFile (t : FileTree) (cwd : Location) (p : Path) : FingerprintCache :=
  match t.readFile cwd p with
  | .ok bytes => ofBytes bytes
  | .error _ => {}

/-- Loading gives the cache under the path and changes nothing. -/
theorem runOn_load (p : Path) (env : Environment) (h : Host) :
    ∃ h', (load p).runOn env h = (.ok (ofFile h.files env.cwd p), h') ∧ h.OnlyTold h' := by
  have hwarn (reason : String) : h.OnlyTold
      { h with
        events := h.events ++ [.log .warn ("ignoring fingerprint cache " ++ p.text ++ ": " ++ reason)] } :=
    ⟨rfl, Host.started_log h _ _⟩
  simp only [load, Action.runOn_bind, Action.runOn_pathExists, Action.runOn_ite, Action.runOn_pure,
    Action.runOn_attempt, Action.runOn_readText]
  cases hr : h.files.readFile env.cwd p with
  | error f =>
    have hof : ofFile h.files env.cwd p = {} := by simp [ofFile, hr]
    have ht : h.files.readText env.cwd p = .error f := by
      simp only [FileTree.readText, hr]
      rfl
    rw [hof, ht]
    split
    · exact ⟨h, rfl, rfl, rfl⟩
    · exact ⟨_, rfl, hwarn _⟩
  | ok bytes =>
    have hp := FileTree.pathExists_of_readFile hr
    have hof : ofFile h.files env.cwd p = ofBytes bytes := by simp [ofFile, hr]
    rw [hof, hp]
    cases hu : String.fromUTF8? bytes with
    | none =>
      have ht : h.files.readText env.cwd p = .error .notText := by
        simp only [FileTree.readText, hr, bind, Except.bind, hu]
        rfl
      have hb : ofBytes bytes = {} := by simp [ofBytes, hu]
      rw [ht, hb]
      exact ⟨_, rfl, hwarn _⟩
    | some text =>
      have ht : h.files.readText env.cwd p = .ok text := by
        simp only [FileTree.readText, hr, bind, Except.bind, hu]
        rfl
      have hlift : Failure.lift .host (h.files.readText env.cwd p) = .ok text := by
        rw [ht]
        rfl
      rw [hlift]
      cases hread : read? text with
      | none =>
        have hb : ofBytes bytes = {} := by simp [ofBytes, hu, hread]
        rw [hb]
        simp only [Bool.not_true, Bool.false_eq_true, if_false, hread]
        exact ⟨_, rfl, hwarn _⟩
      | some c =>
        have hb : ofBytes bytes = c := by simp [ofBytes, hu, hread]
        rw [hb]
        simp only [Bool.not_true, Bool.false_eq_true, if_false, hread]
        exact ⟨h, rfl, rfl, rfl⟩

/-- What is found under a path is what is kept at its location, or nothing. -/
theorem ofFile_eq_keptAt_or_empty (t : FileTree) (cwd : Location) (p : Path) :
    ofFile t cwd p = keptAt t (p.locate cwd) ∨ ofFile t cwd p = {} := by
  unfold ofFile keptAt FileTree.readFile
  cases ho : t.openRead cwd p with
  | error f => exact .inr rfl
  | ok n =>
    rw [FileTree.openRead_ok ho]
    cases n with
    | dir => exact .inr rfl
    | file bytes x => exact .inl rfl

/-! ### Saving -/

/-- The bytes of a written cache spell it. -/
theorem ofBytes_write (c : FingerprintCache) : ofBytes c.write.toUTF8 = c := by
  rw [ofBytes, FileTree.fromUTF8?_toUTF8, Option.bind_some, read?_write, Option.getD_some]

/-- A part of the bytes of a cache spells none, unless it is all of them. -/
theorem ofBytes_part (c : FingerprintCache) (n : Nat) :
    ofBytes (c.write.toUTF8.extract 0 n) = c ∨ ofBytes (c.write.toUTF8.extract 0 n) = {} := by
  by_cases hn : n < c.write.toUTF8.size
  · right
    unfold ofBytes
    cases hu : String.fromUTF8? (c.write.toUTF8.extract 0 n) with
    | none => rfl
    | some cut => rw [Option.bind_some, read?_write_cut c hn hu, Option.getD_none]
  · left
    have hall : c.write.toUTF8.extract 0 n = c.write.toUTF8 := by
      have hmax := ByteArray.extract_zero_max_size (a := c.write.toUTF8) (i := n)
      rwa [Nat.max_eq_left (Nat.le_of_not_lt hn)] at hmax
    rw [hall, ofBytes_write]

/-- What saving a cache under a path can come to. -/
inductive Saves (cwd : Location) (p : Path) (c : FingerprintCache) (t : FileTree) :
    Except Failure Unit → FileTree → Prop where
  /-- Some directories were made, and then the file was written. -/
  | written {t₁ : FileTree} (dirs : FileTree.AddsDirs (p.dirWay cwd) t t₁)
      {t₂ : FileTree} (file : t₁.writeFile cwd p c.write.toUTF8 = .ok t₂) : Saves cwd p c t (.ok ()) t₂
  /-- Some directories were made, the file was not. -/
  | refused {t₁ : FileTree} (dirs : FileTree.AddsDirs (p.dirWay cwd) t t₁) (e : Failure) :
      Saves cwd p c t (.error (e.inside (.savingFingerprints p))) t₁
  /-- Some directories were made, and then a part of the file was written. -/
  | part {t₁ : FileTree} (dirs : FileTree.AddsDirs (p.dirWay cwd) t t₁) (n : Nat) {t₂ : FileTree}
      (file : t₁.writeFile cwd p (c.write.toUTF8.extract 0 n) = .ok t₂) (e : Failure) :
      Saves cwd p c t (.error (e.inside (.savingFingerprints p))) t₂

/-- Saving starts nothing. -/
theorem saves_of_runOn (c : FingerprintCache) (p : Path) (env : Environment) (h : Host) :
    Saves env.cwd p c h.files ((c.save p).runOn env h).1 ((c.save p).runOn env h).2.files ∧
      ((c.save p).runOn env h).2.started = h.started := by
  have hwrite (h₁ : Host) (hd : FileTree.AddsDirs (p.dirWay env.cwd) h.files h₁.files)
      (hs : h₁.started = h.started) :
      let x : Action Unit := Action.within (.writingFile p) (Action.writeText p c.write)
      Saves env.cwd p c h.files (Failure.within (.savingFingerprints p) (x.runOn env h₁).1)
        (x.runOn env h₁).2.files ∧ (x.runOn env h₁).2.started = h.started := by
    intro x
    rw [Action.runOn_within, Action.runOn_writeText]
    refine ⟨?_, hs⟩
    rcases hw : h₁.files.writeUnless env.refuses env.cwd p c.write.toUTF8 with ⟨r, t₂⟩
    cases r with
    | ok _ => exact .written hd (FileTree.writeUnless_ok_iff.1 hw).1
    | error f =>
      rcases FileTree.writeUnless_error hw with ⟨-, rfl⟩ | ⟨r, -, -, file, rfl⟩
      · exact .refused hd _
      · have place := FileTree.place_of_writeFile file
        cases r.taken with
        | none => exact .refused hd _
        | some n => exact .part hd n (FileTree.writeFile_of_place place _) _
  rw [save, Action.runOn_within, Action.writeString]
  cases hp : p.parent? with
  | none => exact hwrite h (.refl _ _) rfl
  | some q =>
    simp only [Action.runOn_bind]
    have hadd := Action.ensureDir_adds env h q
    rw [Path.way_parent? hp] at hadd
    rcases he : (Action.ensureDir q).runOn env h with ⟨r, h₁⟩
    rw [he] at hadd
    cases r with
    | ok _ => exact hwrite h₁ hadd.1 hadd.2
    | error e => exact ⟨.refused hadd.1 e, hadd.2⟩

/-- Saving makes directories, and then the file is written at most, be it in part. -/
theorem Saves.dirs_or_file {cwd : Location} {p : Path} {c : FingerprintCache} {t u : FileTree}
    {r : Except Failure Unit} (s : Saves cwd p c t r u) :
    FileTree.AddsDirs (p.dirWay cwd) t u ∨
      ∃ t₁ bytes, FileTree.AddsDirs (p.dirWay cwd) t t₁ ∧ t₁.writeFile cwd p bytes = .ok u := by
  cases s with
  | written dirs file => exact .inr ⟨_, _, dirs, file⟩
  | refused dirs => exact .inl dirs
  | part dirs n file => exact .inr ⟨_, _, dirs, file⟩

theorem Saves.error_cases {cwd : Location} {p : Path} {c : FingerprintCache} {t u : FileTree}
    {e : Failure} (s : Saves cwd p c t (.error e) u) : e.during.head? = some (.savingFingerprints p) := by
  cases s with
  | refused => rfl
  | part => rfl

theorem Saves.ok_cases {cwd : Location} {p : Path} {c : FingerprintCache} {t u : FileTree}
    (s : Saves cwd p c t (.ok ()) u) :
    ∃ t₁, FileTree.AddsDirs (p.dirWay cwd) t t₁ ∧ t₁.writeFile cwd p c.write.toUTF8 = .ok u := by
  cases s with
  | written dirs file => exact ⟨_, dirs, file⟩

/-- After a cache was saved, it is what is kept. -/
theorem Saves.keptAt_eq {cwd : Location} {p : Path} {c : FingerprintCache} {t u : FileTree}
    (s : Saves cwd p c t (.ok ()) u) : keptAt u (p.locate cwd) = c := by
  obtain ⟨t₁, -, hw⟩ := s.ok_cases
  rw [keptAt, FileTree.node?_of_writeFile hw]
  exact ofBytes_write c

theorem Saves.readFile_eq {cwd : Location} {p : Path} {c : FingerprintCache} {t u : FileTree}
    (s : Saves cwd p c t (.ok ()) u) : u.readFile cwd p = .ok c.write.toUTF8 := by
  obtain ⟨t₁, -, hw⟩ := s.ok_cases
  exact FileTree.readFile_of_writeFile hw

/-- Where the bytes of a cache are read, loading gives it and tells nothing. -/
theorem runOn_load_of_readFile {env : Environment} {h : Host} {p : Path} {c : FingerprintCache}
    (read : h.files.readFile env.cwd p = .ok c.write.toUTF8) :
    (load p).runOn env h = (.ok c, h) := by
  have htext : Failure.lift .host (h.files.readText env.cwd p) = .ok c.write := by
    rw [FileTree.readText_of_readFile read]
    rfl
  simp only [load, Action.runOn_bind, Action.runOn_pathExists, Action.runOn_pure, Action.runOn_attempt,
    Action.runOn_readText, FileTree.pathExists_of_readFile read, htext, Bool.not_true,
    Bool.false_eq_true, if_false, read?_write]

/-- After a cache was saved, the next load gives it and tells nothing. -/
theorem Saves.runOn_load {env : Environment} {h : Host} {p : Path} {c : FingerprintCache}
    {t : FileTree} (s : Saves env.cwd p c t (.ok ()) h.files) :
    (load p).runOn env h = (.ok c, h) :=
  runOn_load_of_readFile s.readFile_eq

/-- Saving leaves every location alone that is neither the file's nor on the way to it. -/
theorem Saves.node?_eq {cwd : Location} {p : Path} {c : FingerprintCache} {t u : FileTree}
    {r : Except Failure Unit} (s : Saves cwd p c t r u) {l : Location} (hl : l ∉ p.way cwd) :
    u.node? l = t.node? l := by
  have hdir {t₁ : FileTree} (dirs : FileTree.AddsDirs (p.dirWay cwd) t t₁) :
      t₁.node? l = t.node? l := by
    rcases dirs l with h | ⟨hmem, -⟩
    · exact h
    · exact absurd (p.dirWay_subset_way cwd hmem) hl
  have hfile {t₁ u : FileTree} {bytes : ByteArray} (dirs : FileTree.AddsDirs (p.dirWay cwd) t t₁)
      (file : t₁.writeFile cwd p bytes = .ok u) : u.node? l = t.node? l := by
    obtain ⟨rfl, -, -⟩ := FileTree.writeFile_ok file
    rw [FileTree.node?_writeAt, if_neg, hdir dirs]
    rintro ⟨-, rfl⟩
    exact hl (p.locate_mem_way cwd)
  cases s with
  | written dirs file => exact hfile dirs file
  | refused dirs e => exact hdir dirs
  | part dirs n file e => exact hfile dirs file

end FingerprintCache

end GrammarBuild
