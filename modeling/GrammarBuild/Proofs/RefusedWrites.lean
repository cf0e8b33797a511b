import GrammarBuild.Proofs.Actions
import GrammarBuild.Proofs.Walks

/-
  GrammarBuild/Proofs/RefusedWrites.lean
  ======================================
  **Writes that the host refuses** — a text is written exactly if there is a place for it
  and the host does not refuse it there (`runOn_writeText_ok_iff`), so whether it is does
  not depend on the text (`runOn_writeString_any`).  A text that is refused leaves the
  files as they were, or there is the part of it that the host took
  (`writeText_error_cases`).
-/

namespace GrammarBuild

namespace FileTree

variable {t u : FileTree} {cwd l : Location} {p : Path} {bytes : ByteArray}
  {refuses : Location → Option Refusal}

theorem writeFile_of_place (h : t.placeToWrite cwd p = .ok l) (bytes : ByteArray) :
    t.writeFile cwd p bytes = .ok (t.writeAt l bytes) := by
  rw [writeFile, h]
  rfl

theorem place_of_writeFile (h : t.writeFile cwd p bytes = .ok u) :
    t.placeToWrite cwd p = .ok (p.locate cwd) := by
  unfold writeFile at h
  cases hp : t.placeToWrite cwd p with
  | error f =>
    rw [hp] at h
    cases h
  | ok l => rw [locate_of_placeToWrite hp]

/-- Whether there is a place for a file does not depend on what is written. -/
theorem writeFile_any (h : t.writeFile cwd p bytes = .ok u) (bytes' : ByteArray) :
    ∃ u', t.writeFile cwd p bytes' = .ok u' :=
  ⟨_, writeFile_of_place (place_of_writeFile h) bytes'⟩

/-- A file that was written can be written again. -/
theorem writeFile_again (h : t.writeFile cwd p bytes = .ok u) (bytes' : ByteArray) :
    u.writeFile cwd p bytes' = .ok (u.writeAt (p.locate cwd) bytes') := by
  obtain ⟨hu, -, hfree⟩ := writeFile_ok h
  have hkeeps : Keeps t u := hu ▸ keeps_writeAt hfree
  refine writeFile_of_place (hkeeps.placeToWrite (place_of_writeFile h) ?_) bytes'
  rw [isDirAt, node?_of_writeFile h]
  rfl

/-- Writing the same bytes again changes nothing. -/
theorem node?_writeAt_again (h : t.writeFile cwd p bytes = .ok u) (l : Location) :
    (u.writeAt (p.locate cwd) bytes).node? l = u.node? l := by
  rw [node?_writeAt]
  split
  · rename_i hl
    rw [hl.2, node?_of_writeFile h, Option.map_some, Option.getD_some, isExecutable_file]
  · rfl

/-- A file is written exactly if there is a place for it where the host takes it. -/
theorem writeUnless_ok_iff :
    t.writeUnless refuses cwd p bytes = (.ok (), u) ↔
      t.writeFile cwd p bytes = .ok u ∧ refuses (p.locate cwd) = none := by
  unfold writeUnless
  constructor
  · intro h
    cases hp : t.placeToWrite cwd p with
    | error f =>
      rw [hp] at h
      cases h
    | ok l =>
      have hl := place_of_writeFile (writeFile_of_place hp bytes)
      obtain rfl := Except.ok.inj (hp.symm.trans hl)
      rw [hp] at h
      cases hr : refuses (p.locate cwd) with
      | none =>
        simp only [hr] at h
        obtain rfl := (Prod.mk.inj h).2
        exact ⟨writeFile_of_place hp bytes, rfl⟩
      | some r =>
        simp only [hr] at h
        cases h
  · rintro ⟨hw, hr⟩
    have hplace := place_of_writeFile hw
    obtain rfl := Except.ok.inj (hw.symm.trans (writeFile_of_place hplace bytes))
    rw [hplace]
    simp only [hr]

/-- A file is not written where there is no place for it, or where the host refuses it. -/
theorem writeUnless_error {f : HostFault} (h : t.writeUnless refuses cwd p bytes = (.error f, u)) :
    (∀ v, t.writeFile cwd p bytes ≠ .ok v) ∧ u = t ∨
      ∃ r, refuses (p.locate cwd) = some r ∧ f = r.fault ∧
        t.writeFile cwd p bytes = .ok (t.writeAt (p.locate cwd) bytes) ∧
        u = t.writePart (p.locate cwd) bytes r.taken := by
  unfold writeUnless at h
  cases hp : t.placeToWrite cwd p with
  | error f' =>
    rw [hp] at h
    refine .inl ⟨fun v hv => ?_, (Prod.mk.inj h).2.symm⟩
    rw [place_of_writeFile hv] at hp
    cases hp
  | ok l =>
    have hfile := writeFile_of_place hp bytes
    obtain rfl := Except.ok.inj (hp.symm.trans (place_of_writeFile hfile))
    rw [hp] at h
    cases hr : refuses (p.locate cwd) with
    | none =>
      simp only [hr] at h
      cases h
    | some r =>
      simp only [hr] at h
      obtain ⟨hf, hu⟩ := Prod.mk.inj h
      exact .inr ⟨r, rfl, (Except.error.inj hf).symm, hfile, hu.symm⟩

end FileTree

namespace Action

variable {a : Activity} {p : Path} {text : String} {env : Environment} {h h' : Host}

theorem runOn_writeText (p : Path) (text : String) (env : Environment) (h : Host) :
    (writeText p text).runOn env h =
      (Failure.lift .host (h.files.writeUnless env.refuses env.cwd p text.toUTF8).1,
        { h with files := (h.files.writeUnless env.refuses env.cwd p text.toUTF8).2 }) := rfl

/-- A text is written exactly if there is a place for it where the host takes it. -/
theorem runOn_writeText_ok_iff :
    (within a (writeText p text)).runOn env h = (.ok (), h') ↔
      env.refuses (p.locate env.cwd) = none ∧
        ∃ u, h.files.writeFile env.cwd p text.toUTF8 = .ok u ∧ h' = { h with files := u } := by
  rw [runOn_within, runOn_writeText]
  rcases hw : h.files.writeUnless env.refuses env.cwd p text.toUTF8 with ⟨r, u⟩
  cases r with
  | error f =>
    constructor
    · intro run
      cases run
    · rintro ⟨hr, v, hv, -⟩
      rw [FileTree.writeUnless_ok_iff.2 ⟨hv, hr⟩] at hw
      cases hw
  | ok _ =>
    obtain ⟨hfile, hr⟩ := FileTree.writeUnless_ok_iff.1 hw
    constructor
    · intro run
      exact ⟨hr, u, hfile, (Prod.mk.inj run).2.symm⟩
    · rintro ⟨-, v, hv, rfl⟩
      obtain rfl := Except.ok.inj (hfile.symm.trans hv)
      rfl

theorem runOn_writeText_ok (run : (within a (writeText p text)).runOn env h = (.ok (), h')) :
    ∃ u, h.files.writeFile env.cwd p text.toUTF8 = .ok u ∧ h' = { h with files := u } :=
  (runOn_writeText_ok_iff.1 run).2

/-- A text is not written where there is no place for it, or where the host refuses it: then
    there is what the host took. -/
theorem writeText_error_cases {e : Failure}
    (run : (within a (writeText p text)).runOn env h = (.error e, h')) :
    (∀ u, h.files.writeFile env.cwd p text.toUTF8 ≠ .ok u) ∧ h' = h ∨
      ∃ r u, env.refuses (p.locate env.cwd) = some r ∧ e = ⟨[a], .host r.fault⟩ ∧
        h.files.writeFile env.cwd p text.toUTF8 = .ok u ∧
        h' = { h with files := h.files.writePart (p.locate env.cwd) text.toUTF8 r.taken } := by
  rw [runOn_within, runOn_writeText] at run
  rcases hw : h.files.writeUnless env.refuses env.cwd p text.toUTF8 with ⟨q, t⟩
  rw [hw] at run
  obtain rfl := (Prod.mk.inj run).2
  cases q with
  | ok _ => cases run
  | error f =>
    obtain rfl : (⟨[a], .host f⟩ : Failure) = e := Except.error.inj (Prod.mk.inj run).1
    rcases FileTree.writeUnless_error hw with ⟨none, rfl⟩ | ⟨r, hr, rfl, file, rfl⟩
    · exact .inl ⟨none, rfl⟩
    · exact .inr ⟨r, _, hr, rfl, file, rfl⟩

/-! ### Directories on the way -/

/-- Making a directory changes nothing but the files, also where it fails. -/
theorem ensureDir_cases (env : Environment) (h : Host) (p : Path) :
    ∃ r t, (ensureDir p).runOn env h = (r, { h with files := t }) ∧
      FileTree.AddsDirs (p.way env.cwd) h.files t := by
  simp only [ensureDir, runOn_bind, runOn_pathExists, runOn_ite, runOn_within, runOn_changeWith,
    runOn_pure]
  split
  · exact ⟨_, _, rfl, FileTree.createDirs_adds h.files env.cwd p⟩
  · exact ⟨_, h.files, rfl, .refl _ _⟩

/-- Making a directory starts nothing and only adds directories. -/
theorem ensureDir_adds (env : Environment) (h : Host) (p : Path) :
    FileTree.AddsDirs (p.way env.cwd) h.files ((ensureDir p).runOn env h).2.files ∧
      ((ensureDir p).runOn env h).2.started = h.started := by
  obtain ⟨r, t, hrun, adds⟩ := ensureDir_cases env h p
  rw [hrun]
  exact ⟨adds, rfl⟩

/-- Writing a file makes the directories that are missing on the way to it, and then the
    file. -/
theorem files_of_writeString (ok : (writeString p text).runOn env h = (.ok (), h')) :
    ∃ t, FileTree.AddsDirs (p.dirWay env.cwd) h.files t ∧
      t.writeFile env.cwd p text.toUTF8 = .ok h'.files := by
  unfold writeString at ok
  cases hp : p.parent? with
  | none =>
    rw [hp] at ok
    obtain ⟨u, hu, rfl⟩ := runOn_writeText_ok ok
    exact ⟨h.files, .refl _ _, hu⟩
  | some dir =>
    rw [hp] at ok
    obtain ⟨_, h₁, hdir, hwrite⟩ := runOn_bind_ok ok
    obtain ⟨u, hu, rfl⟩ := runOn_writeText_ok hwrite
    have hadds := (ensureDir_adds env h dir).1
    rw [Path.way_parent? hp, hdir] at hadds
    exact ⟨h₁.files, hadds, hu⟩

/-- A text that was written is read again. -/
theorem readText_of_writeString (ok : (writeString p text).runOn env h = (.ok (), h')) :
    h'.files.readText env.cwd p = .ok text := by
  obtain ⟨t, -, file⟩ := files_of_writeString ok
  exact FileTree.readText_of_writeFile file

/-- Where one text can be written, every text can. -/
theorem runOn_writeString_any (ok : (writeString p text).runOn env h = (.ok (), h')) (text' : String) :
    ∃ h'', (writeString p text').runOn env h = (.ok (), h'') := by
  have hwrite {h₁ : Host} (ok : (within (.writingFile p) (writeText p text)).runOn env h₁ = (.ok (), h')) :
      ∃ h'', (within (.writingFile p) (writeText p text')).runOn env h₁ = (.ok (), h'') := by
    obtain ⟨free, u, hu, -⟩ := runOn_writeText_ok_iff.1 ok
    obtain ⟨u', hu'⟩ := FileTree.writeFile_any hu text'.toUTF8
    exact ⟨_, runOn_writeText_ok_iff.2 ⟨free, u', hu', rfl⟩⟩
  rw [writeString] at ok ⊢
  cases hp : p.parent? with
  | none =>
    rw [hp] at ok
    exact hwrite ok
  | some q =>
    rw [hp] at ok
    obtain ⟨_, h₁, hdir, hok⟩ := runOn_bind_ok ok
    obtain ⟨h'', hw⟩ := hwrite hok
    refine ⟨h'', ?_⟩
    simp only [runOn_bind, hdir]
    exact hw

end Action

end GrammarBuild
