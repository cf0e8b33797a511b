import GrammarBuild.Proofs.FirstManifest
import GrammarBuild.Proofs.SearchPaths
import GrammarBuild.Proofs.Steps
import GrammarBuild.Proofs.Ways

/-
  GrammarBuild/Proofs/WrittenFiles.lean
  =====================================
  **Files that are written** — what a text written to a path leaves of the other files
  (`readFile_of_writeString`), and when it can be written at all: a file that can be read
  can be written (`writeFile_of_readFile`), and so can a new one beside a file that is
  there (`writeFile_beside`).
-/

namespace GrammarBuild

/-! ### What writing leaves -/

/-- What is read elsewhere stays as it is. -/
theorem Action.readFile_of_writeString {p q : Path} {text : String} {bytes : ByteArray}
    {env : Environment} {h h' : Host} (ok : (writeString p text).runOn env h = (.ok (), h'))
    (elsewhere : q.locate env.cwd ≠ p.locate env.cwd)
    (read : h.files.readFile env.cwd q = .ok bytes) : h'.files.readFile env.cwd q = .ok bytes := by
  obtain ⟨t, dirs, file⟩ := files_of_writeString ok
  obtain ⟨keeps, same⟩ := FileTree.writeFile_changes file
  have hthere := FileTree.node?_of_pathExists (FileTree.pathExists_of_readFile read)
  have hread := dirs.keeps.readFile (dirs.node?_eq hthere) read
  exact keeps.readFile (same _ elsewhere) hread

/-! ### What can be written -/

namespace FileTree

variable {t u : FileTree} {cwd : Location} {dir : Path} {name other : String} {bytes : ByteArray}

theorem node?_of_readFile {p : Path} (read : t.readFile cwd p = .ok bytes) :
    ∃ x, t.node? (p.locate cwd) = some (.file bytes x) := by
  unfold readFile at read
  cases ho : t.openRead cwd p with
  | error f =>
    rw [ho] at read
    cases read
  | ok n =>
    rw [ho] at read
    cases n with
    | dir => cases read
    | file b x =>
      cases read
      exact ⟨x, openRead_ok ho⟩

theorem readFile_of_readText {p : Path} {text : String} (read : t.readText cwd p = .ok text) :
    ∃ bytes, t.readFile cwd p = .ok bytes := by
  unfold readText at read
  obtain ⟨bytes, hbytes, -⟩ := bind_eq_ok_iff.1 read
  exact ⟨bytes, hbytes⟩

/-- A path leads into a directory: what is asked for by a name after it is looked for there. -/
structure LeadsInto (t : FileTree) (cwd : Location) (dir : Path) : Prop where
  walk : t.walk (startOf cwd dir) (stepsOf dir) = .ok (dir.locate cwd)
  isDir : t.isDirAt (dir.locate cwd) = true

theorem LeadsInto.of_walk {l : Location} (walk : t.walk (startOf cwd dir) (stepsOf dir) = .ok l)
    (isDir : t.isDirAt l = true) : t.LeadsInto cwd dir := by
  obtain rfl : l = dir.locate cwd := by
    rw [walk_ok walk, foldl_stepTo]
  exact ⟨walk, isDir⟩

theorem Keeps.leadsInto (k : Keeps t u) (h : t.LeadsInto cwd dir) : u.LeadsInto cwd dir :=
  ⟨k.walk h.walk, k.dirs _ h.isDir⟩

theorem startOf_child (hname : PlainName name) (cwd : Location) (dir : Path) :
    startOf cwd (dir.child name) = startOf cwd dir := by
  rw [startOf, startOf, Path.child, isAbsolute_join (isAbsolute_name hname.noSlash)]

theorem LeadsInto.pathExists (into : t.LeadsInto cwd dir) (text : checkText dir = .ok ()) :
    t.pathExists cwd dir = true := by
  have hhere : t.stepFrom (dir.locate cwd) "." = .ok (dir.locate cwd) :=
    stepFrom_of_node into.isDir fun hne => absurd rfl hne
  have hresolve : t.resolve cwd dir = .ok (dir.locate cwd) := by
    unfold resolve
    rw [text]
    show t.walk (startOf cwd dir) (stepsOf dir ++ _) = _
    rw [walk_append, into.walk]
    cases endsInSlash dir with
    | true => simp only [if_true, walk_cons, hhere, walk_nil]
    | false => exact walk_nil t _
  unfold FileTree.pathExists at?
  rw [hresolve]
  show (t.node? _).isSome = true
  rw [(isDirAt_node? t _).1 into.isDir]
  rfl

/-- A path with a name after it that the host takes is taken itself, or is empty. -/
theorem checkText_of_child (hname : PlainName name) (text : checkText (dir.child name) = .ok ()) :
    dir.text = "" ∨ checkText dir = .ok () := by
  obtain ⟨hzero, -, hsize⟩ := (checkText_iff _).1 text
  rw [Glob.child_empty_append hname.noSlash, String.toList_append, List.mem_append, not_or] at hzero
  rw [Glob.child_empty_append hname.noSlash, String.utf8ByteSize_append] at hsize
  have hdir := (Glob.size_child_empty dir).1
  by_cases hempty : dir.text = ""
  · exact .inl hempty
  · exact .inr ((checkText_iff dir).2
      ⟨fun hmem => hzero.1 (Glob.mem_child_empty hmem), hempty, by omega⟩)

/-- What is found under a plain name. -/
theorem pathExists_child_iff (hname : PlainName name) :
    t.pathExists cwd (dir.child name) = true ↔
      checkText (dir.child name) = .ok () ∧ t.LeadsInto cwd dir ∧ name.utf8ByteSize ≤ nameLimit ∧
        (t.node? ((dir.child name).locate cwd)).isSome = true := by
  have hsteps : stepsOf (dir.child name) ++ (if endsInSlash (dir.child name) then ["."] else []) =
      stepsOf dir ++ [name] := by
    rw [Glob.endsInSlash_child hname, stepsOf_child hname]
    exact List.append_nil _
  constructor
  · intro found
    have hresolve := resolve_of_pathExists found
    unfold resolve at hresolve
    rw [hsteps, startOf_child hname] at hresolve
    cases hc : checkText (dir.child name) with
    | error f =>
      rw [hc] at hresolve
      cases hresolve
    | ok _ =>
      rw [hc] at hresolve
      have hwalk : t.walk (startOf cwd dir) (stepsOf dir ++ [name]) =
        .ok ((dir.child name).locate cwd) := hresolve
      rw [walk_append] at hwalk
      cases hdir : t.walk (startOf cwd dir) (stepsOf dir) with
      | error f =>
        rw [hdir] at hwalk
        cases hwalk
      | ok l =>
        rw [hdir] at hwalk
        simp only [walk_cons] at hwalk
        cases hstep : t.stepFrom l name with
        | error f =>
          rw [hstep] at hwalk
          cases hwalk
        | ok l' =>
          obtain ⟨-, isDir, hnode⟩ := stepFrom_ok hstep
          exact ⟨rfl, .of_walk hdir isDir, (hnode hname.notHere hname.notUp).1,
            node?_of_pathExists found⟩
  · rintro ⟨hc, into, short, there⟩
    have hplace : stepTo (dir.locate cwd) name = (dir.child name).locate cwd := by
      rw [locate_child hname]
      simp [stepTo, hname.notHere, hname.notUp]
    have hresolve : t.resolve cwd (dir.child name) = .ok ((dir.child name).locate cwd) := by
      unfold resolve
      rw [hc, hsteps, startOf_child hname]
      show t.walk (startOf cwd dir) (stepsOf dir ++ [name]) = _
      rw [walk_append, into.walk]
      simp only [walk_cons]
      rw [stepFrom_of_node into.isDir fun _ _ => ⟨short, hplace ▸ there⟩, hplace]
      exact walk_nil t _
    unfold pathExists at?
    rw [hresolve]
    exact there

/-- Which files with a plain name can be written. -/
theorem writeFile_child_iff (hname : PlainName name) (bytes : ByteArray) :
    (∃ u, t.writeFile cwd (dir.child name) bytes = .ok u) ↔
      checkText (dir.child name) = .ok () ∧ t.LeadsInto cwd dir ∧ name.utf8ByteSize ≤ nameLimit ∧
        t.isDirAt ((dir.child name).locate cwd) = false := by
  constructor
  · rintro ⟨u, hu⟩
    obtain ⟨-, -, hfree⟩ := writeFile_ok hu
    unfold writeFile at hu
    cases hplace : t.placeToWrite cwd (dir.child name) with
    | error f =>
      rw [hplace] at hu
      cases hu
    | ok l =>
      obtain ⟨m, last, hparent, -, -, -, short, -⟩ := placeToWrite_ok hplace
      obtain ⟨hc, hwalk, isDir, hlast⟩ := parentOf_ok hparent
      rw [stepsOf_child hname, List.dropLast_concat, startOf_child hname] at hwalk
      rw [stepsOf_child hname, List.getLast?_concat] at hlast
      obtain rfl := Option.some.inj hlast
      exact ⟨hc, .of_walk hwalk isDir, short, hfree⟩
  · rintro ⟨hc, into, short, free⟩
    have hdots : isDots name = false := by
      simp [isDots, hname.notHere, hname.notUp]
    rw [locate_child hname] at free
    have hplace := placeToWrite_of_walk hc (by
      rw [stepsOf_child hname, List.dropLast_concat, startOf_child hname]
      exact into.walk) into.isDir (by rw [stepsOf_child hname, List.getLast?_concat])
      (Glob.endsInSlash_child hname) hdots short free
    exact ⟨_, by rw [writeFile, hplace]; rfl⟩

theorem locate_child_ne (hname : PlainName name) (hother : PlainName other) (hne : name ≠ other) :
    (dir.child name).locate cwd ≠ (dir.child other).locate cwd := by
  rw [locate_child hname, locate_child hother]
  simpa using hne

/-- Writing one file of a directory leaves the others to be found or missing. -/
theorem pathExists_beside (hname : PlainName name) (hother : PlainName other) (hne : name ≠ other)
    (wrote : t.writeFile cwd (dir.child other) bytes = .ok u) :
    u.pathExists cwd (dir.child name) = t.pathExists cwd (dir.child name) := by
  obtain ⟨hkeeps, hsame⟩ := writeFile_changes wrote
  obtain ⟨-, into, -⟩ := (writeFile_child_iff hother bytes).1 ⟨u, wrote⟩
  rw [Bool.eq_iff_iff, pathExists_child_iff hname, pathExists_child_iff hname,
    hsame _ (locate_child_ne hname hother hne)]
  simp only [into, hkeeps.leadsInto into]

/-- What is found beside a file that is written is read as before. -/
theorem readText_beside (hname : PlainName name) (hother : PlainName other) (hne : name ≠ other)
    (wrote : t.writeFile cwd (dir.child other) bytes = .ok u)
    (found : t.pathExists cwd (dir.child name) = true) :
    u.readText cwd (dir.child name) = t.readText cwd (dir.child name) := by
  have found' := (pathExists_beside hname hother hne wrote).trans found
  have hopen := openRead_of_found found found'
    ((writeFile_changes wrote).2 _ (locate_child_ne hname hother hne))
  unfold readText readFile
  rw [hopen]

/-- Where a file with a plain name can be written but none is found, there is none. -/
theorem node?_of_writeFile_new (hname : PlainName name)
    (wrote : t.writeFile cwd (dir.child name) bytes = .ok u)
    (missing : t.pathExists cwd (dir.child name) = false) :
    t.node? ((dir.child name).locate cwd) = none := by
  obtain ⟨hc, into, short, -⟩ := (writeFile_child_iff hname bytes).1 ⟨u, wrote⟩
  cases hnode : t.node? ((dir.child name).locate cwd) with
  | none => rfl
  | some n =>
    have found := (pathExists_child_iff hname).2 ⟨hc, into, short, by rw [hnode]; rfl⟩
    rw [missing] at found
    cases found

/-- A file that can be read can be written. -/
theorem writeFile_of_readFile (hname : PlainName name)
    (read : t.readFile cwd (dir.child name) = .ok bytes) (bytes' : ByteArray) :
    ∃ u, t.writeFile cwd (dir.child name) bytes' = .ok u := by
  obtain ⟨hc, into, short, -⟩ := (pathExists_child_iff hname).1 (pathExists_of_readFile read)
  obtain ⟨x, hnode⟩ := node?_of_readFile read
  refine (writeFile_child_iff hname bytes').2 ⟨hc, into, short, ?_⟩
  rw [isDirAt, hnode]
  rfl

/-- Where nothing is found under a name, a file can be written, provided that another file
    was written there whose name is no shorter. -/
theorem writeFile_beside (hname : PlainName name) (hother : PlainName other)
    (noZero : '\x00' ∉ name.toList) (short : name.utf8ByteSize ≤ other.utf8ByteSize)
    (wrote : t.writeFile cwd (dir.child other) bytes = .ok u)
    (missing : u.pathExists cwd (dir.child name) = false) (bytes' : ByteArray) :
    ∃ v, u.writeFile cwd (dir.child name) bytes' = .ok v := by
  obtain ⟨hc, into, hshort, -⟩ := (writeFile_child_iff hother bytes).1 ⟨u, wrote⟩
  have hcheck : checkText (dir.child name) = .ok () := by
    obtain ⟨hzero, -, hsize⟩ := (checkText_iff _).1 hc
    rw [Glob.child_empty_append hother.noSlash, String.toList_append, List.mem_append, not_or] at hzero
    rw [Glob.child_empty_append hother.noSlash, String.utf8ByteSize_append] at hsize
    rw [checkText_iff, Glob.child_empty_append hname.noSlash, String.toList_append, List.mem_append,
      not_or, String.utf8ByteSize_append]
    refine ⟨⟨hzero.1, noZero⟩, ?_, by omega⟩
    intro hempty
    exact hname.notEmpty (String.append_eq_empty_iff.1 hempty).2
  have into' := (writeFile_changes wrote).1.leadsInto into
  have short' := Nat.le_trans short hshort
  refine (writeFile_child_iff hname bytes').2 ⟨hcheck, into', short', ?_⟩
  cases hdir : u.isDirAt ((dir.child name).locate cwd) with
  | false => rfl
  | true =>
    -- a directory of that name would have been found
    have hnode := (isDirAt_node? u _).1 hdir
    have found := (pathExists_child_iff hname).2 ⟨hcheck, into', short', by rw [hnode]; rfl⟩
    rw [found] at missing
    cases missing

end FileTree

namespace Action

variable {dir : Path} {name : String} {env : Environment} {h : Host} {bytes : ByteArray}

/-- A directory in which something is found is not made again. -/
theorem runOn_ensureDir_of_found (hname : PlainName name)
    (found : h.files.pathExists env.cwd (dir.child name) = true) :
    (ensureDir dir).runOn env h = (.ok (), h) := by
  obtain ⟨hc, into, -⟩ := (FileTree.pathExists_child_iff hname).1 found
  simp only [ensureDir, runOn_bind, runOn_pathExists, runOn_ite, runOn_within, runOn_changeWith,
    runOn_pure]
  rcases FileTree.checkText_of_child hname hc with hempty | hcheck
  · -- the empty path is never found, and nothing is made for it
    have hcreate : h.files.createDirs env.cwd dir = (.ok (), h.files) := by
      unfold FileTree.createDirs
      rw [hempty]
      rfl
    rw [hcreate]
    split
    · rfl
    · rfl
  · rw [into.pathExists hcheck]
    rfl

/-- A text is written where a file can be read, if the host takes it. -/
theorem runOn_writeString_of_readFile (hname : PlainName name)
    (read : h.files.readFile env.cwd (dir.child name) = .ok bytes)
    (free : env.refuses ((dir.child name).locate env.cwd) = none) (text : String) :
    ∃ h', (writeString (dir.child name) text).runOn env h = (.ok (), h') := by
  obtain ⟨u, hu⟩ := FileTree.writeFile_of_readFile hname read text.toUTF8
  have hprepare := FileTree.prepare_of_pathExists (FileTree.pathExists_of_readFile read)
    (FileTree.names_ne_nil_of_writeFile hu)
  rw [writeString_eq_prepareOutput, runOn_bind, BuildContext.runOn_prepareOutput, hprepare]
  exact ⟨_, runOn_writeText_ok_iff.2 ⟨free, u, hu, rfl⟩⟩

end Action

end GrammarBuild
