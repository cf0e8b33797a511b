import GrammarBuild.Host.Action
import GrammarBuild.Proofs.Directories

/-
  GrammarBuild/Proofs/AbsolutePaths.lean
  ======================================
  **Absolute paths lead to the same place from everywhere** — what the host does with an
  absolute path does not depend on the working directory (`resolve_absolute` and what
  follows from it), and what is made of absolute paths is absolute.

  Programs are found alike from everywhere if all directories of the search path are
  absolute and the name has no relative directory in it (`which?_absolute`).
-/

namespace GrammarBuild

namespace Path

variable {p q : Path}

theorem isAbsolute_join_left (hp : p.isAbsolute = true) : (p.join q).isAbsolute = true := by
  cases hq : q.isAbsolute with
  | true =>
    rw [join, if_pos hq]
    exact hq
  | false => rw [FileTree.isAbsolute_join hq, hp]

theorem isAbsolute_child (hp : p.isAbsolute = true) (name : String) :
    (p.child name).isAbsolute = true := isAbsolute_join_left hp

theorem isAbsolute_children (hp : p.isAbsolute = true) (names : List String) :
    (p.children names).isAbsolute = true := by
  rw [children_eq_foldl]
  induction names generalizing p with
  | nil => exact hp
  | cons name names ih => exact ih (isAbsolute_child hp name)

/-- An absolute path is made absolute in the same way from everywhere. -/
theorem absoluteFrom_absolute (hp : p.isAbsolute = true) (cwd cwd' : Path) :
    p.absoluteFrom cwd = p.absoluteFrom cwd' := by
  unfold absoluteFrom
  simp only [hp, if_true]

theorem isAbsolute_start (cs : List Char) : (match cs with
    | '/' :: '/' :: '/' :: _ => (⟨"/"⟩ : Path)
    | '/' :: '/' :: _ => ⟨"//"⟩
    | _ => ⟨"/"⟩).isAbsolute = true := by
  split
  · rfl
  · rfl
  · rfl

theorem isAbsolute_absoluteFrom (hp : p.isAbsolute = true) (cwd : Path) :
    (p.absoluteFrom cwd).isAbsolute = true := by
  have hstart := isAbsolute_start p.text.toList
  unfold absoluteFrom
  simp only [hp, if_true]
  split
  · exact isAbsolute_child (isAbsolute_children hstart _) ""
  · exact isAbsolute_children hstart _

/-- The parent of an absolute path is absolute. -/
theorem isAbsolute_of_parent? (h : p.parent? = some q) (hp : p.isAbsolute = true) :
    q.isAbsolute = true := by
  rw [components_head?] at hp ⊢
  rw [components_parent? h]
  obtain ⟨cs, hcs⟩ := List.head?_eq_some_iff.1 hp
  cases cs with
  | nil =>
    unfold parent? at h
    rw [hcs] at h
    cases h
  | cons c cs => rw [hcs, List.dropLast_cons_cons, List.head?_cons]

theorem isAbsolute_parentOr (hp : p.isAbsolute = true) : (p.parent?.getD p).isAbsolute = true := by
  cases h : p.parent? with
  | none => exact hp
  | some q => exact isAbsolute_of_parent? h hp

theorem isAbsolute_anchoredAt {root : Path} (hroot : root.isAbsolute = true) (h : p.hasDirectory = true) :
    (p.anchoredAt root).isAbsolute = true := by
  rw [anchoredAt, if_pos h]
  exact isAbsolute_join_left hroot

end Path

theorem Location.isAbsolute_text (l : Location) : (⟨l.text⟩ : Path).isAbsolute = true := by
  have hslash : "/".toList = ['/'] := rfl
  rw [Path.isAbsolute, Location.text, String.toList_append, hslash]
  rfl

namespace FileTree

variable {p : Path} (hp : p.isAbsolute = true) (t : FileTree) (cwd cwd' : Location)

include hp

/-! ### Looking -/

theorem resolve_absolute : t.resolve cwd p = t.resolve cwd' p := by
  simp only [resolve, startOf, hp, if_true]

theorem at?_absolute : t.at? cwd p = t.at? cwd' p := by
  rw [at?, resolve_absolute hp t cwd cwd', at?]

theorem pathExists_absolute : t.pathExists cwd p = t.pathExists cwd' p := by
  rw [pathExists, at?_absolute hp t cwd cwd', pathExists]

theorem isFile_absolute : t.isFile cwd p = t.isFile cwd' p := by
  rw [isFile, at?_absolute hp t cwd cwd', isFile]

theorem isDir_absolute : t.isDir cwd p = t.isDir cwd' p := by
  rw [isDir, at?_absolute hp t cwd cwd', isDir]

theorem canRun_absolute : t.canRun cwd p = t.canRun cwd' p := by
  rw [canRun, at?_absolute hp t cwd cwd', canRun]

theorem readText_absolute : t.readText cwd p = t.readText cwd' p := by
  simp only [readText, readFile, openRead, resolve_absolute hp t cwd cwd']

/-! ### Changing -/

theorem parentOf_absolute : t.parentOf cwd p = t.parentOf cwd' p := by
  simp only [parentOf, startOf, hp, if_true]

theorem writeUnless_absolute (refuses : Location → Option Refusal) (bytes : ByteArray) :
    t.writeUnless refuses cwd p bytes = t.writeUnless refuses cwd' p bytes := by
  simp only [writeUnless, placeToWrite, parentOf_absolute hp t cwd cwd']

theorem createDir_absolute : t.createDir cwd p = t.createDir cwd' p := by
  simp only [createDir, parentOf_absolute hp t cwd cwd']

theorem createLast_absolute : t.createLast cwd p = t.createLast cwd' p := by
  unfold createLast
  rw [createDir_absolute hp t cwd cwd', isDir_absolute hp t cwd cwd']

omit hp in
theorem createDirs_absolute {p : Path} (hp : p.isAbsolute = true) (t : FileTree)
    (cwd cwd' : Location) : t.createDirs cwd p = t.createDirs cwd' p := by
  have hcreate := createDir_absolute hp t cwd cwd'
  have hdir := isDir_absolute hp t cwd cwd'
  cases hempty : p.text.isEmpty with
  | true => rw [createDirs, createDirs, if_pos hempty, if_pos hempty]
  | false =>
    cases hc : t.createDir cwd' p with
    | ok u => rw [createDirs, createDirs, hempty, hcreate, hc]
    | error f =>
      by_cases hf : f = .notFound
      · subst hf
        cases hq : p.parent? with
        | none =>
          rw [createDirs, createDirs, hempty, hcreate, hc]
          simp only [Bool.false_eq_true, if_false]
          split
          · rfl
          · rename_i q hq'
            rw [hq] at hq'
            cases hq'
        | some q =>
          rw [createDirs_of_notFound hempty (hcreate.trans hc) hq,
            createDirs_of_notFound hempty hc hq,
            createDirs_absolute (Path.isAbsolute_of_parent? hq hp) t cwd cwd']
          rcases t.createDirs cwd' q with ⟨r, u⟩
          cases r with
          | ok _ => exact createLast_absolute hp u cwd cwd'
          | error e => rfl
      · rw [createDirs_of_error hempty (hcreate.trans hc) hf, createDirs_of_error hempty hc hf, hdir]
termination_by p.components.length
decreasing_by
  rw [Path.components_parent? hq, List.length_dropLast]
  have := List.length_pos_iff.2 (Path.components_ne_nil_of_parent? hq)
  omega

/-! ### Programs -/

omit hp

/-- Where a program is looked for. -/
theorem which?_eq_find? {name : Path} (hname : name.hasDirectory = false) (t : FileTree)
    (cwd : Location) (searchPath : Option String) :
    t.which? cwd searchPath name =
      (if name.isAbsolute && 1 < name.components.length then [name]
        else (searchDirs searchPath).map fun d => d.join name).find? (t.canRun cwd) := by
  unfold which? fromWorkingDir
  cases habs : name.isAbsolute with
  | true => simp
  | false =>
    have hone : ¬ 1 < name.components.length := by
      simpa [Path.hasDirectory, habs] using hname
    simp [hone]

/-- Without a relative directory in its name, a program is looked for under absolute paths
    only. -/
theorem which?_absolute {searchPath : Option String}
    (dirs : ∀ d ∈ searchDirs searchPath, d.isAbsolute = true) {name : Path}
    (hname : name.hasDirectory = false) (t : FileTree) (cwd cwd' : Location) :
    t.which? cwd searchPath name = t.which? cwd' searchPath name ∧
      ∀ q, t.which? cwd searchPath name = some q → q.isAbsolute = true := by
  rw [which?_eq_find? hname, which?_eq_find? hname]
  generalize hcandidates : (if name.isAbsolute && 1 < name.components.length then [name]
    else (searchDirs searchPath).map fun d => d.join name) = candidates
  have habs : ∀ q ∈ candidates, q.isAbsolute = true := by
    intro q hq
    rw [← hcandidates] at hq
    split at hq
    · rename_i h
      rw [List.mem_singleton.1 hq]
      exact (Bool.and_eq_true_iff.1 h).1
    · obtain ⟨d, hd, rfl⟩ := List.mem_map.1 hq
      exact Path.isAbsolute_join_left (dirs d hd)
  refine ⟨?_, fun q hq => habs q (List.mem_of_find?_eq_some hq)⟩
  clear hcandidates
  induction candidates with
  | nil => rfl
  | cons q candidates ih =>
    rw [List.find?_cons, List.find?_cons, canRun_absolute (habs q List.mem_cons_self) t cwd cwd',
      ih fun q hq => habs q (List.mem_cons_of_mem _ hq)]

end FileTree

end GrammarBuild
