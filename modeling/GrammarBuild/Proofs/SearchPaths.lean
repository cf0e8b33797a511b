import GrammarBuild.Glob.Files
import GrammarBuild.Proofs.Directories
import GrammarBuild.Proofs.Outputs
import Mathlib.Algebra.GroupWithZero.Nat

/-
  GrammarBuild/Proofs/SearchPaths.lean
  ====================================
  **Paths on the way of a search** — a search goes from a path to the next by a name, and
  from `.` to the name alone.  So the texts of its paths differ from what is joined, but
  their names and their beginning do not (`names_foldl_next`, `isAbsolute_foldl_next`),
  and they are no longer (`size_foldl_next`).

  Whether a path leads to a directory or a file depends on these and on its text being
  one that the host takes (`isDir_iff`, `checkText_iff`).
-/

namespace GrammarBuild

namespace FileTree

theorem checkText_iff (p : Path) :
    checkText p = .ok () ↔
      '\x00' ∉ p.text.toList ∧ p.text ≠ "" ∧ p.text.utf8ByteSize ≤ pathLimit := by
  unfold checkText
  by_cases hzero : '\x00' ∈ p.text.toList
  · simp [hzero]
  by_cases hempty : p.text = ""
  · simp [hempty]
  by_cases hlong : pathLimit < p.text.utf8ByteSize
  · simp [hzero, hempty, hlong]
  · simp [hzero, hempty, hlong, Nat.le_of_not_lt hlong]

theorem at?_of_pathExists {t : FileTree} {cwd : Location} {p : Path} (h : t.pathExists cwd p = true) :
    t.at? cwd p = t.node? (p.locate cwd) := by
  obtain ⟨n, hn⟩ := Option.isSome_iff_exists.1 h
  rw [hn, at?_some hn]

/-- A path leads to a directory if its names do. -/
theorem isDir_iff (t : FileTree) (cwd : Location) (p : Path) :
    t.isDir cwd p = true ↔
      checkText p = .ok () ∧ t.walk (startOf cwd p) p.names = .ok (p.locate cwd) ∧
        t.isDirAt (p.locate cwd) = true := by
  constructor
  · intro h
    have hthere : t.pathExists cwd p = true := by
      unfold isDir at h
      unfold pathExists
      cases ha : t.at? cwd p with
      | none => simp [ha] at h
      | some n => rfl
    obtain ⟨hcheck, hwalk, -, -⟩ := (pathExists_iff t cwd p).1 hthere
    refine ⟨hcheck, hwalk, ?_⟩
    rw [isDir, at?_of_pathExists hthere] at h
    unfold isDirAt
    cases hn : t.node? (p.locate cwd) with
    | none => simp [hn] at h
    | some n => simpa [hn] using h
  · rintro ⟨hcheck, hwalk, hdir⟩
    have hnode := (isDirAt_node? t _).1 hdir
    have hthere : t.pathExists cwd p = true := by
      rw [pathExists_iff]
      exact ⟨hcheck, hwalk, by rw [hnode]; rfl, fun _ => hdir⟩
    rw [isDir, at?_of_pathExists hthere, hnode]
    rfl

theorem Keeps.isDir {t u : FileTree} {cwd : Location} {p : Path} (k : Keeps t u)
    (h : t.isDir cwd p = true) : u.isDir cwd p = true := by
  obtain ⟨hcheck, hwalk, hdir⟩ := (isDir_iff t cwd p).1 h
  exact (isDir_iff u cwd p).2 ⟨hcheck, k.walk hwalk, k.dirs _ hdir⟩

/-- Each place on the way of a walk that goes on is a directory. -/
theorem isDirAt_of_walk_append {t : FileTree} {l m : Location} {a b : List String}
    (h : t.walk l (a ++ b) = .ok m) (hm : t.isDirAt m = true ∨ b ≠ []) :
    ∃ k, t.walk l a = .ok k ∧ t.isDirAt k = true := by
  rw [walk_append] at h
  cases ha : t.walk l a with
  | error f =>
    rw [ha] at h
    cases h
  | ok k =>
    rw [ha] at h
    simp only [] at h
    refine ⟨k, rfl, ?_⟩
    cases b with
    | nil =>
      rw [walk_nil] at h
      cases h
      exact hm.resolve_right (fun hne => hne rfl)
    | cons name b =>
      rw [walk_cons] at h
      cases hs : t.stepFrom k name with
      | error f =>
        rw [hs] at h
        cases h
      | ok k' => exact (stepFrom_ok hs).2.1

end FileTree

namespace Glob

open FileTree

variable {p : Path} {name : String} {names : List String}

/-- A path that is only the working directory takes no step. -/
theorem of_isHere (h : isHere p = true) : p.names = [] ∧ p.isAbsolute = false := by
  have hcomponents : p.components = [.here] := by simpa [isHere] using h
  constructor
  · rw [Path.names, hcomponents]
    rfl
  · cases habs : p.isAbsolute with
    | false => rfl
    | true =>
      have hhead := (Path.components_head? p).1 habs
      rw [hcomponents] at hhead
      cases hhead

/-! ### The text of the next path -/

/-- What stands before the name in the text of the next path. -/
def stem (p : Path) : String := (next p "").text

theorem child_empty_append (h : '/' ∉ name.toList) : (p.child name).text = (p.child "").text ++ name := by
  have hempty : (⟨""⟩ : Path).isAbsolute = false := rfl
  unfold Path.child Path.join
  simp only [isAbsolute_name h, hempty, Bool.false_eq_true, if_false]
  split
  · simp
  · simp

theorem text_next (h : '/' ∉ name.toList) : (next p name).text = stem p ++ name := by
  unfold stem next
  split
  · simp
  · exact child_empty_append h

theorem size_next (h : '/' ∉ name.toList) :
    (next p name).text.utf8ByteSize = (stem p).utf8ByteSize + name.utf8ByteSize := by
  rw [text_next h, String.utf8ByteSize_append]

theorem size_child_empty (p : Path) :
    p.text.utf8ByteSize ≤ (p.child "").text.utf8ByteSize ∧
      (p.child "").text.utf8ByteSize ≤ p.text.utf8ByteSize + 1 := by
  have hempty : (⟨""⟩ : Path).isAbsolute = false := rfl
  have hslash : "/".utf8ByteSize = 1 := rfl
  unfold Path.child Path.join
  simp only [hempty, Bool.false_eq_true, if_false]
  split
  · simp
  · simp [String.utf8ByteSize_append, hslash]

theorem mem_child_empty {c : Char} (h : c ∈ p.text.toList) : c ∈ (p.child "").text.toList := by
  have hempty : (⟨""⟩ : Path).isAbsolute = false := rfl
  unfold Path.child Path.join
  simp only [hempty, Bool.false_eq_true, if_false]
  split
  · simpa using h
  · simp [h]

theorem size_stem_le (p : Path) : (stem p).utf8ByteSize ≤ p.text.utf8ByteSize + 1 := by
  unfold stem next
  split
  · simp
  · exact (size_child_empty p).2

/-- The length of names with a slash after each. -/
def span (names : List String) : Nat := (names.map fun name => name.utf8ByteSize + 1).sum

theorem span_cons (name : String) (names : List String) :
    span (name :: names) = name.utf8ByteSize + 1 + span names := by
  simp [span]

theorem span_append (a b : List String) : span (a ++ b) = span a + span b := by
  simp [span]

theorem size_stem_foldl_next (h : ∀ name ∈ names, '/' ∉ name.toList) :
    (stem (names.foldl next p)).utf8ByteSize ≤ (stem p).utf8ByteSize + span names := by
  induction names generalizing p with
  | nil => exact Nat.le_add_right _ _
  | cons name names ih =>
    have hrest := ih (p := next p name) fun n hn => h n (List.mem_cons_of_mem name hn)
    have hstem := size_stem_le (next p name)
    rw [size_next (h name List.mem_cons_self)] at hstem
    rw [List.foldl_cons, span_cons]
    omega

theorem size_foldl_next (h : ∀ name ∈ names, '/' ∉ name.toList) (hne : names ≠ []) :
    (names.foldl next p).text.utf8ByteSize + 1 ≤ (stem p).utf8ByteSize + span names := by
  obtain ⟨front, last, rfl⟩ := (List.eq_nil_or_concat names).resolve_left hne
  rw [List.concat_eq_append] at h ⊢
  have hfront := size_stem_foldl_next (p := p) fun n hn => h n (List.mem_append_left [last] hn)
  have hnil : span [] = 0 := rfl
  rw [List.foldl_append, List.foldl_cons, List.foldl_nil, size_next (h last (by simp)), span_append,
    span_cons, hnil]
  omega

/-- Nothing new comes into the text but slashes. -/
theorem mem_text_foldl_next {c : Char} (h : ∀ name ∈ names, '/' ∉ name.toList)
    (hc : c ∈ (names.foldl next p).text.toList) :
    c ∈ p.text.toList ∨ c = '/' ∨ ∃ name ∈ names, c ∈ name.toList := by
  induction names generalizing p with
  | nil => exact .inl hc
  | cons name names ih =>
    have hstem : ∀ c ∈ (stem p).toList, c ∈ p.text.toList ∨ c = '/' := by
      intro c hc
      have hempty : (⟨""⟩ : Path).isAbsolute = false := rfl
      have hslash : "/".toList = ['/'] := rfl
      unfold stem next Path.child Path.join at hc
      simp only [hempty, Bool.false_eq_true, if_false] at hc
      split at hc
      · simp at hc
      · split at hc
        · exact .inl (by simpa using hc)
        · simpa [hslash] using hc
    rcases ih (fun n hn => h n (List.mem_cons_of_mem name hn)) hc with hc | hc | ⟨n, hn, hc⟩
    · rw [text_next (h name List.mem_cons_self), String.toList_append] at hc
      rcases List.mem_append.1 hc with hc | hc
      · exact (hstem c hc).imp_right .inl
      · exact .inr (.inr ⟨name, List.mem_cons_self, hc⟩)
    · exact .inr (.inl hc)
    · exact .inr (.inr ⟨n, List.mem_cons_of_mem name hn, hc⟩)

/-- From `.` no search goes on by an empty name. -/
def Gapless : Path → List String → Prop
  | _, [] => True
  | p, name :: names => (isHere p = true → name ≠ "") ∧ Gapless (next p name) names

theorem text_foldl_next_ne (gapless : Gapless p names) (h : ∀ name ∈ names, '/' ∉ name.toList)
    (hp : p.text ≠ "") : (names.foldl next p).text ≠ "" := by
  induction names generalizing p with
  | nil => exact hp
  | cons name names ih =>
    refine ih gapless.2 (fun n hn => h n (List.mem_cons_of_mem name hn)) ?_
    rw [text_next (h name List.mem_cons_self)]
    intro hnil
    rw [String.append_eq_empty_iff] at hnil
    unfold stem next at hnil
    cases hhere : isHere p with
    | true => exact gapless.1 hhere hnil.2
    | false =>
      rw [hhere] at hnil
      have hsize := (size_child_empty p).1
      simp only [Bool.false_eq_true, if_false] at hnil
      rw [hnil.1, String.utf8ByteSize_empty, Nat.le_zero, String.utf8ByteSize_eq_zero_iff] at hsize
      exact hp hsize

/-! ### The names of the next path -/

/-- A name that is a step. -/
def isStep (name : String) : Bool := name ≠ "" ∧ name ≠ "."

theorem names_name (h : '/' ∉ name.toList) : (⟨name⟩ : Path).names = [name].filter isStep := by
  have hsteps : stepsOf ⟨name⟩ = [name].filter (· ≠ "") := by
    by_cases hempty : name = ""
    · subst hempty
      rfl
    · simp [stepsOf, List.splitOn_eq_singleton h, hempty]
  rw [← Path.filter_stepsOf, hsteps, List.filter_filter]
  congr 1
  funext n
  simp [isStep, Bool.and_comm]

theorem names_next (h : '/' ∉ name.toList) :
    (next p name).names = p.names ++ [name].filter isStep := by
  unfold next
  split
  · rename_i hhere
    rw [(of_isHere hhere).1, List.nil_append, names_name h]
  · rw [Path.child, Path.names_join (isAbsolute_name h), names_name h]

theorem isAbsolute_next (h : '/' ∉ name.toList) : (next p name).isAbsolute = p.isAbsolute := by
  unfold next
  split
  · rename_i hhere
    rw [(of_isHere hhere).2, isAbsolute_name h]
  · exact isAbsolute_join (isAbsolute_name h)

theorem names_foldl_next (h : ∀ name ∈ names, '/' ∉ name.toList) :
    (names.foldl next p).names = p.names ++ names.filter isStep := by
  induction names generalizing p with
  | nil => simp
  | cons name names ih =>
    rw [List.foldl_cons, ih fun n hn => h n (List.mem_cons_of_mem name hn),
      names_next (h name List.mem_cons_self), List.append_assoc, ← List.filter_append,
      List.singleton_append]

theorem isAbsolute_foldl_next (h : ∀ name ∈ names, '/' ∉ name.toList) :
    (names.foldl next p).isAbsolute = p.isAbsolute := by
  induction names generalizing p with
  | nil => rfl
  | cons name names ih =>
    rw [List.foldl_cons, ih fun n hn => h n (List.mem_cons_of_mem name hn),
      isAbsolute_next (h name List.mem_cons_self)]

/-! ### Plain names -/

theorem gapless_of_plainNames (h : ∀ name ∈ names, PlainName name) : Gapless p names := by
  induction names generalizing p with
  | nil => trivial
  | cons name names ih =>
    exact ⟨fun _ => (h name List.mem_cons_self).notEmpty,
      ih fun n hn => h n (List.mem_cons_of_mem name hn)⟩

theorem fileName?_next (h : PlainName name) : (next p name).fileName? = some name := by
  have hlast : (next p name).components.getLast? = some (.normal name) := by
    unfold next
    split
    · rw [Path.components_name h]
      rfl
    · rw [Path.components_child h]
      simp
  rw [Path.fileName?, hlast]

theorem endsInSlash_child (h : PlainName name) : endsInSlash (p.child name) = false := by
  have hne : name.toList ≠ [] := fun hn => h.notEmpty (String.toList_eq_nil_iff.1 hn)
  rw [endsInSlash, child_empty_append h.noSlash, String.toList_append, beq_eq_false_iff_ne,
    List.getLast?_append, List.getLast?_eq_some_getLast hne, Option.some_or]
  intro hlast
  exact h.noSlash (Option.some.inj hlast ▸ List.getLast_mem hne)

/-- A path that ends in a plain name asks for no directory. -/
theorem getLast?_trail_child (h : PlainName name) : (trail (p.child name)).getLast? ≠ some "." := by
  rw [trail, endsInSlash_child h, stepsOf_child h]
  simp [h.notHere]

theorem getLast?_trail_next (h : PlainName name) : (trail (next p name)).getLast? ≠ some "." := by
  have hname : (⟨""⟩ : Path).child name = ⟨name⟩ := by
    simp [Path.child, Path.join, isAbsolute_name h.noSlash]
  unfold next
  split
  · rw [← hname]
    exact getLast?_trail_child h
  · exact getLast?_trail_child h

/-! ### Two paths to the same place -/

/-- A path in whose place a search may come to another: the same names from the same
    beginning, the text no longer. -/
structure StandsFor (p q : Path) : Prop where
  names : p.names = q.names
  isAbsolute : p.isAbsolute = q.isAbsolute
  size : p.text.utf8ByteSize ≤ q.text.utf8ByteSize
  stem : (stem p).utf8ByteSize ≤ (q.child "").text.utf8ByteSize
  noZero : '\x00' ∉ q.text.toList → '\x00' ∉ p.text.toList

namespace StandsFor

variable {q : Path}

theorem startOf (s : StandsFor p q) (cwd : Location) : FileTree.startOf cwd p = FileTree.startOf cwd q := by
  rw [FileTree.startOf, s.isAbsolute, FileTree.startOf]

theorem locate (s : StandsFor p q) (cwd : Location) : p.locate cwd = q.locate cwd := by
  rw [← foldl_names, s.names, s.startOf, foldl_names]

theorem checkText (s : StandsFor p q) (hp : p.text ≠ "") (hq : FileTree.checkText q = .ok ()) :
    FileTree.checkText p = .ok () := by
  obtain ⟨hzero, -, hsize⟩ := (checkText_iff q).1 hq
  exact (checkText_iff p).2 ⟨s.noZero hzero, hp, s.size.trans hsize⟩

/-- By a plain name they lead on to the same place. -/
theorem next (s : StandsFor p q) (h : PlainName name) : StandsFor (Glob.next p name) (q.child name) := by
  have hslash := h.noSlash
  have hne : name.toList ≠ [] := fun hn => h.notEmpty (String.toList_eq_nil_iff.1 hn)
  have htext := child_empty_append (p := q) hslash
  have hsize : (Glob.next p name).text.utf8ByteSize ≤ (q.child name).text.utf8ByteSize := by
    rw [size_next hslash, htext, String.utf8ByteSize_append]
    exact Nat.add_le_add_right s.stem _
  refine ⟨?_, ?_, hsize, ?_, ?_⟩
  · rw [names_next hslash, Path.child, Path.names_join (isAbsolute_name hslash), names_name hslash, s.names]
  · rw [isAbsolute_next hslash, Path.child, isAbsolute_join (isAbsolute_name hslash), s.isAbsolute]
  · have hlast : (q.child name).text.toList.getLast? ≠ some '/' := by
      rw [htext, String.toList_append, List.getLast?_append, List.getLast?_eq_some_getLast hne,
        Option.some_or]
      intro hlast
      exact hslash (Option.some.inj hlast ▸ List.getLast_mem hne)
    have hfull : (q.child name).text ≠ "" := by
      intro hnil
      rw [htext, String.append_eq_empty_iff] at hnil
      exact h.notEmpty hnil.2
    have hchild : ((q.child name).child "").text = (q.child name).text ++ "/" := by
      generalize q.child name = r at hlast hfull
      have hempty : (⟨""⟩ : Path).isAbsolute = false := rfl
      unfold Path.child Path.join
      simp [hempty, hfull, hlast]
    have hbar : "/".utf8ByteSize = 1 := rfl
    rw [hchild, String.utf8ByteSize_append, hbar]
    exact (size_stem_le _).trans (Nat.add_le_add_right hsize 1)
  · intro hzero hmem
    rw [htext, String.toList_append, List.mem_append, not_or] at hzero
    have hq : '\x00' ∉ q.text.toList := fun hm => hzero.1 (mem_child_empty hm)
    have hslashes : ∀ n ∈ [name], '/' ∉ n.toList := by simpa using hslash
    rcases mem_text_foldl_next hslashes hmem with hm | hm | ⟨n, hn, hm⟩
    · exact s.noZero hq hm
    · cases hm
    · rw [List.mem_singleton.1 hn] at hm
      exact hzero.2 hm

end StandsFor

end Glob

end GrammarBuild
