import GrammarBuild.Build.Plan
import GrammarBuild.Proofs.Locations
import Mathlib.Data.List.Basic

/-
  GrammarBuild/Proofs/Layout.lean
  ===============================
  **Where a project's results are kept** — an object at `obj/<target>/<file>` below the
  output directory, a module at the components of its target's name, the fingerprint
  cache beside them.

  The names between are such that no two of these places coincide: an object's file name
  has a dash and an identifier has none, a module's file name begins with a letter and
  the cache's with a dot.  So the location of a result tells which object it is
  (`object_eq_of_location`) or which target's module (`target_eq_of_location`).
-/

namespace GrammarBuild

open FileTree

/-! ### Names that stand for themselves in a path -/

/-- A name that is one step down wherever it stands in a path. -/
structure PlainName (name : String) : Prop where
  noSlash : '/' ∉ name.toList
  notEmpty : name ≠ ""
  notHere : name ≠ "."
  notUp : name ≠ ".."

/-- A name in which neither a slash nor a dot is, and another character. -/
theorem plainName_of_dotless {name : String} (hslash : '/' ∉ name.toList)
    (hdot : '.' ∉ name.toList) (hne : name ≠ "") : PlainName name := by
  refine ⟨hslash, hne, ?_, ?_⟩
  · intro h
    exact hdot (by rw [h]; decide)
  · intro h
    exact hdot (by rw [h]; decide)

/-- A name in which a dash is and no slash. -/
theorem plainName_of_dash {name : String} (hslash : '/' ∉ name.toList)
    (hdash : '-' ∈ name.toList) : PlainName name := by
  refine ⟨hslash, ?_, ?_, ?_⟩
  · intro h
    rw [h] at hdash
    exact absurd hdash (by decide)
  · intro h
    rw [h] at hdash
    exact absurd hdash (by decide)
  · intro h
    rw [h] at hdash
    exact absurd hdash (by decide)

theorem isAbsolute_name {name : String} (h : '/' ∉ name.toList) :
    (⟨name⟩ : Path).isAbsolute = false := by
  rw [Path.isAbsolute, beq_eq_false_iff_ne]
  exact fun hh => h (List.mem_of_mem_head? hh)

theorem PlainName.stepsOf {name : String} (h : PlainName name) :
    FileTree.stepsOf ⟨name⟩ = [name] := by
  simp [FileTree.stepsOf, List.splitOn_eq_singleton h.noSlash, h.notEmpty]

theorem PlainName.locate {name : String} (h : PlainName name) (l : Location) :
    (⟨name⟩ : Path).locate l = l ++ [name] := by
  rw [← foldl_stepTo, h.stepsOf, startOf, isAbsolute_name h.noSlash]
  simp [stepTo, h.notHere, h.notUp]

theorem stepsOf_child {name : String} (h : PlainName name) (p : Path) :
    stepsOf (p.child name) = stepsOf p ++ [name] := by
  rw [Path.child, stepsOf_join (isAbsolute_name h.noSlash), h.stepsOf]

theorem locate_child {name : String} (h : PlainName name) (p : Path) (cwd : Location) :
    (p.child name).locate cwd = p.locate cwd ++ [name] := by
  rw [Path.child, locate_join, h.locate]

theorem locate_children {names : List String} (h : ∀ name ∈ names, PlainName name) (p : Path)
    (cwd : Location) : (p.children names).locate cwd = p.locate cwd ++ names := by
  rw [Path.children_eq_foldl]
  induction names generalizing p with
  | nil => simp
  | cons name names ih =>
    rw [List.foldl_cons, ih (fun n hn => h n (List.mem_cons_of_mem name hn)),
      locate_child (h name List.mem_cons_self)]
    simp

/-! ### The pieces between separators -/

theorem notMem_of_mem_splitOn {sep : Char} {t w : List Char} (hw : w ∈ List.splitOn sep t) :
    sep ∉ w ∧ ∀ c ∈ w, c ∈ t := by
  induction t generalizing w with
  | nil => simp_all
  | cons c t ih =>
    rcases Text.splitOn_cons_cases sep c t with ⟨-, hs⟩ | ⟨hc, v, vs, ht, hs⟩
    · rw [hs] at hw
      rcases List.mem_cons.1 hw with rfl | hw
      · simp
      · exact ⟨(ih hw).1, fun d hd => List.mem_cons_of_mem c ((ih hw).2 d hd)⟩
    · rw [hs] at hw
      rw [ht] at ih
      rcases List.mem_cons.1 hw with rfl | hw
      · obtain ⟨h1, h2⟩ := ih List.mem_cons_self
        constructor
        · rw [List.mem_cons, not_or]
          exact ⟨fun h => hc h.symm, h1⟩
        · intro d hd
          rcases List.mem_cons.1 hd with rfl | hd
          · exact List.mem_cons_self
          · exact List.mem_cons_of_mem c (h2 d hd)
      · obtain ⟨h1, h2⟩ := ih (List.mem_cons_of_mem v hw)
        exact ⟨h1, fun d hd => List.mem_cons_of_mem c (h2 d hd)⟩

/-- What is no separator is in one of the pieces. -/
theorem mem_piece_of_mem {sep : Char} {t : List Char} {c : Char} (h : c ∈ t) (hc : c ≠ sep) :
    ∃ w ∈ List.splitOn sep t, c ∈ w := by
  induction t with
  | nil => cases h
  | cons d t ih =>
    rcases Text.splitOn_cons_cases sep d t with ⟨hd, hs⟩ | ⟨-, v, vs, ht, hs⟩
    · rcases List.mem_cons.1 h with rfl | h
      · exact absurd hd hc
      · obtain ⟨w, hw, hcw⟩ := ih h
        exact ⟨w, hs ▸ List.mem_cons_of_mem [] hw, hcw⟩
    · rw [hs]
      rw [ht] at ih
      rcases List.mem_cons.1 h with rfl | h
      · exact ⟨c :: v, List.mem_cons_self, List.mem_cons_self⟩
      · obtain ⟨w, hw, hcw⟩ := ih h
        rcases List.mem_cons.1 hw with rfl | hw
        · exact ⟨d :: w, List.mem_cons_self, List.mem_cons_of_mem d hcw⟩
        · exact ⟨w, List.mem_cons_of_mem _ hw, hcw⟩

theorem splitOn_injective (sep : Char) : Function.Injective (List.splitOn sep) := by
  intro s t h
  have hs : List.intercalate [sep] (s.splitOn sep) = s := List.intercalate_splitOn sep
  rw [← hs, h, List.intercalate_splitOn]

/-! ### Names of targets -/

namespace Target

/-- A character of an identifier is none of those that separate or mark names. -/
theorem isNameChar_ne {c : Char} (h : isNameChar c = true) : c ≠ '/' ∧ c ≠ '.' ∧ c ≠ '-' := by
  refine ⟨?_, ?_, ?_⟩
  · rintro rfl
    exact absurd h (by decide)
  · rintro rfl
    exact absurd h (by decide)
  · rintro rfl
    exact absurd h (by decide)

/-- A component without fault is an identifier. -/
theorem componentFault?_eq_none {part : List Char} (h : componentFault? part = none) :
    part ≠ [] ∧ ∀ c ∈ part, isNameChar c = true := by
  cases part with
  | nil => cases h
  | cons c rest =>
    simp only [componentFault?] at h
    split at h
    · cases h
    split at h
    · cases h
    rename_i hstart
    split at h
    · rename_i hrest
      refine ⟨List.cons_ne_nil c rest, ?_⟩
      intro d hd
      rcases List.mem_cons.1 hd with rfl | hd
      · have hs : isNameStart d = true := by simpa using hstart
        simp only [isNameStart, isNameChar, Bool.or_eq_true, Char.isAlphanum] at hs ⊢
        rcases hs with hs | hs
        · exact .inl (.inl hs)
        · exact .inr hs
      · exact List.all_eq_true.1 hrest d hd
    · cases h

/-- The name is identifiers joined by dots. -/
def Named (t : Target) : Prop :=
  ∀ part ∈ List.splitOn '.' t.name.toList, part ≠ [] ∧ ∀ c ∈ part, isNameChar c = true

theorem named_of_validate {t : Target} (h : t.validate = .ok ()) : t.Named := by
  intro part hpart
  have hname : nameFault? t.name.toList = none := by
    unfold validate validateName at h
    cases hn : nameFault? t.name.toList with
    | none => rfl
    | some fault =>
      rw [hn] at h
      cases h
  unfold nameFault? at hname
  split at hname
  · cases hname
  · exact componentFault?_eq_none (List.findSome?_eq_none_iff.1 hname part hpart)

/-- The names of the directories around the module. -/
def dirNames (t : Target) : List String := (List.splitOn '.' t.name.toList).dropLast.map String.ofList

theorem plainName_part {part : List Char} (hne : part ≠ [])
    (hchars : ∀ c ∈ part, isNameChar c = true) : PlainName (String.ofList part) := by
  apply plainName_of_dotless
  · intro h
    exact (isNameChar_ne (hchars _ (by simpa using h))).1 rfl
  · intro h
    exact (isNameChar_ne (hchars _ (by simpa using h))).2.1 rfl
  · intro h
    exact hne (by simpa using congrArg String.toList h)

variable {t : Target}

theorem plainName_of_mem_dirNames (h : t.Named) {name : String} (hn : name ∈ t.dirNames) :
    PlainName name := by
  obtain ⟨part, hpart, rfl⟩ := List.mem_map.1 hn
  obtain ⟨hne, hchars⟩ := h part (List.dropLast_subset _ hpart)
  exact plainName_part hne hchars

theorem notMem_of_mem_dirNames (h : t.Named) {name : String} (hn : name ∈ t.dirNames) :
    '.' ∉ name.toList ∧ '-' ∉ name.toList := by
  obtain ⟨part, hpart, rfl⟩ := List.mem_map.1 hn
  obtain ⟨-, hchars⟩ := h part (List.dropLast_subset _ hpart)
  rw [String.toList_ofList]
  constructor
  · intro hm
    exact (isNameChar_ne (hchars _ hm)).2.1 rfl
  · intro hm
    exact (isNameChar_ne (hchars _ hm)).2.2 rfl

/-- The module's stem is the last of the name's components. -/
theorem splitOn_name (t : Target) :
    List.splitOn '.' t.name.toList =
      (List.splitOn '.' t.name.toList).dropLast ++ [t.moduleStem.toList] := by
  rw [moduleStem, String.toList_ofList, Grammar.lastComponent]
  have hne := List.splitOn_ne_nil '.' t.name.toList
  rw [List.getLast?_eq_some_getLast hne, Option.getD_some, List.dropLast_concat_getLast]

theorem moduleStem_named (h : t.Named) :
    t.moduleStem.toList ≠ [] ∧ ∀ c ∈ t.moduleStem.toList, isNameChar c = true := by
  apply h
  rw [splitOn_name]
  exact List.mem_append_right _ List.mem_cons_self

/-- A name that holds no dash and no slash, and is not only dots. -/
theorem Named.plainName (h : t.Named) : PlainName t.name ∧ '-' ∉ t.name.toList := by
  have hchars : ∀ c ∈ t.name.toList, isNameChar c = true ∨ c = '.' := by
    intro c hc
    by_cases hdot : c = '.'
    · exact .inr hdot
    · obtain ⟨w, hw, hcw⟩ := mem_piece_of_mem hc hdot
      exact .inl ((h w hw).2 c hcw)
  have hnot {c : Char} (hc : isNameChar c = false) (hdot : c ≠ '.') : c ∉ t.name.toList := by
    intro hm
    rcases hchars c hm with hn | hn
    · rw [hc] at hn
      cases hn
    · exact hdot hn
  refine ⟨⟨hnot (by decide) (by decide), ?_, ?_, ?_⟩, hnot (by decide) (by decide)⟩
  · intro hn
    exact (h [] (by rw [hn]; decide)).1 rfl
  · intro hn
    exact (h [] (by rw [hn]; decide)).1 rfl
  · intro hn
    exact (h [] (by rw [hn]; decide)).1 rfl

/-- The name can be read off the directories around the module and its stem. -/
theorem name_eq {u : Target} (hd : t.dirNames = u.dirNames) (hs : t.moduleStem = u.moduleStem) :
    t.name = u.name := by
  have hsplit : List.splitOn '.' t.name.toList = List.splitOn '.' u.name.toList := by
    rw [splitOn_name t, splitOn_name u, hs]
    congr 1
    exact (List.map_inj_right fun x y hxy => String.ofList_injective hxy).1 hd
  exact String.toList_injective (splitOn_injective '.' hsplit)

end Target

/-! ### Names of objects and modules -/

theorem notMem_of_mem_components {t : List Char} {name : String}
    (h : .normal name ∈ Path.componentsOf t) : '/' ∉ name.toList := by
  have hparts {r : List Char} {parts : List (List Char)} (hp : parts ⊆ List.splitOn '/' r)
      (hn : .normal name ∈ parts.filterMap Component.ofPart?) : '/' ∉ name.toList := by
    obtain ⟨part, hpart, hof⟩ := List.mem_filterMap.1 hn
    have hname : name = String.ofList part := by
      unfold Component.ofPart? at hof
      split at hof
      · cases hof
      split at hof
      · cases hof
      · injection hof with hof
        injection hof with hof
        exact hof.symm
    rw [hname, String.toList_ofList]
    exact (notMem_of_mem_splitOn (hp hpart)).1
  unfold Path.componentsOf at h
  split at h
  · rename_i r
    rcases List.mem_cons.1 h with h | h
    · cases h
    · exact hparts (List.Subset.refl _) h
  · split at h
    · rename_i parts hsplit
      rcases List.mem_cons.1 h with h | h
      · cases h
      · exact hparts (hsplit ▸ List.subset_cons_self _ parts) h
    · exact hparts (List.Subset.refl _) h

theorem notMem_fileStem {p : Path} {stem : String} (h : p.fileStem? = some stem) :
    '/' ∉ stem.toList := by
  obtain ⟨name, hname, rfl⟩ := Option.map_eq_some_iff.1 h
  have hmem : '/' ∉ name.toList := by
    unfold Path.fileName? at hname
    split at hname
    · rename_i last hlast
      injection hname with hname
      subst hname
      exact notMem_of_mem_components (List.mem_of_getLast? hlast)
    · cases hname
  rw [String.toList_ofList, Path.stemOf]
  split
  · exact hmem
  · intro hin
    apply hmem
    have hdrop := List.mem_of_mem_drop (List.mem_reverse.1 hin)
    exact List.mem_reverse.1 ((List.dropWhile_sublist _).subset hdrop)

theorem notMem_ofPath (p : Path) : '/' ∉ (Digest.ofPath p).toList := by
  have hdigit : ∀ n < 16, Sha256.hexDigit n ≠ '/' := by decide
  rw [Digest.ofPath, String.toList_ofList]
  intro h
  have h := List.mem_of_mem_take h
  rw [Digest.ofTexts, Sha256.hexDigest, String.toList_ofList, Sha256.hex, List.mem_flatMap] at h
  obtain ⟨w, -, hw⟩ := h
  obtain ⟨shift, -, hdigit'⟩ := List.mem_map.1 hw
  exact hdigit _ (Nat.mod_lt _ (by decide)) hdigit'

theorem Toolchain.objectEnding_eq (tc : Toolchain) :
    tc.objectEnding = "o" ∨ tc.objectEnding = "obj" := by
  cases tc with
  | gnu => exact .inl rfl
  | msvc => exact .inr rfl

theorem Toolchain.moduleEnding_eq (tc : Toolchain) :
    tc.moduleEnding = "so" ∨ tc.moduleEnding = "dll" := by
  cases tc with
  | gnu => exact .inl rfl
  | msvc => exact .inr rfl

/-- The two manners of linking differ in the first argument, and each names the output at
    a place of its own. -/
theorem Toolchain.output_eq_of_linkCommand {tc tc' : Toolchain} {l l' : Linking}
    (h : (tc.linkCommand l).argv = (tc'.linkCommand l').argv) : l.output = l'.output := by
  have houtput : l.output.text = l'.output.text := by
    cases tc with
    | gnu cc family =>
      cases tc' with
      | gnu cc' family' =>
        simp [linkCommand, Command.argv] at h
        exact h.2.1
      | msvc cl' link' => simp [linkCommand, Command.argv] at h
    | msvc cl link =>
      cases tc' with
      | gnu cc' family' => simp [linkCommand, Command.argv] at h
      | msvc cl' link' =>
        simp [linkCommand, Command.argv] at h
        exact h.2.1
  exact congrArg Path.mk houtput

/-- An object's file name is one step down, and there is a dash in it. -/
theorem BuildContext.plainName_objectName (c : BuildContext) (source : Path) :
    PlainName (objectName source c.toolchain.objectEnding) ∧
      '-' ∈ (objectName source c.toolchain.objectEnding).toList := by
  have hstem : '/' ∉ (source.fileStem?.getD "source").toList := by
    cases hs : source.fileStem? with
    | none => decide
    | some stem => exact notMem_fileStem hs
  have hending : '/' ∉ c.toolchain.objectEnding.toList := by
    rcases c.toolchain.objectEnding_eq with h | h
    · rw [h]
      decide
    · rw [h]
      decide
  have hdash : "-".toList = ['-'] := rfl
  have hdot : ".".toList = ['.'] := rfl
  have hmem : '-' ∈ (objectName source c.toolchain.objectEnding).toList := by
    simp [objectName, hdash]
  refine ⟨plainName_of_dash ?_ hmem, hmem⟩
  simp only [objectName, String.toList_append, hdash, hdot, List.mem_append, List.mem_singleton]
  rintro ((((h | h) | h) | h) | h)
  · exact hstem h
  · exact absurd h (by decide)
  · exact notMem_ofPath source h
  · exact absurd h (by decide)
  · exact hending h

/-- A module's file name: an identifier, a dot and one of two endings. -/
theorem BuildContext.moduleFileName_eq (c : BuildContext) (t : Target) :
    (t.moduleFileName c.toolchain.moduleEnding).toList =
      t.moduleStem.toList ++ '.' :: c.toolchain.moduleEnding.toList := by
  have hdot : ".".toList = ['.'] := rfl
  have hne : c.toolchain.moduleEnding.isEmpty = false := by
    rcases c.toolchain.moduleEnding_eq with h | h
    · rw [h]
      decide
    · rw [h]
      decide
  simp [Target.moduleFileName, hne, hdot]

theorem BuildContext.notMem_moduleEnding (c : BuildContext) :
    '.' ∉ c.toolchain.moduleEnding.toList ∧ '/' ∉ c.toolchain.moduleEnding.toList ∧
      '-' ∉ c.toolchain.moduleEnding.toList := by
  rcases c.toolchain.moduleEnding_eq with h | h
  · rw [h]
    decide
  · rw [h]
    decide

/-- A module's file name does not begin with a dot. -/
theorem BuildContext.moduleFileName_ne (c : BuildContext) {t : Target} (h : t.Named) {s : String}
    (hs : s.toList.head? = some '.') : t.moduleFileName c.toolchain.moduleEnding ≠ s := by
  obtain ⟨hne, hchars⟩ := Target.moduleStem_named h
  obtain ⟨x, r, hstem⟩ := List.exists_cons_of_ne_nil hne
  intro he
  have hhead := congrArg (fun s : String => s.toList.head?) he
  rw [c.moduleFileName_eq, hstem, hs] at hhead
  have hx : x = '.' := Option.some.inj hhead
  exact (Target.isNameChar_ne (hchars x (hstem ▸ List.mem_cons_self))).2.1 hx

/-- A module's file name is one step down, and there is no dash in it. -/
theorem BuildContext.plainName_moduleFileName (c : BuildContext) {t : Target} (h : t.Named) :
    PlainName (t.moduleFileName c.toolchain.moduleEnding) ∧
      '-' ∉ (t.moduleFileName c.toolchain.moduleEnding).toList := by
  obtain ⟨hne, hchars⟩ := Target.moduleStem_named h
  obtain ⟨-, hslash, hdash⟩ := c.notMem_moduleEnding
  have hnot {x : Char} (hx : Target.isNameChar x = false) (hdot : x ≠ '.')
      (hend : x ∉ c.toolchain.moduleEnding.toList) :
      x ∉ (t.moduleFileName c.toolchain.moduleEnding).toList := by
    rw [c.moduleFileName_eq, List.mem_append, List.mem_cons]
    rintro (h | h | h)
    · rw [hchars x h] at hx
      cases hx
    · exact hdot h
    · exact hend h
  have hempty : t.moduleFileName c.toolchain.moduleEnding ≠ "" := by
    intro he
    have hnil := congrArg String.toList he
    rw [c.moduleFileName_eq] at hnil
    exact hne (List.append_eq_nil_iff.1 hnil).1
  exact ⟨⟨hnot (by decide) (by decide) hslash, hempty, c.moduleFileName_ne h rfl,
    c.moduleFileName_ne h rfl⟩, hnot (by decide) (by decide) hdash⟩

/-! ### The places of results -/

namespace BuildContext

@[simp]
theorem output_compileStep (c : BuildContext) (t : Target) (source : Path) :
    (c.compileStep t source).output = c.objectPath t source := by
  rw [compileStep]

@[simp]
theorem output_linkStep (c : BuildContext) (t : Target) : (c.linkStep t).output = c.modulePath t := by
  rw [linkStep]

theorem locate_objectPath (c : BuildContext) {t : Target} (h : t.Named) (source : Path)
    (cwd : Location) :
    (c.objectPath t source).locate cwd =
      c.outputDir.locate cwd ++ ["obj", t.name, objectName source c.toolchain.objectEnding] := by
  have hobj : PlainName "obj" := ⟨by decide, by decide, by decide, by decide⟩
  rw [objectPath, objectDir, locate_child (c.plainName_objectName source).1,
    locate_child h.plainName.1, locate_child hobj]
  simp

theorem locate_modulePath (c : BuildContext) {t : Target} (h : t.Named) (cwd : Location) :
    (c.modulePath t).locate cwd =
      c.outputDir.locate cwd ++ (t.dirNames ++ [t.moduleFileName c.toolchain.moduleEnding]) := by
  have hempty (l : Location) : (⟨""⟩ : Path).locate l = l := rfl
  have hdir := locate_children (fun n hn => Target.plainName_of_mem_dirNames h hn) ⟨""⟩
    (c.outputDir.locate cwd)
  rw [modulePath, locate_join, Target.modulePath, locate_child (c.plainName_moduleFileName h).1,
    Target.moduleDir, ← Target.dirNames, hdir, hempty, List.append_assoc]

/-- The names on the way from the output directory to a module. -/
def moduleNames (c : BuildContext) (t : Target) : List String :=
  t.dirNames ++ [t.moduleFileName c.toolchain.moduleEnding]

theorem plainName_of_mem_moduleNames (c : BuildContext) {t : Target} (h : t.Named) {name : String}
    (hn : name ∈ c.moduleNames t) : PlainName name ∧ '-' ∉ name.toList := by
  rcases List.mem_append.1 hn with hn | hn
  · exact ⟨Target.plainName_of_mem_dirNames h hn, (Target.notMem_of_mem_dirNames h hn).2⟩
  · rw [List.mem_singleton.1 hn]
    exact c.plainName_moduleFileName h

/-- The target's name can be read off the way to its module, whatever the ending is. -/
theorem name_eq_of_moduleNames {c c' : BuildContext} {t t' : Target} (h : t.Named)
    (hn : c.moduleNames t = c'.moduleNames t') : t.name = t'.name := by
  obtain ⟨hdirs, hfile⟩ := List.append_inj' hn rfl
  have hchars := congrArg String.toList (List.singleton_inj.1 hfile)
  rw [c.moduleFileName_eq, c'.moduleFileName_eq] at hchars
  have hdot : '.' ∉ t.moduleStem.toList := fun hd =>
    (Target.isNameChar_ne ((Target.moduleStem_named h).2 _ hd)).2.1 rfl
  have hstem := ((List.append_cons_inj_of_notMem hdot c.notMem_moduleEnding.1).1 hchars).1
  exact Target.name_eq hdirs (String.toList_injective hstem)

end BuildContext

/-- A project and a profile: where its commands run and where its results are kept. -/
structure Project where
  root : Path
  outputDir : Path

namespace Project

/-- The project and the profile of a workspace. -/
def of (w : Workspace) : Project := ⟨w.root, w.outputDir⟩

def cachePath (P : Project) : Path := P.outputDir.child ".fingerprints.json"

/-- The context builds this project. -/
structure Holds (P : Project) (c : BuildContext) : Prop where
  root : c.root = P.root
  outputDir : c.outputDir = P.outputDir
  fingerprintPath : c.fingerprintPath = P.cachePath

theorem holds_of {w : Workspace} {tc : Toolchain} {s : ToolchainSettings} {c : BuildContext}
    (h : BuildContext.of w tc s = .ok c) : (Project.of w).Holds c := by
  unfold BuildContext.of at h
  cases hp : w.profile with
  | error e =>
    rw [hp] at h
    cases h
  | ok profile =>
    rw [hp] at h
    injection h with h
    subst h
    exact ⟨rfl, rfl, rfl⟩

/-- The plan was made for some targets of this project. -/
structure Plans (P : Project) (c : BuildContext) (plan : BuildPlan) : Prop where
  holds : P.Holds c
  targets : ∃ ts, BuildPlan.ofTargets c ts = .ok plan

variable {P : Project} {c c' : BuildContext} {plan plan' : BuildPlan}

namespace Plans

theorem steps_of_targets (h : P.Plans c plan) :
    ∃ ts : List Target, (∀ t ∈ ts, t.Named) ∧ plan.compileSteps = ts.flatMap c.compileSteps ∧
      plan.linkSteps = ts.map c.linkStep := by
  obtain ⟨ts, hts⟩ := h.targets
  unfold BuildPlan.ofTargets at hts
  cases hv : ts.forM Target.validate with
  | error e =>
    rw [hv] at hts
    cases hts
  | ok u =>
    rw [hv] at hts
    injection hts with hts
    subst hts
    refine ⟨ts, ?_, rfl, rfl⟩
    intro t ht
    apply Target.named_of_validate
    clear h
    induction ts with
    | nil => cases ht
    | cons t' ts ih =>
      rw [List.forM_eq_forM, List.forM_cons] at hv
      cases hv' : t'.validate with
      | error e =>
        rw [hv'] at hv
        cases hv
      | ok u' =>
        rw [hv'] at hv
        rcases List.mem_cons.1 ht with rfl | ht
        · exact hv'
        · exact ih hv ht

theorem compileStep (h : P.Plans c plan) {s : CompileStep} (hs : s ∈ plan.compileSteps) :
    ∃ t : Target, t.Named ∧ ∃ source, s = c.compileStep t source := by
  obtain ⟨ts, hnamed, hcs, -⟩ := h.steps_of_targets
  rw [hcs, List.mem_flatMap] at hs
  obtain ⟨t, ht, hs⟩ := hs
  obtain ⟨source, -, rfl⟩ := List.mem_map.1 hs
  exact ⟨t, hnamed t ht, source, rfl⟩

theorem linkStep (h : P.Plans c plan) {s : LinkStep} (hs : s ∈ plan.linkSteps) :
    ∃ t : Target, t.Named ∧ s = c.linkStep t := by
  obtain ⟨ts, hnamed, -, hls⟩ := h.steps_of_targets
  rw [hls] at hs
  obtain ⟨t, ht, rfl⟩ := List.mem_map.1 hs
  exact ⟨t, hnamed t ht, rfl⟩

/-- The objects of a link step are those of compile steps of the plan. -/
theorem exists_compileStep (h : P.Plans c plan) {s : LinkStep} (hs : s ∈ plan.linkSteps) {o : Path}
    (ho : o ∈ s.objects) : ∃ s' ∈ plan.compileSteps, s'.output = o := by
  obtain ⟨ts, -, hc, hl⟩ := h.steps_of_targets
  rw [hl] at hs
  obtain ⟨g, hg, rfl⟩ := List.mem_map.1 hs
  obtain ⟨source, hsource, rfl⟩ := List.mem_map.1 ho
  rw [hc]
  exact ⟨c.compileStep g source, List.mem_flatMap.2 ⟨g, hg, List.mem_map.2 ⟨source, hsource, rfl⟩⟩, rfl⟩

end Plans

/-! ### No two results at one place -/

variable {cwd : Location}

/-- What is kept at the place of an object is that object. -/
theorem object_eq_of_location (h : P.Plans c plan) (h' : P.Plans c' plan') {s s' : CompileStep}
    (hs : s ∈ plan.compileSteps) (hs' : s' ∈ plan'.compileSteps)
    (hl : s.output.locate cwd = s'.output.locate cwd) : s.output = s'.output := by
  obtain ⟨t, ht, source, rfl⟩ := h.compileStep hs
  obtain ⟨t', ht', source', rfl⟩ := h'.compileStep hs'
  simp only [BuildContext.output_compileStep, c.locate_objectPath ht, c'.locate_objectPath ht',
    h.holds.outputDir, h'.holds.outputDir] at hl ⊢
  have hnames := List.append_cancel_left hl
  simp only [List.cons.injEq, true_and, and_true] at hnames
  rw [BuildContext.objectPath, BuildContext.objectPath, BuildContext.objectDir,
    BuildContext.objectDir, hnames.1, hnames.2, h.holds.outputDir, h'.holds.outputDir]

/-- At the place of a target's module no other target's module is kept. -/
theorem target_eq_of_location (h : P.Plans c plan) (h' : P.Plans c' plan') {s s' : LinkStep}
    (hs : s ∈ plan.linkSteps) (hs' : s' ∈ plan'.linkSteps)
    (hl : s.output.locate cwd = s'.output.locate cwd) : s.target = s'.target := by
  obtain ⟨t, ht, rfl⟩ := h.linkStep hs
  obtain ⟨t', ht', rfl⟩ := h'.linkStep hs'
  simp only [BuildContext.linkStep, c.locate_modulePath ht, c'.locate_modulePath ht',
    h.holds.outputDir, h'.holds.outputDir] at hl ⊢
  exact BuildContext.name_eq_of_moduleNames ht (List.append_cancel_left hl)

/-- An object's file name has a dash, a module's has none. -/
theorem object_ne_module (h : P.Plans c plan) (h' : P.Plans c' plan') {s : CompileStep}
    {s' : LinkStep} (hs : s ∈ plan.compileSteps) (hs' : s' ∈ plan'.linkSteps) :
    s.output.locate cwd ≠ s'.output.locate cwd := by
  obtain ⟨t, ht, source, rfl⟩ := h.compileStep hs
  obtain ⟨t', ht', rfl⟩ := h'.linkStep hs'
  simp only [BuildContext.output_compileStep, BuildContext.output_linkStep, c.locate_objectPath ht,
    c'.locate_modulePath ht', h.holds.outputDir, h'.holds.outputDir]
  intro hl
  have hlast := congrArg List.getLast? (List.append_cancel_left hl)
  rw [List.getLast?_concat] at hlast
  have hname := Option.some.inj hlast
  apply (c'.plainName_moduleFileName ht').2
  rw [← hname]
  exact (c.plainName_objectName source).2

theorem locate_cachePath (P : Project) (cwd : Location) :
    P.cachePath.locate cwd = P.outputDir.locate cwd ++ [".fingerprints.json"] := by
  have hplain : PlainName ".fingerprints.json" := ⟨by decide, by decide, by decide, by decide⟩
  rw [cachePath, locate_child hplain]

theorem object_ne_cache (h : P.Plans c plan) {s : CompileStep} (hs : s ∈ plan.compileSteps) :
    s.output.locate cwd ≠ P.cachePath.locate cwd := by
  obtain ⟨t, ht, source, rfl⟩ := h.compileStep hs
  simp only [BuildContext.output_compileStep, c.locate_objectPath ht, locate_cachePath, h.holds.outputDir]
  intro hl
  have hlength := congrArg List.length (List.append_cancel_left hl)
  cases hlength

/-- A module's file name begins with a letter or an underscore, the cache's with a dot. -/
theorem module_ne_cache (h : P.Plans c plan) {s : LinkStep} (hs : s ∈ plan.linkSteps) :
    s.output.locate cwd ≠ P.cachePath.locate cwd := by
  obtain ⟨t, ht, rfl⟩ := h.linkStep hs
  simp only [BuildContext.output_linkStep, c.locate_modulePath ht, locate_cachePath, h.holds.outputDir]
  intro hl
  have hlast := congrArg List.getLast? (List.append_cancel_left hl)
  rw [List.getLast?_concat] at hlast
  exact c.moduleFileName_ne ht rfl (Option.some.inj hlast)

/-- A link step's arguments tell where its module is kept. -/
theorem module_eq_of_argv (h : P.Plans c plan) (h' : P.Plans c' plan') {s s' : LinkStep}
    (hs : s ∈ plan.linkSteps) (hs' : s' ∈ plan'.linkSteps)
    (ha : s.command.argv = s'.command.argv) : s.output = s'.output := by
  obtain ⟨t, -, rfl⟩ := h.linkStep hs
  obtain ⟨t', -, rfl⟩ := h'.linkStep hs'
  exact Toolchain.output_eq_of_linkCommand ha

end Project

end GrammarBuild
