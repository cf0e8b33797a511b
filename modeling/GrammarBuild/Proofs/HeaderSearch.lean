import GrammarBuild.Proofs.DirectoryTexts
import GrammarBuild.Proofs.Inputs

/-
  GrammarBuild/Proofs/HeaderSearch.lean
  =====================================
  **The headers below a directory** — where the text of a directory stands for itself in
  a pattern, the search for headers finds files below it whose names end in `.h`, and all
  of those that the host reads by their names from the directory on
  (`exists_files_headers`).
-/

namespace GrammarBuild

open FileTree

/-- Two paths that take the same steps from the same beginning. -/
def Path.SameSteps (p q : Path) : Prop := p.isAbsolute = q.isAbsolute ∧ p.names = q.names

namespace Path.SameSteps

variable {p q r : Path}

theorem trans (h : p.SameSteps q) (h' : q.SameSteps r) : p.SameSteps r :=
  ⟨h.1.trans h'.1, h.2.trans h'.2⟩

theorem symm (h : p.SameSteps q) : q.SameSteps p := ⟨h.1.symm, h.2.symm⟩

theorem of_components (h : p.components = q.components) : p.SameSteps q := by
  constructor
  · rw [Bool.eq_iff_iff, components_head?, components_head?, h]
  · rw [names, h, names]

theorem startOf (h : p.SameSteps q) (cwd : Location) : FileTree.startOf cwd p = FileTree.startOf cwd q := by
  rw [FileTree.startOf, h.1, FileTree.startOf]

theorem locate (h : p.SameSteps q) (cwd : Location) : p.locate cwd = q.locate cwd := by
  rw [← foldl_names, h.2, h.startOf, foldl_names]

end Path.SameSteps

namespace FileTree

variable {t : FileTree} {cwd : Location} {p q : Path} {bytes : ByteArray}

/-- A file is read if it is there and the host takes the path. -/
theorem readFile_iff (t : FileTree) (cwd : Location) (p : Path) (bytes : ByteArray) :
    t.readFile cwd p = .ok bytes ↔
      t.pathExists cwd p = true ∧ ∃ x, t.node? (p.locate cwd) = some (.file bytes x) := by
  have hopen (found : t.pathExists cwd p = true) {n : Node} (hn : t.node? (p.locate cwd) = some n) :
      t.openRead cwd p = .ok n := by
    rw [openRead, resolve_of_pathExists found]
    simp only [hn]
  constructor
  · intro h
    have found := pathExists_of_readFile h
    obtain ⟨n, hn⟩ := Option.isSome_iff_exists.1 (node?_of_pathExists found)
    refine ⟨found, ?_⟩
    unfold readFile at h
    rw [hopen found hn] at h
    cases n with
    | dir => cases h
    | file b x =>
      have hb : b = bytes := Except.ok.inj h
      exact ⟨x, by rw [hn, hb]⟩
  · rintro ⟨found, x, hx⟩
    unfold readFile
    rw [hopen found hx]
    rfl

theorem readToDigest_of_readFile (h : t.readFile cwd p = .ok bytes) :
    t.readToDigest cwd p = .ok bytes := by
  obtain ⟨found, x, hx⟩ := (readFile_iff t cwd p bytes).1 h
  have hopen : t.openRead cwd p = .ok (.file bytes x) := by
    rw [openRead, resolve_of_pathExists found]
    simp only [hx]
  unfold readToDigest
  rw [hopen]
  rfl

theorem exists_readFile_of_isFile (h : t.isFile cwd p = true) : ∃ bytes, t.readFile cwd p = .ok bytes := by
  have found : t.pathExists cwd p = true := by
    unfold isFile at h
    unfold pathExists
    cases ha : t.at? cwd p with
    | none => simp [ha] at h
    | some n => rfl
  rw [isFile, at?_of_pathExists found] at h
  cases hn : t.node? (p.locate cwd) with
  | none => simp [hn] at h
  | some n =>
    cases n with
    | dir => simp [hn, Node.isFile] at h
    | file bytes x => exact ⟨bytes, (readFile_iff t cwd p bytes).2 ⟨found, x, hn⟩⟩

theorem isFile_of_readFile (h : t.readFile cwd p = .ok bytes) : t.isFile cwd p = true := by
  obtain ⟨found, x, hx⟩ := (readFile_iff t cwd p bytes).1 h
  rw [isFile, at?_of_pathExists found, hx]
  rfl

/-- What is read depends only on the steps of a path that the host takes. -/
theorem readFile_of_sameSteps (same : p.SameSteps q) (check : checkText q = .ok ())
    (noDot : (trail q).getLast? ≠ some ".") (h : t.readFile cwd p = .ok bytes) :
    t.readFile cwd q = .ok bytes := by
  obtain ⟨found, x, hx⟩ := (readFile_iff t cwd p bytes).1 h
  obtain ⟨-, hwalk, hnode, -⟩ := (pathExists_iff t cwd p).1 found
  rw [same.startOf, same.2, same.locate] at hwalk
  rw [same.locate] at hx hnode
  refine (readFile_iff t cwd q bytes).2 ⟨?_, x, hx⟩
  exact (pathExists_iff t cwd q).2 ⟨check, hwalk, hnode, fun hdot => absurd hdot noDot⟩

theorem bytes_eq_of_sameSteps {bytes' : ByteArray} (same : p.SameSteps q)
    (h : t.readFile cwd p = .ok bytes) (h' : t.readFile cwd q = .ok bytes') : bytes = bytes' := by
  obtain ⟨-, x, hx⟩ := (readFile_iff t cwd p bytes).1 h
  obtain ⟨-, x', hx'⟩ := (readFile_iff t cwd q bytes').1 h'
  rw [same.locate, hx'] at hx
  cases hx
  rfl

end FileTree

/-! ### Names of trees -/

/-- A tree in which all names are names that a directory can have. -/
def FileTree.PlainNames (t : FileTree) : Prop := ∀ l, ∀ name ∈ t.names l, PlainName name

instance (name : String) : Decidable (PlainName name) :=
  decidable_of_iff ('/' ∉ name.toList ∧ name ≠ "" ∧ name ≠ "." ∧ name ≠ "..")
    ⟨fun ⟨noSlash, notEmpty, notHere, notUp⟩ => ⟨noSlash, notEmpty, notHere, notUp⟩,
      fun h => ⟨h.noSlash, h.notEmpty, h.notHere, h.notUp⟩⟩

/-- All names from a location on are such names. -/
def FileTree.PlainBelow (t : FileTree) (l : Location) : Prop :=
  ∀ m, l <+: m → ∀ name ∈ t.names m, PlainName name

theorem FileTree.PlainNames.below {t : FileTree} (h : t.PlainNames) (l : Location) : t.PlainBelow l :=
  fun m _ => h m

theorem FileTree.PlainNames.of_toList {t : FileTree}
    (plain : ∀ e ∈ t.toList, ∀ name ∈ e.1, PlainName name) : t.PlainNames := by
  intro l name h
  obtain ⟨n, hn⟩ := mem_toList_of_mem_names h
  exact plain _ hn name (by simp)

/-- The names that lead from a directory down to a header. -/
structure HeaderNames (names : List String) : Prop where
  plain : ∀ name ∈ names, PlainName name
  ending : ∃ last, names.getLast? = some last ∧ ".h".toList <:+ last.toList

theorem HeaderNames.ne_nil {names : List String} (h : HeaderNames names) : names ≠ [] := by
  rintro rfl
  obtain ⟨last, hlast, -⟩ := h.ending
  cases hlast

namespace Glob

variable {t : FileTree} {cwd : Location} {p q : Path} {names : List String}

/-! ### What the host reads can be listed -/

theorem StandsFor.sameSteps (s : StandsFor p q) : p.SameSteps q := ⟨s.isAbsolute, s.names⟩

theorem StandsFor.foldl (s : StandsFor p q) (plain : ∀ name ∈ names, PlainName name) :
    StandsFor (names.foldl Glob.next p) (q.children names) := by
  rw [Path.children_eq_foldl]
  induction names generalizing p q with
  | nil => exact s
  | cons name names ih =>
    exact ih (s.next (plain name List.mem_cons_self)) fun n hn => plain n (List.mem_cons_of_mem name hn)

theorem names_children (plain : ∀ name ∈ names, PlainName name) (p : Path) :
    (p.children names).names = p.names ++ names := by
  rw [Path.names, Path.components_children plain, List.filterMap_append, ← Path.names,
    List.filterMap_map]
  simp [Function.comp_def, Component.name?]

theorem startOf_children (plain : ∀ name ∈ names, PlainName name) (p : Path) (cwd : Location) :
    startOf cwd (p.children names) = startOf cwd p := by
  have habs : (p.children names).isAbsolute = p.isAbsolute := by
    rw [Path.children_eq_foldl]
    induction names generalizing p with
    | nil => rfl
    | cons name names ih =>
      rw [List.foldl_cons, ih (fun n hn => plain n (List.mem_cons_of_mem name hn)), Path.child,
        isAbsolute_join (isAbsolute_name (plain name List.mem_cons_self).noSlash)]
  rw [startOf, habs, startOf]

/-- What is found below a path by names is found through a directory. -/
theorem walk_of_pathExists_children (plain : ∀ name ∈ names, PlainName name) (hne : names ≠ [])
    (found : t.pathExists cwd (p.children names) = true) :
    t.walk (startOf cwd p) p.names = .ok (p.locate cwd) ∧ t.isDirAt (p.locate cwd) = true ∧
      ∃ l, t.walk (p.locate cwd) names = .ok l := by
  obtain ⟨-, hwalk, -, -⟩ := (pathExists_iff t cwd _).1 found
  rw [names_children plain, startOf_children plain] at hwalk
  obtain ⟨k, hk, hdir⟩ := isDirAt_of_walk_append hwalk (.inr hne)
  have hlocate : k = p.locate cwd := by rw [walk_ok hk, foldl_names]
  subst hlocate
  rw [walk_append, hk] at hwalk
  exact ⟨hk, hdir, _, hwalk⟩

/-- A path that goes on has the text of the path in front. -/
theorem prefix_children (plain : ∀ name ∈ names, PlainName name) (p : Path) :
    p.text.toList <+: (p.children names).text.toList := by
  rw [Path.children_eq_foldl]
  induction names generalizing p with
  | nil => exact List.prefix_refl _
  | cons name names ih =>
    refine List.IsPrefix.trans ?_ (ih (fun n hn => plain n (List.mem_cons_of_mem name hn)) _)
    have hempty : (⟨""⟩ : Path).isAbsolute = false := rfl
    have hchild : p.text.toList <+: (p.child "").text.toList := by
      unfold Path.child Path.join
      simp only [hempty, Bool.false_eq_true, if_false]
      split
      · simp
      · simp
    rw [child_empty_append (plain name List.mem_cons_self).noSlash, String.toList_append]
    exact hchild.trans (List.prefix_append _ _)

theorem checkText_of_front (hne : p.text ≠ "") (hfront : p.text.toList <+: q.text.toList)
    (hq : checkText q = .ok ()) : checkText p = .ok () := by
  obtain ⟨hzero, -, hsize⟩ := (checkText_iff q).1 hq
  refine (checkText_iff p).2 ⟨fun hm => hzero (hfront.subset hm), hne, Nat.le_trans ?_ hsize⟩
  obtain ⟨more, hmore⟩ := hfront
  have htext : q.text = p.text ++ String.ofList more := by
    rw [← String.ofList_toList (s := q.text), ← hmore, String.ofList_append, String.ofList_toList]
  rw [htext, String.utf8ByteSize_append]
  exact Nat.le_add_right _ _

/-- On the way to something below a directory, one directory lists the next. -/
theorem listed_of_pathExists (s : StandsFor p q) (hp : p.text ≠ "") (hq : q.text ≠ "")
    (plain : ∀ name ∈ names, PlainName name) (found : t.pathExists cwd (q.children names) = true) :
    Listed t cwd p names := by
  induction names generalizing p q with
  | nil => trivial
  | cons name names ih =>
    have hname := plain name List.mem_cons_self
    have hrest : ∀ n ∈ names, PlainName n := fun n hn => plain n (List.mem_cons_of_mem name hn)
    obtain ⟨hcheck, -, -, -⟩ := (pathExists_iff t cwd _).1 found
    obtain ⟨hwalk, hdir, l, hdown⟩ := walk_of_pathExists_children plain (List.cons_ne_nil name names) found
    obtain ⟨-, hnode, -⟩ := node?_of_walk_cons hname hdown
    refine ⟨?_, ?_, ih (s.next hname) ?_ ?_ hrest ?_⟩
    · rw [isDir_iff, s.names, s.startOf, s.locate]
      exact ⟨s.checkText hp (checkText_of_front hq (prefix_children plain q) hcheck), hwalk, hdir⟩
    · rw [s.locate]
      exact mem_names_iff.2 hnode
    · rw [text_next hname.noSlash]
      exact fun hnil => hname.notEmpty (String.append_eq_empty_iff.1 hnil).2
    · rw [child_empty_append hname.noSlash]
      exact fun hnil => hname.notEmpty (String.append_eq_empty_iff.1 hnil).2
    · rw [Path.children_eq_foldl] at found ⊢
      exact found

theorem locate_next {name : String} (plain : PlainName name) (p : Path) (cwd : Location) :
    (next p name).locate cwd = p.locate cwd ++ [name] := by
  have hstep : isStep name = true := by simp [isStep, plain.notEmpty, plain.notHere]
  have hto : stepTo (p.locate cwd) name = p.locate cwd ++ [name] := by
    simp [stepTo, plain.notHere, plain.notUp]
  have hstart : startOf cwd (next p name) = startOf cwd p := by
    rw [startOf, isAbsolute_next plain.noSlash, startOf]
  rw [← foldl_names, names_next plain.noSlash, List.filter_cons_of_pos hstep, List.filter_nil,
    List.foldl_append, hstart, foldl_names]
  exact hto

/-- Names that are listed are names that the tree has. -/
theorem plain_of_listed (tree : t.PlainBelow (p.locate cwd)) (h : Listed t cwd p names) :
    ∀ name ∈ names, PlainName name := by
  induction names generalizing p with
  | nil => simp
  | cons name names ih =>
    have hname : PlainName name := tree _ (List.prefix_refl _) name h.2.1
    intro n hn
    rcases List.mem_cons.1 hn with rfl | hn
    · exact hname
    · refine ih (fun m hm => tree m ?_) h.2.2 n hn
      rw [locate_next hname] at hm
      exact (List.prefix_append _ _).trans hm

/-- What is found by names from a directory on is walked to from there. -/
theorem walk_of_pathExists_foldl (s : StandsFor p q) (isDir : t.isDir cwd q = true)
    (plain : ∀ name ∈ names, PlainName name)
    (found : t.pathExists cwd (names.foldl next p) = true) : ∃ l, t.walk (q.locate cwd) names = .ok l := by
  have hx := s.foldl plain
  obtain ⟨-, hdir, -⟩ := (isDir_iff t cwd q).1 isDir
  obtain ⟨-, hwalk, -, -⟩ := (pathExists_iff t cwd _).1 found
  rw [hx.names, hx.startOf, names_children plain, startOf_children plain, walk_append, hdir] at hwalk
  exact ⟨_, hwalk⟩

/-! ### Headers -/

theorem nameMatches_iff (plain : ∀ name ∈ names, PlainName name) (hne : names ≠ []) :
    NameMatches headerName (names.foldl next p) ↔ HeaderNames names := by
  obtain ⟨front, last, rfl⟩ := (List.eq_nil_or_concat names).resolve_left hne
  rw [List.concat_eq_append] at plain ⊢
  have hlast := plain last (by simp)
  have hname : ((front ++ [last]).foldl next p).fileName? = some last := by
    rw [List.foldl_append, List.foldl_cons, List.foldl_nil, fileName?_next hlast]
  have hending : Pattern.matchesName headerName last = true ↔ ".h".toList <:+ last.toList :=
    Pattern.matchesName_star ['.', 'h'] last
  constructor
  · rintro ⟨name, hn, hmatch⟩
    rw [hname] at hn
    cases hn
    exact ⟨plain, last, by simp, hending.1 hmatch⟩
  · rintro ⟨-, last', hlast', hsuffix⟩
    rw [List.getLast?_concat] at hlast'
    cases hlast'
    exact ⟨last, hname, hending.2 hsuffix⟩

theorem mem_dropRepeated {x : Path} {ps : List Path} (h : x ∈ dropRepeated ps) : x ∈ ps := by
  fun_induction dropRepeated ps with
  | case1 p q r heq ih =>
    rcases List.mem_cons.1 (ih h) with rfl | hx
    · exact List.mem_cons_self
    · exact List.mem_cons_of_mem _ (List.mem_cons_of_mem _ hx)
  | case2 p q r hne ih =>
    rcases List.mem_cons.1 h with rfl | hx
    · exact List.mem_cons_self
    · exact List.mem_cons_of_mem _ (ih hx)
  | case3 ps hshort => exact h

/-- What is left out is there in another writing. -/
theorem exists_mem_dropRepeated (ps : List Path) :
    ∀ x ∈ ps, ∃ y ∈ dropRepeated ps, y.components = x.components := by
  fun_induction dropRepeated ps with
  | case1 p q r heq ih =>
    intro x hx
    rcases List.mem_cons.1 hx with rfl | hx
    · exact ih x List.mem_cons_self
    · rcases List.mem_cons.1 hx with rfl | hx
      · obtain ⟨y, hy, hyp⟩ := ih p List.mem_cons_self
        exact ⟨y, hy, hyp.trans (Path.compare_eq_eq_iff.1 heq)⟩
      · exact ih x (List.mem_cons_of_mem p hx)
  | case2 p q r hne ih =>
    intro x hx
    rcases List.mem_cons.1 hx with rfl | hx
    · exact ⟨x, List.mem_cons_self, rfl⟩
    · obtain ⟨y, hy, hyx⟩ := ih x hx
      exact ⟨y, List.mem_cons_of_mem p hy, hyx⟩
  | case3 ps hshort => exact fun x hx => ⟨x, hx, rfl⟩

theorem fuelFor_enough (t : FileTree) (front : List Char) :
    ∃ fuel, fuelFor t front = fuel + 2 * (partsBefore front).length ∧ 2 * t.toList.length + 2 ≤ fuel := by
  have hmul : 4 * (partsBefore front).length + 12 ≤ 4 * ((partsBefore front).length + 3) := by omega
  have hfuel : fuelFor t front =
      4 * ((partsBefore front).length + 3) * t.toList.length +
        4 * ((partsBefore front).length + 3) * 2 := Nat.mul_add _ _ _
  have htwelve : 12 * t.toList.length ≤ 4 * ((partsBefore front).length + 3) * t.toList.length :=
    Nat.mul_le_mul_right _ (by omega)
  exact ⟨fuelFor t front - 2 * (partsBefore front).length, by omega, by omega⟩

/-- The search for the headers below a directory succeeds; it sorts the files that can be
    listed by the names of a header, from a path on that stands for the directory. -/
theorem exists_found_headers {dir : Path} {front : List Char} (hf : FrontOf dir front)
    (tree : t.PlainBelow (dir.locate cwd)) (isDir : t.isDir cwd dir = true) (literal : dir.Literal) :
    ∃ found : List Path, files t cwd dir CompileFingerprint.headerPatterns =
        .ok (dropRepeated (found.mergeSort fun p q => compare p q != .gt)) ∧
      ∀ x, x ∈ found ↔ ∃ names, HeaderNames names ∧ x = names.foldl next (arrival dir front) ∧
        Listed t cwd (arrival dir front) names ∧ t.isFile cwd x = true := by
  have hne := ((checkText_iff dir).1 ((isDir_iff t cwd dir).1 isDir).1).2.1
  have hstands := standsFor_arrival hf hne
  obtain ⟨fuel, hfuel, henough⟩ := fuelFor_enough t front
  have hbelow : below t cwd (fuelFor t front) ((partsBefore front).map Pattern.ofChars ++
      [[.anyDirs], headerName]) (found t cwd (start dir)) =
      below t cwd fuel [[.anyDirs], headerName] (found t cwd (arrival dir front)) := by
    rw [hfuel]
    refine below_literals (by simp) fuel fun parts hparts => isDir_of_leading hf literal isDir ?_
    exact hparts.map String.ofList
  have hmem (x : Found) : x ∈ below t cwd fuel [[.anyDirs], headerName] (found t cwd (arrival dir front)) ↔ _ :=
    mem_below_dirs (by decide)
  have hpaths : paths t cwd (dir.child "**/*.h").text = _ := paths_eq_below hf literal
  rw [hbelow] at hpaths
  generalize below t cwd fuel [[.anyDirs], headerName] (found t cwd (arrival dir front)) = all at hmem hpaths
  refine ⟨(all.map Found.path).filter (t.isFile cwd), ?_, fun x => ?_⟩
  · unfold files CompileFingerprint.headerPatterns
    rw [List.mapM_cons, hpaths]
    simp [Failure.lift, Failure.within, Except.mapError, bind, Except.bind, pure, Except.pure]
  · rw [List.mem_filter, List.mem_map]
    constructor
    · rintro ⟨⟨found, hfound, rfl⟩, hfile⟩
      obtain ⟨names, hnames, hlisted, rfl, hmatch, -⟩ := (hmem found).1 hfound
      have plain := plain_of_listed (hstands.locate cwd ▸ tree) hlisted
      exact ⟨names, (nameMatches_iff plain hnames).1 hmatch, rfl, hlisted, hfile⟩
    · rintro ⟨names, header, rfl, hlisted, hfile⟩
      have hthere : t.pathExists cwd (names.foldl next (arrival dir front)) = true := by
        obtain ⟨bytes, hbytes⟩ := exists_readFile_of_isFile hfile
        exact pathExists_of_readFile hbytes
      obtain ⟨l, hdown⟩ := walk_of_pathExists_foldl hstands isDir header.plain hthere
      have hdepth := length_le_toList header.plain hdown
      refine ⟨⟨_, (hmem _).2 ⟨names, header.ne_nil, hlisted, rfl, ?_, by omega⟩, rfl⟩, hfile⟩
      exact (nameMatches_iff header.plain header.ne_nil).2 header

/-- What the search for the headers below a directory finds are headers below the directory,
    and it finds all that the host reads by their names from there. -/
theorem exists_files_headers {dir : Path} (tree : t.PlainNames) (isDir : t.isDir cwd dir = true)
    (literal : dir.Literal) :
    ∃ found, files t cwd dir CompileFingerprint.headerPatterns = .ok found ∧
      (∀ x ∈ found, ∃ names bytes, HeaderNames names ∧ x.SameSteps (dir.children names) ∧
        t.readFile cwd x = .ok bytes) ∧
      ∀ names bytes, HeaderNames names → t.readFile cwd (dir.children names) = .ok bytes →
        ∃ x ∈ found, x.SameSteps (dir.children names) := by
  have hne := ((checkText_iff dir).1 ((isDir_iff t cwd dir).1 isDir).1).2.1
  obtain ⟨front, hf⟩ := exists_frontOf hne
  have hstands := standsFor_arrival hf hne
  have harrival : t.isDir cwd (arrival dir front) = true :=
    isDir_of_leading hf literal isDir (List.prefix_refl _)
  have harrivalText := ((checkText_iff _).1 ((isDir_iff t cwd _).1 harrival).1).2.1
  obtain ⟨found, hfiles, hmem⟩ := exists_found_headers hf (tree.below _) isDir literal
  refine ⟨_, hfiles, fun x hx => ?_, fun names bytes header hread => ?_⟩
  · obtain ⟨names, header, rfl, -, hfile⟩ := (hmem x).1 (List.mem_mergeSort.1 (mem_dropRepeated hx))
    obtain ⟨bytes, hbytes⟩ := exists_readFile_of_isFile hfile
    exact ⟨names, bytes, header, (hstands.foldl header.plain).sameSteps, hbytes⟩
  · have hfound := pathExists_of_readFile hread
    have hsame := (hstands.foldl header.plain).sameSteps
    have hlisted := listed_of_pathExists hstands harrivalText hne header.plain hfound
    have hcheck : checkText (names.foldl next (arrival dir front)) = .ok () := by
      obtain ⟨hcheck, -, -, -⟩ := (pathExists_iff t cwd _).1 hfound
      refine (hstands.foldl header.plain).checkText ?_ hcheck
      exact text_foldl_next_ne (gapless_of_plainNames header.plain)
        (fun n hn => (header.plain n hn).noSlash) harrivalText
    have hdot : (trail (names.foldl next (arrival dir front))).getLast? ≠ some "." := by
      obtain ⟨init, last, heq⟩ := (List.eq_nil_or_concat names).resolve_left header.ne_nil
      rw [List.concat_eq_append] at heq
      subst heq
      rw [List.foldl_append, List.foldl_cons, List.foldl_nil]
      exact getLast?_trail_next (header.plain last (by simp))
    have hfile := isFile_of_readFile (readFile_of_sameSteps hsame.symm hcheck hdot hread)
    obtain ⟨x, hx, hcomponents⟩ := exists_mem_dropRepeated _ _
      (List.mem_mergeSort.2 ((hmem _).2 ⟨names, header, rfl, hlisted, hfile⟩))
    exact ⟨x, hx, (Path.SameSteps.of_components hcomponents).trans hsame⟩

end Glob

end GrammarBuild
