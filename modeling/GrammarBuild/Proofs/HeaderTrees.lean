import GrammarBuild.Proofs.HeaderSearch

/-
  GrammarBuild/Proofs/HeaderTrees.lean
  ====================================
  **Headers in two trees** — where two trees are the same below a directory, the search for
  headers finds the same paths there, in the same order (`files_headers_same`), so that a
  compile step with such include directories reads the same (`ofStep_same`), whatever is
  made elsewhere (`WithMade.ofStep_eq`).

  A search does not only go by what is below the directory, as its fuel depends on the whole
  tree, and what it comes to is sorted in the end.  So the two results have the same
  members, and a sorted list without repetitions is told by its members.
-/

namespace GrammarBuild

open FileTree

namespace Glob

/-! ### Sorted lists without repetitions -/

/-- Of a sorted list a strictly ascending one is left. -/
theorem ascending_dropRepeated {ps : List Path} (sorted : ps.Pairwise fun p q => compare p q ≠ .gt) :
    (dropRepeated ps).Pairwise fun p q => compare p q = .lt := by
  fun_induction dropRepeated ps with
  | case1 p q r heq ih =>
    obtain ⟨hp, hrest⟩ := List.pairwise_cons.1 sorted
    obtain ⟨-, hr⟩ := List.pairwise_cons.1 hrest
    exact ih (List.pairwise_cons.2 ⟨fun x hx => hp x (List.mem_cons_of_mem q hx), hr⟩)
  | case2 p q r hne ih =>
    obtain ⟨hp, hrest⟩ := List.pairwise_cons.1 sorted
    have hpq : compare p q = .lt := by
      have hle := hp q List.mem_cons_self
      revert hne hle
      cases compare p q with
      | lt => intros; rfl
      | eq => intro hne; exact absurd rfl hne
      | gt => intro _ hle; exact absurd rfl hle
    refine List.pairwise_cons.2 ⟨fun x hx => ?_, ih hrest⟩
    rcases List.mem_cons.1 (mem_dropRepeated hx) with rfl | hx
    · exact hpq
    · have hqx := (List.pairwise_cons.1 hrest).1 x hx
      exact Std.TransCmp.lt_of_lt_of_isLE hpq (Ordering.isLE_iff_ne_gt.2 hqx)
  | case3 ps short =>
    rcases ps with _ | ⟨p, _ | ⟨q, r⟩⟩
    · exact .nil
    · exact List.pairwise_singleton _ _
    · exact absurd rfl (short p q r)

/-- Sorting lists with the same members gives the same, if no two of them are one path in
    different writings. -/
theorem dropRepeated_mergeSort_congr {ps qs : List Path} (same : ∀ x, x ∈ ps ↔ x ∈ qs)
    (inj : ∀ x ∈ ps, ∀ y ∈ ps, x.components = y.components → x = y) :
    dropRepeated (ps.mergeSort fun p q => compare p q != .gt) =
      dropRepeated (qs.mergeSort fun p q => compare p q != .gt) := by
  have hsorted (l : List Path) :
      (l.mergeSort fun p q => compare p q != .gt).Pairwise fun p q => compare p q ≠ .gt := by
    refine (List.pairwise_mergeSort ?_ ?_ l).imp fun h => by simpa using h
    · intro a b c hab hbc
      simp only [bne_iff_ne, ne_eq, ← Ordering.isLE_iff_ne_gt] at hab hbc ⊢
      exact Std.TransCmp.isLE_trans hab hbc
    · intro a b
      have hswap : compare b a = (compare a b).swap := Std.OrientedCmp.eq_swap
      rw [hswap]
      cases compare a b with
      | lt => rfl
      | eq => rfl
      | gt => rfl
  have hmem {l : List Path} (inj : ∀ x ∈ l, ∀ y ∈ l, x.components = y.components → x = y) (x : Path) :
      x ∈ dropRepeated (l.mergeSort fun p q => compare p q != .gt) ↔ x ∈ l := by
    refine ⟨fun hx => List.mem_mergeSort.1 (mem_dropRepeated hx), fun hx => ?_⟩
    obtain ⟨y, hy, hcomponents⟩ := exists_mem_dropRepeated _ x (List.mem_mergeSort.2 hx)
    obtain rfl := inj y (List.mem_mergeSort.1 (mem_dropRepeated hy)) x hx hcomponents
    exact hy
  have hnodup (l : List Path) : (dropRepeated (l.mergeSort fun p q => compare p q != .gt)).Nodup := by
    refine (ascending_dropRepeated (hsorted l)).imp fun {p q} h heq => ?_
    subst heq
    have hself : compare p p = .eq := Std.ReflCmp.compare_self
    rw [hself] at h
    cases h
  have inj' : ∀ x ∈ qs, ∀ y ∈ qs, x.components = y.components → x = y :=
    fun x hx y hy => inj x ((same x).2 hx) y ((same y).2 hy)
  refine List.Perm.eq_of_pairwise
    (fun p q _ _ (hpq : compare p q = .lt) (hqp : compare q p = .lt) => ?_)
    (ascending_dropRepeated (hsorted ps)) (ascending_dropRepeated (hsorted qs))
    ((List.perm_ext_iff_of_nodup (hnodup ps) (hnodup qs)).2 fun x => ?_)
  · rw [Std.OrientedCmp.gt_of_lt hpq] at hqp
    cases hqp
  · rw [hmem inj, hmem inj', same]

theorem locate_foldl_next {names : List String} (plain : ∀ name ∈ names, PlainName name) (p : Path)
    (cwd : Location) : (names.foldl next p).locate cwd = p.locate cwd ++ names := by
  induction names generalizing p with
  | nil => simp
  | cons name names ih =>
    rw [List.foldl_cons, ih (fun n hn => plain n (List.mem_cons_of_mem name hn)),
      locate_next (plain name List.mem_cons_self), List.append_assoc, List.singleton_append]

end Glob

/-! ### Trees that are the same below a directory -/

/-- From a location on two trees are the same. -/
def FileTree.SameBelow (l : Location) (t u : FileTree) : Prop := ∀ m, l <+: m → u.node? m = t.node? m

/-- A directory that is there in both of two trees, with the same below it. -/
structure FileTree.SharesDir (cwd : Location) (dir : Path) (t u : FileTree) : Prop where
  before : t.isDir cwd dir = true
  after : u.isDir cwd dir = true
  same : SameBelow (dir.locate cwd) t u

namespace FileTree

variable {l : Location} {t u : FileTree} {cwd : Location} {p : Path} {name : String}

theorem SameBelow.isDirAt (same : SameBelow l t u) {m : Location} (hm : l <+: m) :
    u.isDirAt m = t.isDirAt m := by
  rw [FileTree.isDirAt, same m hm, FileTree.isDirAt]

theorem SameBelow.plainBelow (same : SameBelow l t u) (plain : t.PlainBelow l) : u.PlainBelow l := by
  intro m hm name hname
  refine plain m hm name ?_
  rw [mem_names_iff] at hname ⊢
  rwa [same _ (hm.trans (List.prefix_append m [name]))] at hname

/-- A step down is taken alike. -/
theorem SameBelow.walk_name (same : SameBelow l t u) (plain : PlainName name) :
    u.walk l [name] = t.walk l [name] := by
  have hself : l <+: l := List.prefix_refl l
  rw [walk_cons, walk_cons, stepFrom_name u l plain.notHere plain.notUp,
    stepFrom_name t l plain.notHere plain.notUp, same.isDirAt hself, same _ (List.prefix_append l [name])]
  simp only [walk_nil]

/-- What is found by a name in the directory is found alike. -/
theorem SharesDir.pathExists_next (shares : SharesDir cwd p t u) (plain : PlainName name) :
    u.pathExists cwd (Glob.next p name) = t.pathExists cwd (Glob.next p name) := by
  have hstep : [name].filter Glob.isStep = [name] := by simp [Glob.isStep, plain.notEmpty, plain.notHere]
  have hnames : (Glob.next p name).names = p.names ++ [name] := by
    rw [Glob.names_next plain.noSlash, hstep]
  have hstart : startOf cwd (Glob.next p name) = startOf cwd p := by
    rw [startOf, Glob.isAbsolute_next plain.noSlash, startOf]
  have hbelow : p.locate cwd <+: (Glob.next p name).locate cwd := by
    rw [Glob.locate_next plain]
    exact List.prefix_append _ _
  obtain ⟨-, hwalk, -⟩ := (isDir_iff t cwd p).1 shares.before
  obtain ⟨-, hwalk', -⟩ := (isDir_iff u cwd p).1 shares.after
  rw [Bool.eq_iff_iff, pathExists_iff, pathExists_iff, hnames, hstart, walk_append, walk_append, hwalk,
    hwalk']
  simp only [shares.same.walk_name plain, shares.same _ hbelow, shares.same.isDirAt hbelow]

theorem SharesDir.at?_next (shares : SharesDir cwd p t u) (plain : PlainName name) :
    u.at? cwd (Glob.next p name) = t.at? cwd (Glob.next p name) := by
  have hbelow : p.locate cwd <+: (Glob.next p name).locate cwd := by
    rw [Glob.locate_next plain]
    exact List.prefix_append _ _
  have hfound := shares.pathExists_next plain
  cases hthere : t.pathExists cwd (Glob.next p name) with
  | true =>
    rw [at?_of_pathExists hthere, at?_of_pathExists (hfound.trans hthere), shares.same _ hbelow]
  | false =>
    rw [hthere] at hfound
    rw [pathExists, Option.isSome_eq_false_iff, Option.isNone_iff_eq_none] at hfound hthere
    rw [hfound, hthere]

/-- A directory in it is shared, too. -/
theorem SharesDir.next (shares : SharesDir cwd p t u) (plain : PlainName name)
    (isDir : t.isDir cwd (Glob.next p name) = true) : SharesDir cwd (Glob.next p name) t u where
  before := isDir
  after := by
    rw [FileTree.isDir, shares.at?_next plain]
    exact isDir
  same m hm := by
    rw [Glob.locate_next plain] at hm
    exact shares.same m ((List.prefix_append _ _).trans hm)

theorem SharesDir.symm (shares : SharesDir cwd p t u) : SharesDir cwd p u t :=
  ⟨shares.after, shares.before, fun m hm => (shares.same m hm).symm⟩

/-- What is listed below the directory is listed in both trees, and is a file in both. -/
theorem SharesDir.listed (shares : SharesDir cwd p t u) {names : List String} (hne : names ≠ [])
    (plain : ∀ name ∈ names, PlainName name) (listed : Glob.Listed t cwd p names) :
    Glob.Listed u cwd p names ∧
      u.isFile cwd (names.foldl Glob.next p) = t.isFile cwd (names.foldl Glob.next p) := by
  induction names generalizing p with
  | nil => exact absurd rfl hne
  | cons name names ih =>
    obtain ⟨-, hname, hrest⟩ := listed
    have hplain := plain name List.mem_cons_self
    have hname' : name ∈ u.names (p.locate cwd) := by
      rw [mem_names_iff] at hname ⊢
      rwa [shares.same _ (List.prefix_append _ [name])]
    cases names with
    | nil =>
      refine ⟨⟨shares.after, hname', trivial⟩, ?_⟩
      rw [List.foldl_cons, List.foldl_nil, FileTree.isFile, shares.at?_next hplain, FileTree.isFile]
    | cons other names =>
      obtain ⟨hlisted, hfile⟩ := ih (shares.next hplain hrest.1) (List.cons_ne_nil other names)
        (fun n hn => plain n (List.mem_cons_of_mem name hn)) hrest
      exact ⟨⟨shares.after, hname', hlisted⟩, hfile⟩

/-- A file that is listed below the directory is read alike. -/
theorem SharesDir.readToDigest (shares : SharesDir cwd p t u) {names : List String} (hne : names ≠ [])
    (plain : ∀ name ∈ names, PlainName name) (listed : Glob.Listed t cwd p names)
    (isFile : t.isFile cwd (names.foldl Glob.next p) = true) :
    u.readToDigest cwd (names.foldl Glob.next p) = t.readToDigest cwd (names.foldl Glob.next p) := by
  have isFile' := (shares.listed hne plain listed).2.trans isFile
  obtain ⟨bytes, hread⟩ := exists_readFile_of_isFile isFile
  obtain ⟨bytes', hread'⟩ := exists_readFile_of_isFile isFile'
  have hbelow : p.locate cwd <+: (names.foldl Glob.next p).locate cwd := by
    rw [Glob.locate_foldl_next plain]
    exact List.prefix_append _ _
  unfold FileTree.readToDigest
  rw [openRead_of_found (pathExists_of_readFile hread) (pathExists_of_readFile hread')
    (shares.same _ hbelow)]

end FileTree

namespace Glob

variable {t u : FileTree} {cwd : Location} {dir : Path}

/-- The search for headers finds the same, and what it finds is read alike. -/
theorem files_headers_same (shares : SharesDir cwd dir t u) (literal : dir.Literal)
    (tree : t.PlainBelow (dir.locate cwd)) :
    ∃ found, files t cwd dir CompileFingerprint.headerPatterns = .ok found ∧
      files u cwd dir CompileFingerprint.headerPatterns = .ok found ∧
      ∀ x ∈ found, u.readToDigest cwd x = t.readToDigest cwd x := by
  have hne := ((checkText_iff dir).1 ((isDir_iff t cwd dir).1 shares.before).1).2.1
  obtain ⟨front, hf⟩ := exists_frontOf hne
  have hstands := standsFor_arrival hf hne
  have harrival : SharesDir cwd (arrival dir front) t u := by
    refine ⟨isDir_of_leading hf literal shares.before (List.prefix_refl _),
      isDir_of_leading hf literal shares.after (List.prefix_refl _), ?_⟩
    rw [hstands.locate]
    exact shares.same
  obtain ⟨found, hfiles, hmem⟩ := exists_found_headers hf tree shares.before literal
  obtain ⟨found', hfiles', hmem'⟩ :=
    exists_found_headers hf (shares.same.plainBelow tree) shares.after literal
  have hsame (x : Path) : x ∈ found ↔ x ∈ found' := by
    rw [hmem, hmem']
    constructor
    · rintro ⟨names, header, rfl, hlisted, hfile⟩
      obtain ⟨hlisted', hfile'⟩ := harrival.listed header.ne_nil header.plain hlisted
      exact ⟨names, header, rfl, hlisted', hfile'.trans hfile⟩
    · rintro ⟨names, header, rfl, hlisted, hfile⟩
      obtain ⟨hlisted', hfile'⟩ := harrival.symm.listed header.ne_nil header.plain hlisted
      exact ⟨names, header, rfl, hlisted', hfile'.trans hfile⟩
  have hinj : ∀ x ∈ found, ∀ y ∈ found, x.components = y.components → x = y := by
    intro x hx y hy heq
    obtain ⟨names, header, rfl, -⟩ := (hmem x).1 hx
    obtain ⟨names', header', rfl, -⟩ := (hmem y).1 hy
    have hnames := (Path.SameSteps.of_components heq).2
    rw [(hstands.foldl header.plain).names, (hstands.foldl header'.plain).names,
      names_children header.plain, names_children header'.plain, List.append_cancel_left_eq] at hnames
    rw [hnames]
  refine ⟨_, hfiles, hfiles'.trans ?_, fun x hx => ?_⟩
  · rw [dropRepeated_mergeSort_congr hsame hinj]
  · obtain ⟨names, header, rfl, hlisted, hfile⟩ :=
      (hmem x).1 (List.mem_mergeSort.1 (mem_dropRepeated hx))
    exact harrival.readToDigest header.ne_nil header.plain hlisted hfile

end Glob

/-! ### What a compile step reads -/

/-- An include directory that is there, with a text that stands for itself in a pattern and
    below it names that a directory can have. -/
structure HeaderDir (t : FileTree) (cwd : Location) (dir : Path) : Prop where
  isDir : t.isDir cwd dir = true
  literal : dir.Literal
  plain : t.PlainBelow (dir.locate cwd)

namespace CompileInputs

variable {t u : FileTree} {cwd : Location}

theorem addHeaders_same {dir : Path} (headers : Table Path ByteArray) (there : HeaderDir t cwd dir)
    (shares : SharesDir cwd dir t u) : addHeaders u cwd headers dir = addHeaders t cwd headers dir := by
  obtain ⟨found, hfiles, hfiles', hread⟩ := Glob.files_headers_same shares there.literal there.plain
  unfold addHeaders
  rw [shares.before, shares.after, if_pos rfl, if_pos rfl, hfiles, hfiles']
  show found.foldlM _ headers = found.foldlM _ headers
  clear hfiles hfiles'
  induction found generalizing headers with
  | nil => rw [List.foldlM_nil, List.foldlM_nil]
  | cons x found ih =>
    rw [List.foldlM_cons, List.foldlM_cons, hread x List.mem_cons_self]
    cases t.readToDigest cwd x with
    | error e => rfl
    | ok bytes => exact ih _ fun y hy => hread y (List.mem_cons_of_mem x hy)

/-- A compile step whose source is read alike and whose include directories are shared reads
    the same in both trees. -/
theorem ofStep_same {root : Path} {s : CompileStep}
    (source : u.readToDigest cwd (root.join s.source) = t.readToDigest cwd (root.join s.source))
    (dirs : ∀ d ∈ s.includeDirs, HeaderDir t cwd (root.join d) ∧ SharesDir cwd (root.join d) t u) :
    ofStep u cwd root s = ofStep t cwd root s := by
  have hdirs (ds : List Path) (headers : Table Path ByteArray)
      (hds : ∀ d ∈ ds, HeaderDir t cwd (root.join d) ∧ SharesDir cwd (root.join d) t u) :
      ds.foldlM (fun hs d => addHeaders u cwd hs (root.join d)) headers =
        ds.foldlM (fun hs d => addHeaders t cwd hs (root.join d)) headers := by
    induction ds generalizing headers with
    | nil => rw [List.foldlM_nil, List.foldlM_nil]
    | cons d ds ih =>
      obtain ⟨hthere, hshares⟩ := hds d List.mem_cons_self
      rw [List.foldlM_cons, List.foldlM_cons, addHeaders_same headers hthere hshares]
      exact bind_congr fun more => ih more fun d' hd' => hds d' (List.mem_cons_of_mem d hd')
  unfold ofStep
  rw [source, hdirs s.includeDirs Table.empty dirs]

end CompileInputs

/-! ### What is made beside it -/

/-- `u` is `t` with anything at the places of what is made, and with directories on the ways
    there where nothing was. -/
def FileTree.WithMade (made : Path → Prop) (cwd : Location) (t u : FileTree) : Prop :=
  ∀ l, u.node? l = t.node? l ∨ (∃ o, made o ∧ l = o.locate cwd) ∨
    (Gains t u l ∧ ∃ o, made o ∧ l ∈ o.dirWay cwd)

/-- What a compile step reads is there, and apart from what is made: nothing is made on the
    way to it, nor at or below an include directory, be it a directory on the way. -/
structure CompileStep.ReadsThere (s : CompileStep) (t : FileTree) (cwd : Location) (root : Path)
    (made : Path → Prop) : Prop where
  source : t.pathExists cwd (root.join s.source) = true
  off_source : ∀ o, made o → o.locate cwd ∉ (root.join s.source).way cwd
  dirs : ∀ d ∈ s.includeDirs, HeaderDir t cwd (root.join d)
  off_dirs : ∀ d ∈ s.includeDirs, ∀ o, made o → o.locate cwd ∉ (root.join d).way cwd ∧
    ∀ l ∈ o.locate cwd :: o.dirWay cwd, ¬ (root.join d).locate cwd <+: l

namespace FileTree.WithMade

variable {made : Path → Prop} {cwd : Location} {t u : FileTree} {p : Path}

/-- What is on the way to a path stays as it was if nothing is made there. -/
theorem node?_way (w : WithMade made cwd t u) (off : ∀ o, made o → o.locate cwd ∉ p.way cwd)
    {l : Location} (hl : l ∈ p.way cwd) (there : (t.node? l).isSome = true) :
    u.node? l = t.node? l := by
  rcases w l with heq | ⟨o, ho, rfl⟩ | ⟨⟨hnone, -⟩, -⟩
  · exact heq
  · exact absurd hl (off o ho)
  · rw [hnone] at there
    cases there

/-- A file that is there is read as before. -/
theorem readToDigest (w : WithMade made cwd t u) (found : t.pathExists cwd p = true)
    (off : ∀ o, made o → o.locate cwd ∉ p.way cwd) : u.readToDigest cwd p = t.readToDigest cwd p := by
  unfold FileTree.readToDigest
  rw [openRead_of_same found fun l hl there => w.node?_way off hl there]

/-- A directory that is there is left as it is. -/
theorem sharesDir (w : WithMade made cwd t u) (dir : t.isDir cwd p = true)
    (off : ∀ o, made o → o.locate cwd ∉ p.way cwd ∧
      ∀ l ∈ o.locate cwd :: o.dirWay cwd, ¬ p.locate cwd <+: l) : SharesDir cwd p t u where
  before := dir
  after := by
    have hoff := fun o ho => (off o ho).1
    obtain ⟨hcheck, hwalk, hdir⟩ := (isDir_iff t cwd p).1 dir
    have hnode := (isDirAt_node? t _).1 hdir
    refine (isDir_iff u cwd p).2 ⟨hcheck, ?_, ?_⟩
    · exact walk_of_same hwalk fun x hx => w.node?_way hoff (foldl_names_mem_way cwd p hx)
    · rw [isDirAt_node?, w.node?_way hoff (p.locate_mem_way cwd) (by rw [hnode]; rfl), hnode]
  same l hl := by
    rcases w l with heq | ⟨o, ho, rfl⟩ | ⟨-, o, ho, hmem⟩
    · exact heq
    · exact absurd hl ((off o ho).2 _ List.mem_cons_self)
    · exact absurd hl ((off o ho).2 l (List.mem_cons_of_mem _ hmem))

/-- A compile step reads on as it did. -/
theorem ofStep_eq {s : CompileStep} {root : Path} (w : WithMade made cwd t u)
    (reads : s.ReadsThere t cwd root made) :
    CompileInputs.ofStep u cwd root s = CompileInputs.ofStep t cwd root s :=
  CompileInputs.ofStep_same (w.readToDigest reads.source reads.off_source) fun d hd =>
    ⟨reads.dirs d hd, w.sharesDir (reads.dirs d hd).isDir (reads.off_dirs d hd)⟩

end FileTree.WithMade

theorem CompileStep.ReadsThere.mono {s : CompileStep} {t : FileTree} {cwd : Location} {root : Path}
    {made made' : Path → Prop} (reads : s.ReadsThere t cwd root made) (sub : ∀ o, made' o → made o) :
    s.ReadsThere t cwd root made' :=
  ⟨reads.source, fun o ho => reads.off_source o (sub o ho), reads.dirs,
    fun d hd o ho => reads.off_dirs d hd o (sub o ho)⟩

/-! ### A project with a header -/

namespace Sample

/-- The project of the manifest before its first build. -/
def sources : FileTree :=
  [(["p"], .dir), (["p", "a.c"], .file "int a;".toUTF8 false), (["p", "b.c"], .file "int b".toUTF8 false),
    (["d.c"], .file "int d;".toUTF8 false), (["p", "inc"], .dir),
    (["p", "inc", "x.h"], .file "int x;".toUTF8 false)].foldl (fun t e => t.set e.1 e.2) ∅

theorem closed_sources : sources.Closed := .of_toList (by decide)

theorem literal_inc : (⟨"/p/inc"⟩ : Path).Literal where
  chars c hc := by
    have hchars : ("/p/inc".toList.all fun c => decide (Pattern.StandsForItself c)) = true := rfl
    exact of_decide_eq_true (List.all_eq_true.1 hchars c hc)
  noGap k part parts h := by
    have hsplit : List.splitOn '/' (⟨"/p/inc"⟩ : Path).text.toList = [[], ['p'], ['i', 'n', 'c']] := by decide
    rw [hsplit, List.replicate_succ] at h
    cases h

/-- What the manifest's steps read is there, and apart from what is made of it. -/
theorem readsThere_manifestPlan : ∀ s ∈ manifestPlan.compileSteps, s.ReadsThere sources [] ⟨"/p"⟩
    (· ∈ manifestPlan.outputs ++ [manifestContext.fingerprintPath]) := by
  have hinc : HeaderDir sources [] ⟨"/p/inc"⟩ :=
    ⟨by decide, literal_inc, (FileTree.PlainNames.of_toList (by decide)).below _⟩
  have hthere : ∀ s ∈ manifestPlan.compileSteps,
      sources.pathExists [] ((⟨"/p"⟩ : Path).join s.source) = true := by decide
  have hdirs : ∀ s ∈ manifestPlan.compileSteps, ∀ d ∈ s.includeDirs,
      (⟨"/p"⟩ : Path).join d = ⟨"/p/inc"⟩ := by decide
  have hoff : ∀ s ∈ manifestPlan.compileSteps,
      ∀ o ∈ manifestPlan.outputs ++ [manifestContext.fingerprintPath],
        o.locate [] ∉ ((⟨"/p"⟩ : Path).join s.source).way [] := by decide
  have hoff_inc : ∀ o ∈ manifestPlan.outputs ++ [manifestContext.fingerprintPath],
      o.locate [] ∉ (⟨"/p/inc"⟩ : Path).way [] ∧
        ∀ l ∈ o.locate [] :: o.dirWay [], ¬ (⟨"/p/inc"⟩ : Path).locate [] <+: l := by decide
  exact fun s hs => ⟨hthere s hs, hoff s hs, fun d hd => hdirs s hs d hd ▸ hinc,
    fun d hd => hdirs s hs d hd ▸ hoff_inc⟩

end Sample

end GrammarBuild
