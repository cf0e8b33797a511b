import GrammarBuild.Proofs.Directories
import GrammarBuild.Proofs.Outputs

/-
  GrammarBuild/Proofs/Ways.lean
  =============================
  **The ways to the outputs of a plan** — from an output directory to which a straight way
  leads it goes straight down to every object and module (`Straight.objectPath`,
  `Straight.modulePath`).

  A result that is found stands in a directory that is there already
  (`prepare_of_pathExists`), and whether a file is found whose directory is reached depends
  on its path alone (`Reaches.pathExists_iff`).
-/

namespace GrammarBuild

namespace FileTree

variable {t u : FileTree} {cwd l base : Location} {d o p : Path} {rest names : List String}

/-- A path that is continued by names takes these steps last. -/
theorem names_of_components (components : o.components = d.components ++ names.map .normal)
    (cwd : Location) : o.names = d.names ++ names ∧ startOf cwd o = startOf cwd d := by
  have hmap : (names.map Component.normal).filterMap Component.name? = names := by
    rw [List.filterMap_map]
    exact List.filterMap_some
  have habs : o.isAbsolute = d.isAbsolute := by
    rw [Bool.eq_iff_iff, Path.components_head?, Path.components_head?, components]
    cases d.components with
    | nil =>
      cases names with
      | nil => rfl
      | cons n ns => simp
    | cons x xs => rfl
  constructor
  · rw [Path.names, components, List.filterMap_append, hmap]
    rfl
  · rw [startOf, startOf, habs]

/-- A straight way that is continued by names. -/
theorem Straight.append (s : t.Straight cwd d base rest)
    (components : o.components = d.components ++ names.map .normal) (down : ".." ∉ names) :
    t.Straight cwd o base (rest ++ names) := by
  obtain ⟨hnames, hstart⟩ := names_of_components components cwd
  obtain ⟨a, ha, hw⟩ := s.front
  refine ⟨⟨a, ?_, ?_⟩, s.dir, ?_⟩
  · rw [hnames, ha, List.append_assoc]
  · rw [hstart, hw]
  · rw [List.mem_append, not_or]
    exact ⟨s.down, down⟩

variable {c : BuildContext} {g : Target}

theorem Straight.objectPath (s : t.Straight cwd c.outputDir base rest) (named : g.Named)
    (source : Path) :
    t.Straight cwd (c.objectPath g source) base (rest ++ ["obj", g.name] ++
      [BuildContext.objectName source c.toolchain.objectEnding]) := by
  have hcomponents := c.components_objectPath (t := g) source
  rw [c.components_objectDir named, List.append_assoc] at hcomponents
  have hobj : "obj" ≠ ".." := by decide
  have hplain := (c.plainName_objectName source).1.notUp
  rw [List.append_assoc]
  apply s.append hcomponents
  simp only [List.mem_append, List.mem_cons, List.not_mem_nil, or_false, not_or]
  exact ⟨⟨hobj.symm, named.plainName.1.notUp.symm⟩, hplain.symm⟩

theorem Straight.modulePath (s : t.Straight cwd c.outputDir base rest) (named : g.Named) :
    t.Straight cwd (c.modulePath g) base (rest ++ g.dirNames ++
      [g.moduleFileName c.toolchain.moduleEnding]) := by
  rw [List.append_assoc]
  apply s.append (c.components_modulePath named)
  intro hup
  exact (c.plainName_of_mem_moduleNames named hup).1.notUp rfl

/-! ### What is on the way -/

/-- A walk that leads on has come to a directory. -/
theorem walk_front {x y : List String} {m : Location} (h : t.walk l (x ++ y) = .ok m) (hy : y ≠ []) :
    t.walk l x = .ok (x.foldl stepTo l) ∧ t.isDirAt (x.foldl stepTo l) = true := by
  obtain ⟨name, y, rfl⟩ := List.exists_cons_of_ne_nil hy
  rw [walk_append] at h
  cases hx : t.walk l x with
  | error f =>
    rw [hx] at h
    cases h
  | ok k =>
    rw [hx] at h
    simp only [walk_cons] at h
    rw [← walk_ok hx]
    refine ⟨rfl, ?_⟩
    cases hs : t.stepFrom k name with
    | error f =>
      rw [hs] at h
      cases h
    | ok k' => exact (stepFrom_ok hs).2.1

theorem exists_foldl_of_mem_wayFrom (parts : List (List Char)) {l m : Location}
    (h : m ∈ Component.wayFrom l (parts.filterMap Component.ofPart?)) :
    ∃ x, x <+: (parts.filterMap Component.ofPart?).filterMap Component.name? ∧
      m = x.foldl stepTo l := by
  induction parts generalizing l with
  | nil => exact ⟨[], List.nil_prefix, List.mem_singleton.1 h⟩
  | cons part parts ih =>
    by_cases h0 : part = []
    · subst h0
      exact ih h
    by_cases h1 : part = ['.']
    · subst h1
      exact ih h
    by_cases h2 : part = ['.', '.']
    · subst h2
      rcases List.mem_cons.1 h with rfl | h
      · exact ⟨[], List.nil_prefix, rfl⟩
      · obtain ⟨x, hx, rfl⟩ := ih h
        exact ⟨".." :: x, List.cons_prefix_cons.2 ⟨rfl, hx⟩, rfl⟩
    · have hofPart : Component.ofPart? part = some (.normal (String.ofList part)) := by
        simp [Component.ofPart?, h0, h1, h2]
      rw [List.filterMap_cons, hofPart] at h ⊢
      rcases List.mem_cons.1 h with rfl | h
      · exact ⟨[], List.nil_prefix, rfl⟩
      · obtain ⟨x, hx, rfl⟩ := ih h
        have hn1 : String.ofList part ≠ "." := fun h => h1 (by simpa using congrArg String.toList h)
        have hn2 : String.ofList part ≠ ".." := fun h => h2 (by simpa using congrArg String.toList h)
        refine ⟨String.ofList part :: x, List.cons_prefix_cons.2 ⟨rfl, hx⟩, ?_⟩
        rw [List.foldl_cons, stepTo, if_neg hn1, if_neg hn2]
        rfl

/-- The first names of a path lead to what is on the way along it. -/
theorem exists_foldl_of_mem_way {m : Location} (h : m ∈ p.way cwd) :
    m = cwd ∨ ∃ x, x <+: p.names ∧ m = x.foldl stepTo (startOf cwd p) := by
  have hparts : p.names =
      ((List.splitOn '/' p.text.toList).filterMap Component.ofPart?).filterMap Component.name? := by
    rw [Path.names, Path.components, Path.componentsOf_eq, List.filterMap_append,
      Path.filterMap_name?_leadOf, List.nil_append]
  rw [hparts, startOf, Path.isAbsolute]
  rw [Path.way, Path.components, Path.componentsOf_eq, Path.leadOf] at h
  by_cases habs : p.text.toList.head? = some '/'
  · rw [if_pos habs] at h
    rw [beq_iff_eq.2 habs]
    exact (List.mem_cons.1 h).imp_right (exists_foldl_of_mem_wayFrom _)
  · rw [if_neg habs] at h
    rw [beq_eq_false_iff_ne.2 habs]
    split at h
    · exact (List.mem_cons.1 h).imp_right (exists_foldl_of_mem_wayFrom _)
    · exact .inr (exists_foldl_of_mem_wayFrom _ h)

/-- On a straight way there are directories, until it goes down. -/
theorem Straight.mem_way {m : Location} (s : t.Straight cwd d base rest)
    (here : t.isDirAt cwd = true) (h : m ∈ d.way cwd) :
    t.isDirAt m = true ∨ ∃ x, x <+: rest ∧ m = base ++ x := by
  obtain ⟨a, ha, hw⟩ := s.front
  rcases exists_foldl_of_mem_way h with rfl | ⟨x, hx, rfl⟩
  · exact .inl here
  · rw [ha] at hx
    rcases List.prefix_or_prefix_of_prefix hx (List.prefix_append a rest) with ⟨y, rfl⟩ | ⟨y, rfl⟩
    · left
      by_cases hy : y = []
      · subst hy
        rw [List.append_nil] at hw
        rw [← walk_ok hw]
        exact s.dir
      · exact (walk_front hw hy).2
    · right
      have hy := (List.prefix_append_right_inj a).1 hx
      refine ⟨y, hy, ?_⟩
      rw [List.foldl_append, ← walk_ok hw]
      exact foldl_stepTo_downward (fun k hk => s.downward k (hy.subset hk)) base

/-- A path that takes no step stands where it starts. -/
theorem dirWay_of_names_nil (h : p.names = []) (cwd : Location) : p.dirWay cwd = [cwd] := by
  have hparts : (List.splitOn '/' p.text.toList).filterMap Component.ofPart? = [] := by
    refine List.eq_nil_iff_forall_not_mem.2 fun c hc => ?_
    obtain ⟨part, -, hpart⟩ := List.mem_filterMap.1 hc
    obtain ⟨name, hname⟩ := Option.isSome_iff_exists.1 (Path.isSome_name?_of_ofPart? hpart)
    have hmem : name ∈ p.names := by
      rw [Path.names, Path.components, Path.componentsOf_eq, List.filterMap_append]
      exact List.mem_append_right _ (List.mem_filterMap.2 ⟨c, hc, hname⟩)
    rw [h] at hmem
    cases hmem
  rw [Path.dirWay, Path.components, Path.componentsOf_eq, hparts, List.append_nil, Path.leadOf]
  split
  · rfl
  · split
    · rfl
    · rfl

/-- Around what is found there are directories. -/
theorem isDirAt_of_found (found : t.pathExists cwd p = true) (here : t.isDirAt cwd = true)
    {m : Location} (h : m ∈ p.dirWay cwd) : t.isDirAt m = true := by
  by_cases hnil : p.names = []
  · rw [dirWay_of_names_nil hnil, List.mem_singleton] at h
    rwa [h]
  obtain ⟨q, name, hq, hnames⟩ := Path.exists_parent? hnil
  rw [← Path.way_parent? hq] at h
  have hstart : startOf cwd q = startOf cwd p := by
    rw [startOf, startOf, Path.isAbsolute_parent? hq hnil]
  rcases exists_foldl_of_mem_way h with rfl | ⟨x, ⟨y, hy⟩, rfl⟩
  · exact here
  · obtain ⟨-, hw, -⟩ := (pathExists_iff t cwd p).1 found
    rw [hnames, ← hy, List.append_assoc, ← hstart] at hw
    exact (walk_front hw (by simp)).2

/-- A directory in which something is found by names is reached. -/
theorem straight_of_found (components : o.components = d.components ++ names.map .normal)
    (hne : names ≠ []) (found : t.pathExists cwd o = true) : t.Straight cwd d (d.locate cwd) [] := by
  obtain ⟨hnames, hstart⟩ := names_of_components components cwd
  obtain ⟨-, hw, -⟩ := (pathExists_iff t cwd o).1 found
  rw [hnames, hstart] at hw
  obtain ⟨hwalk, hdir⟩ := walk_front hw hne
  rw [foldl_names] at hwalk hdir
  exact ⟨⟨d.names, (List.append_nil _).symm, hwalk⟩, hdir, List.not_mem_nil⟩

/-! ### Results that are there -/

theorem names_ne_nil_of_writeFile {bytes : ByteArray}
    (h : t.writeFile cwd p bytes = .ok u) : p.names ≠ [] := by
  obtain ⟨m, name, hparent, -, -, hdots, -⟩ := placeToWrite_ok (place_of_writeFile h)
  obtain ⟨-, -, -, hlast⟩ := parentOf_ok hparent
  simp only [isDots, Bool.or_eq_false_iff, beq_eq_false_iff_ne] at hdots
  refine List.ne_nil_of_mem (a := name) ?_
  rw [← filter_trail, List.mem_filter]
  exact ⟨List.mem_append_left _ (List.mem_of_getLast? hlast.symm), by simpa using hdots.1⟩

/-- A result that is found stands in a directory that need not be made. -/
theorem prepare_of_pathExists (found : t.pathExists cwd o = true) (hne : o.names ≠ []) :
    t.prepare cwd o = (.ok (), t) := by
  obtain ⟨hc, hw, -, -⟩ := (pathExists_iff t cwd o).1 found
  obtain ⟨q, name, hq, hnames⟩ := Path.exists_parent? hne
  have hstart : startOf cwd q = startOf cwd o := by
    rw [startOf, startOf, Path.isAbsolute_parent? hq hne]
  have hwalk : t.walk (startOf cwd q) q.names = .ok (q.locate cwd) ∧
      t.isDirAt (q.locate cwd) = true := by
    rw [hnames, ← hstart] at hw
    rw [← foldl_names]
    exact walk_front hw (by simp)
  unfold prepare
  rw [hq]
  simp only []
  rcases checkText_parent? hq hc with hempty | hcq
  · split
    · rfl
    · rw [createDirs, if_pos hempty]
      rfl
  · have hparent : t.pathExists cwd q = true := by
      rw [pathExists_iff, (isDirAt_node? t _).1 hwalk.2]
      exact ⟨hcq, hwalk.1, rfl, fun _ => hwalk.2⟩
    rw [if_pos hparent]

/-- A way down leads to a directory. -/
structure Reaches (t : FileTree) (l : Location) (names : List String) : Prop where
  walk : t.walk l names = .ok (l ++ names)
  dir : t.isDirAt (l ++ names) = true

theorem Straight.mem_dirWay {n : String} (s : t.Straight cwd o l (rest ++ [n])) :
    l ++ rest ∈ o.dirWay cwd := by
  obtain ⟨a, ha, -⟩ := s.front
  obtain ⟨q, -, hq, -⟩ := Path.exists_parent? (p := o) (by simp [ha])
  rw [← (s.parent hq).locate_eq, ← Path.way_parent? hq]
  exact q.locate_mem_way cwd

/-- The way to a result that is found. -/
theorem walk_of_pathExists {n : String} (s : t.Straight cwd o l (rest ++ [n]))
    (found : t.pathExists cwd o = true) : t.walk l rest = .ok (l ++ rest) := by
  obtain ⟨k, hk⟩ := walk_names_of_pathExists found
  have down : Downward rest := fun name hn => s.downward name (List.mem_append_left [n] hn)
  rw [s.walk_names] at hk
  have hw := (walk_front hk (by simp)).1
  rwa [foldl_stepTo_downward down] at hw

/-- The way to a result whose directory was made. -/
theorem walk_of_prepare {n : String} (s : t.Straight cwd o l (rest ++ [n])) (g : Grounded t l rest)
    (hne : rest ≠ []) (dir : t.prepare cwd o = (.ok (), u)) : u.walk l rest = .ok (l ++ rest) := by
  obtain ⟨a, ha, -⟩ := s.front
  obtain ⟨q, -, hq, -⟩ := Path.exists_parent? (p := o) (by simp [ha])
  have down := (s.parent hq).downward
  cases hc : checkText q with
  | error f =>
    exfalso
    rw [prepare_of_checkText hq hc] at dir
    cases hempty : q.text.isEmpty with
    | false =>
      rw [hempty] at dir
      cases dir
    | true =>
      obtain ⟨b, hb, -⟩ := (s.parent hq).front
      have hnil : q.names = [] := by
        rw [Path.names, Path.components, show q.text = "" by simpa using hempty]
        rfl
      rw [hnil] at hb
      exact hne (List.append_eq_nil_iff.1 hb.symm).2
  | ok _ =>
    rw [prepare_eq_descend s g hq hc] at dir
    have hok : (t.descend l rest).1 = .ok () := by
      cases hd : (t.descend l rest).1 with
      | ok _ => rfl
      | error f =>
        rw [hd] at dir
        cases dir
    have hu : (t.descend l rest).2 = u := congrArg Prod.snd dir
    rw [← hu]
    exact walk_of_descend down hok

theorem Keeps.reaches (k : Keeps t u) (r : t.Reaches l names) : u.Reaches l names :=
  ⟨k.walk r.walk, k.dirs _ r.dir⟩

variable {n : String} {bytes : ByteArray} {x : Bool}

/-- A file whose directory is reached is found if its path can be used at all. -/
theorem Reaches.pathExists_iff (r : t.Reaches l rest) (s : t.Straight cwd o l (rest ++ [n]))
    (file : t.node? (o.locate cwd) = some (.file bytes x)) :
    t.pathExists cwd o = true ↔
      checkText o = .ok () ∧ n.utf8ByteSize ≤ nameLimit ∧ (trail o).getLast? ≠ some "." := by
  have hn := s.downward n (by simp)
  have hnotDir : t.isDirAt (o.locate cwd) = false := by
    rw [isDirAt, file]
    rfl
  have hwalk : t.walk (startOf cwd o) o.names = .ok (o.locate cwd) ↔ n.utf8ByteSize ≤ nameLimit := by
    rw [s.walk_names, walk_append, r.walk]
    simp only [walk_cons, walk_nil, stepFrom_name t _ hn.1 hn.2, r.dir, List.append_assoc]
    rw [s.locate_eq] at file ⊢
    rw [file]
    by_cases hlim : nameLimit < n.utf8ByteSize
    · simp [hlim]
    · simp [hlim, Nat.not_lt.1 hlim]
  rw [FileTree.pathExists_iff, hwalk, file, hnotDir]
  simp

theorem readToDigest_of_file (found : t.pathExists cwd o = true)
    (file : t.node? (o.locate cwd) = some (.file bytes x)) : t.readToDigest cwd o = .ok bytes := by
  have hopen : t.openRead cwd o = .ok (.file bytes x) := by
    unfold openRead
    rw [resolve_of_pathExists found]
    simp only [file]
  unfold readToDigest
  rw [hopen]
  rfl

theorem readToDigest_ok (h : t.readToDigest cwd p = .ok bytes) :
    ∃ x, t.node? (p.locate cwd) = some (.file bytes x) := by
  unfold readToDigest at h
  cases ho : t.openRead cwd p with
  | error f =>
    rw [ho] at h
    cases h
  | ok n =>
    rw [openRead_ok ho]
    rw [ho] at h
    cases n with
    | dir => cases h
    | file bytes' x =>
      cases h
      exact ⟨x, rfl⟩

end FileTree

/-- What a compile step compiles is its source. -/
theorem CompileInputs.readToDigest_source {t : FileTree} {cwd : Location} {root : Path}
    {s : CompileStep} {i : CompileInputs} (h : CompileInputs.ofStep t cwd root s = .ok i) :
    t.readToDigest cwd (root.join s.source) = .ok i.source := by
  unfold CompileInputs.ofStep at h
  cases hsource : t.readToDigest cwd (root.join s.source) with
  | error e =>
    rw [hsource] at h
    cases h
  | ok source =>
    rw [hsource] at h
    cases hheaders : s.includeDirs.foldlM (fun hs d => addHeaders t cwd hs (root.join d))
        Table.empty with
    | error e =>
      simp only [bind, Except.bind, hheaders] at h
      cases h
    | ok headers =>
      simp only [bind, Except.bind, hheaders] at h
      cases h
      rfl

end GrammarBuild
