import GrammarBuild.Proofs.Parents
import GrammarBuild.Proofs.Steps
import GrammarBuild.Proofs.TreeLists
import Mathlib.Data.List.Infix

/-
  GrammarBuild/Proofs/Directories.lean
  ====================================
  **Making the directories for a result** — `createDirs` tries the last directory first
  and falls back on the parents.  Where the way to it begins with names that lead to a
  directory and goes straight down from there (`Straight`), it comes to a walk down the
  names that makes each directory that is missing (`descend`, `createDirs_eq_descend`).

  So it matters little what others make at the same time: in a tree to which only
  directories were added on the way, the directory for a result is made or refused as
  before and the same directories are there afterwards (`prepare_over`), and the result
  is found there if it was found before (`pathExists_over`).
-/

namespace GrammarBuild.FileTree

variable {t u v : FileTree} {cwd l m : Location} {o p q : Path} {a b rest : List String}

/-! ### Walks and single dots -/

/-- A single dot only makes sure that the walk stands in a directory, which every other
    step does as well. -/
theorem walk_dots (t : FileTree) (l : Location) (steps : List String) :
    t.walk l steps =
      match t.walk l (steps.filter (· ≠ ".")) with
      | .ok m =>
        if steps.getLast? = some "." ∧ t.isDirAt m = false then .error .notDirectory else .ok m
      | .error f => .error f := by
  induction steps generalizing l with
  | nil => simp [walk_nil]
  | cons name steps ih =>
    have hlast (hne : steps ≠ []) : (name :: steps).getLast? = steps.getLast? := by
      rw [List.getLast?_cons, List.getLast?_eq_some_getLast hne]
      rfl
    by_cases hdot : name = "."
    · subst hdot
      have hfilter : ("." :: steps).filter (· ≠ ".") = steps.filter (· ≠ ".") := by simp
      rw [hfilter, walk_cons]
      cases hd : t.isDirAt l with
      | true =>
        have hstep : t.stepFrom l "." = .ok l := by simp [stepFrom, hd]
        rw [hstep]
        by_cases hne : steps = []
        · subst hne
          simp [walk_nil, hd]
        · simp only [hlast hne]
          exact ih l
      | false =>
        have hstep (n : String) : t.stepFrom l n = .error .notDirectory := by simp [stepFrom, hd]
        rw [hstep]
        cases hf : steps.filter (· ≠ ".") with
        | nil =>
          have hall : ("." :: steps).getLast? = some "." := by
            by_cases hne : steps = []
            · rw [hne]
              rfl
            · rw [hlast hne, List.getLast?_eq_some_getLast hne, Option.some.injEq]
              have := List.filter_eq_nil_iff.1 hf _ (List.getLast_mem hne)
              simpa using this
          simp [walk_nil, hall, hd]
        | cons n ns => simp [walk_cons, hstep]

    · have hfilter : (name :: steps).filter (· ≠ ".") = name :: steps.filter (· ≠ ".") := by
        simp [hdot]
      rw [hfilter, walk_cons, walk_cons]
      cases t.stepFrom l name with
      | error f => rfl
      | ok l' =>
        simp only []
        by_cases hne : steps = []
        · subst hne
          simp [walk_nil, hdot]
        · simp only [hlast hne]
          exact ih l'

theorem notMem_names (p : Path) : "." ∉ p.names := by
  rw [← Path.filter_stepsOf]
  simp

/-- The steps of a walk along a path; a slash at its end asks for a directory. -/
def trail (p : Path) : List String := stepsOf p ++ if endsInSlash p then ["."] else []

theorem filter_trail (p : Path) : (trail p).filter (· ≠ ".") = p.names := by
  rw [trail, List.filter_append, Path.filter_stepsOf]
  split
  · simp
  · simp

theorem foldl_names (cwd : Location) (p : Path) :
    p.names.foldl stepTo (startOf cwd p) = p.locate cwd := by
  rw [← foldl_stepTo, ← Path.filter_stepsOf]
  generalize stepsOf p = steps
  generalize startOf cwd p = l
  induction steps generalizing l with
  | nil => rfl
  | cons name steps ih =>
    by_cases hdot : name = "."
    · simpa [hdot, stepTo] using ih l
    · simpa [hdot] using ih (stepTo l name)

/-- A path that ends in a name leads to where its names lead. -/
theorem resolve_tight (hc : checkText p = .ok ()) (tight : p.Tight)
    (dir : p.names = [] → t.isDirAt (startOf cwd p) = true) :
    t.resolve cwd p = t.walk (startOf cwd p) p.names := by
  unfold resolve
  rw [hc]
  show t.walk _ (trail p) = _
  rw [walk_dots, filter_trail]
  cases hw : t.walk (startOf cwd p) p.names with
  | error f => rfl
  | ok m =>
    rcases tight with hnil | ⟨hlast, hslash⟩
    · rw [hnil, walk_nil] at hw
      injection hw with hw
      simp [← hw, dir hnil]
    · simp [trail, hslash, hlast]

/-! ### Going straight down -/

/-- A step down to a name. -/
theorem stepFrom_name (t : FileTree) (l : Location) {name : String} (hdot : name ≠ ".")
    (hup : name ≠ "..") :
    t.stepFrom l name =
      if !t.isDirAt l then .error .notDirectory
      else if nameLimit < name.utf8ByteSize then .error .nameTooLong
      else if (t.node? (l ++ [name])).isSome then .ok (l ++ [name])
      else .error .notFound := by
  unfold stepFrom
  rw [if_neg hdot, if_neg hup]
  cases t.node? (l ++ [name]) with
  | none => rfl
  | some n => rfl

/-- A walk down names that makes each directory that is missing: with what it ends, and
    the tree that it leaves. -/
def descend : FileTree → Location → List String → Except HostFault Unit × FileTree
  | t, _, [] => (.ok (), t)
  | t, l, name :: names =>
    if !t.isDirAt l then (.error .notDirectory, t)
    else if nameLimit < name.utf8ByteSize then (.error .nameTooLong, t)
    else if (t.node? (l ++ [name])).isSome then t.descend (l ++ [name]) names
    else (t.set (l ++ [name]) .dir).descend (l ++ [name]) names

/-- Names that go down. -/
def Downward (names : List String) : Prop := ∀ name ∈ names, name ≠ "." ∧ name ≠ ".."

theorem foldl_stepTo_downward (down : Downward a) (l : Location) : a.foldl stepTo l = l ++ a := by
  induction a generalizing l with
  | nil => simp
  | cons name a ih =>
    obtain ⟨hdot, hup⟩ := down name List.mem_cons_self
    rw [List.foldl_cons, ih (fun n hn => down n (List.mem_cons_of_mem name hn)), stepTo, if_neg hdot,
      if_neg hup, List.append_assoc]
    rfl

theorem descend_of_walk_ok (down : Downward a) (h : t.walk l a = .ok m) :
    t.descend l a = (.ok (), t) := by
  induction a generalizing l with
  | nil => rfl
  | cons name a ih =>
    obtain ⟨hdot, hup⟩ := down name List.mem_cons_self
    rw [walk_cons, stepFrom_name t l hdot hup] at h
    rw [descend]
    split
    · rename_i hd
      rw [if_pos hd] at h
      cases h
    rename_i hd
    rw [if_neg hd] at h
    split
    · rename_i hlim
      rw [if_pos hlim] at h
      cases h
    rename_i hlim
    rw [if_neg hlim] at h
    split
    · rename_i hn
      rw [if_pos hn] at h
      exact ih (fun n hn => down n (List.mem_cons_of_mem name hn)) h
    · rename_i hn
      rw [if_neg hn] at h
      cases h

theorem descend_of_walk_error {f : HostFault} (down : Downward a) (h : t.walk l a = .error f)
    (hf : f ≠ .notFound) : t.descend l a = (.error f, t) := by
  induction a generalizing l with
  | nil =>
    rw [walk_nil] at h
    cases h
  | cons name a ih =>
    obtain ⟨hdot, hup⟩ := down name List.mem_cons_self
    rw [walk_cons, stepFrom_name t l hdot hup] at h
    rw [descend]
    split
    · rename_i hd
      rw [if_pos hd] at h
      injection h with h
      rw [h]
    rename_i hd
    rw [if_neg hd] at h
    split
    · rename_i hlim
      rw [if_pos hlim] at h
      injection h with h
      rw [h]
    rename_i hlim
    rw [if_neg hlim] at h
    split
    · rename_i hn
      rw [if_pos hn] at h
      exact ih (fun n hn => down n (List.mem_cons_of_mem name hn)) h
    · rename_i hn
      rw [if_neg hn] at h
      injection h with h
      exact absurd h.symm hf

theorem descend_append (t : FileTree) (l : Location) (a b : List String) :
    t.descend l (a ++ b) =
      match t.descend l a with
      | (.ok _, u) => u.descend (l ++ a) b
      | (.error f, u) => (.error f, u) := by
  induction a generalizing t l with
  | nil => simp [descend]
  | cons name a ih =>
    have hassoc : l ++ name :: a = l ++ [name] ++ a := by simp
    simp only [List.cons_append, descend]
    split
    · rfl
    split
    · rfl
    split
    · rw [ih, hassoc]
    · rw [ih, hassoc]

/-- A descent adds directories below where it begins, on the way down. -/
theorem descend_adds (t : FileTree) (l : Location) (names : List String) :
    AddsDirs (names.inits.map (l ++ ·)) t (t.descend l names).2 := by
  induction names generalizing t l with
  | nil => exact .refl _ t
  | cons name names ih =>
    have hrest : names.inits.map (l ++ [name] ++ ·) ⊆ (name :: names).inits.map (l ++ ·) := by
      intro k hk
      obtain ⟨x, hx, rfl⟩ := List.mem_map.1 hk
      refine List.mem_map.2 ⟨name :: x, ?_, by simp⟩
      rw [List.mem_inits] at hx ⊢
      exact List.cons_prefix_cons.2 ⟨rfl, hx⟩
    rw [descend]
    split
    · exact .refl _ t
    split
    · exact .refl _ t
    split
    · exact (ih t (l ++ [name])).mono hrest
    · rename_i hnone
      have hone : AddsDirs [l ++ [name]] t (t.set (l ++ [name]) .dir) :=
        addsDirs_set_dir (by simpa using hnone)
      refine (hone.mono ?_).trans ((ih _ _).mono hrest)
      intro k hk
      refine List.mem_map.2 ⟨[name], ?_, by rw [List.mem_singleton.1 hk]⟩
      rw [List.mem_inits]
      exact ⟨names, rfl⟩

/-- Where a descent came through, a walk goes. -/
theorem walk_of_descend (down : Downward a) (h : (t.descend l a).1 = .ok ()) :
    (t.descend l a).2.walk l a = .ok (l ++ a) := by
  induction a generalizing t l with
  | nil => simp [descend, walk_nil]
  | cons name a ih =>
    obtain ⟨hdot, hup⟩ := down name List.mem_cons_self
    have down' : Downward a := fun n hn => down n (List.mem_cons_of_mem name hn)
    have hassoc : l ++ name :: a = l ++ [name] ++ a := by simp
    have hk := (descend_adds t l (name :: a)).keeps
    rw [descend] at h hk ⊢
    split at h
    · cases h
    rename_i hd
    rw [if_neg hd] at hk ⊢
    split at h
    · cases h
    rename_i hlim
    rw [if_neg hlim] at hk ⊢
    have hd : t.isDirAt l = true := by simpa using hd
    split at h
    · rename_i hn
      rw [if_pos hn] at hk ⊢
      rw [walk_cons, stepFrom_name _ l hdot hup, hk.dirs l hd]
      simp only [Bool.not_true, Bool.false_eq_true, if_false, hlim, hk.nodes _ hn, if_true]
      rw [ih down' h, hassoc]
    · rename_i hn
      rw [if_neg hn] at hk ⊢
      have hset : (((t.set (l ++ [name]) .dir).descend (l ++ [name]) a).2.node? (l ++ [name])).isSome =
          true := by
        apply (descend_adds _ _ _).keeps.nodes
        rw [node?_set_same _ _ (by simp)]
        rfl
      rw [walk_cons, stepFrom_name _ l hdot hup, hk.dirs l hd]
      simp only [Bool.not_true, Bool.false_eq_true, if_false, hlim, hset, if_true]
      rw [ih down' h, hassoc]

/-- A walk down that finds something missing. -/
theorem missing_of_walk (down : Downward a) (h : t.walk l a = .error .notFound) :
    ∃ x, x <+: a ∧ x ≠ [] ∧ t.node? (l ++ x) = none := by
  induction a generalizing l with
  | nil =>
    rw [walk_nil] at h
    cases h
  | cons name a ih =>
    obtain ⟨hdot, hup⟩ := down name List.mem_cons_self
    rw [walk_cons, stepFrom_name t l hdot hup] at h
    split at h
    · rename_i l' hs
      split at hs
      · cases hs
      split at hs
      · cases hs
      split at hs
      · injection hs with hs
        subst hs
        obtain ⟨x, hx, -, hnone⟩ := ih (fun n hn => down n (List.mem_cons_of_mem name hn)) h
        refine ⟨name :: x, List.cons_prefix_cons.2 ⟨rfl, hx⟩, by simp, ?_⟩
        rw [← hnone]
        simp
      · cases hs
    · rename_i f hs
      injection h with h
      subst h
      split at hs
      · cases hs
      split at hs
      · cases hs
      split at hs
      · cases hs
      · rename_i hnone
        refine ⟨[name], ⟨a, rfl⟩, by simp, ?_⟩
        simpa using hnone

/-! ### Straight ways -/

/-- The way to a path begins with names that lead to a directory `base` and from there
    goes straight down along `rest`. -/
structure Straight (t : FileTree) (cwd : Location) (p : Path) (base : Location)
    (rest : List String) : Prop where
  front : ∃ a, p.names = a ++ rest ∧ t.walk (startOf cwd p) a = .ok base
  dir : t.isDirAt base = true
  down : ".." ∉ rest

namespace Straight

theorem downward (s : Straight t cwd p l rest) : Downward rest := by
  obtain ⟨a, ha, -⟩ := s.front
  intro name hn
  constructor
  · rintro rfl
    apply notMem_names p
    rw [ha]
    exact List.mem_append_right a hn
  · rintro rfl
    exact s.down hn

theorem walk_names (s : Straight t cwd p l rest) :
    t.walk (startOf cwd p) p.names = t.walk l rest := by
  obtain ⟨a, ha, hw⟩ := s.front
  rw [ha, walk_append, hw]

theorem locate_eq (s : Straight t cwd p l rest) : p.locate cwd = l ++ rest := by
  obtain ⟨a, ha, hw⟩ := s.front
  rw [← foldl_names, ha, List.foldl_append, ← walk_ok hw, foldl_stepTo_downward s.downward]

theorem names_parent? {n : String} (s : Straight t cwd p l (rest ++ [n]))
    (h : p.parent? = some q) : p.names = q.names ++ [n] := by
  obtain ⟨a, ha, -⟩ := s.front
  have hne : p.names ≠ [] := by simp [ha]
  obtain ⟨q', name, hq', hnames⟩ := Path.exists_parent? hne
  rw [h] at hq'
  injection hq' with hq'
  subst hq'
  have hlast : a ++ rest ++ [n] = q.names ++ [name] := by rw [← hnames, ha, List.append_assoc]
  rw [hnames, (List.append_singleton_inj.1 hlast).2]

theorem startOf_parent? {n : String} (s : Straight t cwd p l (rest ++ [n]))
    (h : p.parent? = some q) : startOf cwd q = startOf cwd p := by
  have hne : p.names ≠ [] := by simp [s.names_parent? h]
  rw [startOf, startOf, Path.isAbsolute_parent? h hne]

/-- The directory of a path that goes straight down stands on the same way. -/
theorem parent {n : String} (s : Straight t cwd p l (rest ++ [n])) (h : p.parent? = some q) :
    Straight t cwd q l rest := by
  refine ⟨?_, s.dir, fun hup => s.down (List.mem_append_left [n] hup)⟩
  obtain ⟨a, ha, hw⟩ := s.front
  refine ⟨a, ?_, ?_⟩
  · rw [s.names_parent? h, ← List.append_assoc] at ha
    exact (List.append_singleton_inj.1 ha).1
  · rw [s.startOf_parent? h, hw]

end Straight

theorem checkText_parent? (h : p.parent? = some q) (hc : checkText p = .ok ()) :
    q.text.isEmpty = true ∨ checkText q = .ok () := by
  by_cases hempty : q.text.isEmpty = true
  · exact .inl hempty
  right
  obtain ⟨r, hr⟩ := Path.prefix_of_parent? h
  have htext : p.text = q.text ++ String.ofList r := by
    apply String.toList_inj.1
    rw [String.toList_append, String.toList_ofList, hr]
  unfold checkText at hc ⊢
  split at hc
  · cases hc
  rename_i hzero
  split at hc
  · cases hc
  split at hc
  · cases hc
  rename_i hlim
  rw [htext, String.utf8ByteSize_append] at hlim
  have hnozero : q.text.toList.contains '\x00' = false := by
    rw [List.contains_eq_mem, decide_eq_false_iff_not]
    intro hmem
    apply hzero
    rw [List.contains_eq_mem, decide_eq_true_eq, ← hr]
    exact List.mem_append_left r hmem
  simp only [hnozero, Bool.false_eq_true, if_false, hempty]
  rw [if_neg (by omega)]

theorem parentOf_straight {n : String} (s : Straight t cwd p l (rest ++ [n]))
    (hc : checkText p = .ok ()) (tight : p.Tight) :
    t.parentOf cwd p =
      match t.walk l rest with
      | .error f => .error f
      | .ok m => if !t.isDirAt m then .error .notDirectory else .ok (m, some n) := by
  obtain ⟨a, ha, hw⟩ := s.front
  have hne : p.names ≠ [] := by simp [ha]
  obtain ⟨hlast, -⟩ := tight.resolve_left hne
  rcases List.eq_nil_or_concat (stepsOf p) with hnil | ⟨front, last, hfront⟩
  · rw [← Path.filter_stepsOf, hnil] at hne
    exact absurd rfl hne
  rw [List.concat_eq_append] at hfront
  have hdot : last ≠ "." := by
    rintro rfl
    rw [hfront] at hlast
    simp at hlast
  have hnames : front.filter (· ≠ ".") ++ [last] = a ++ rest ++ [n] := by
    rw [List.append_assoc, ← ha, ← Path.filter_stepsOf, hfront, List.filter_append]
    simp [hdot]
  obtain ⟨hrest, rfl⟩ := List.append_singleton_inj.1 hnames
  have hwalk : t.walk (startOf cwd p) (front.filter (· ≠ ".")) = t.walk l rest := by
    rw [hrest, walk_append, hw]
  have hsplit : (stepsOf p).dropLast = front ∧ (stepsOf p).getLast? = some last := by
    simp [hfront]
  unfold parentOf
  simp only [hc, hsplit.1, hsplit.2, bind, Except.bind]
  rw [walk_dots, hwalk]
  cases t.walk l rest with
  | error f => rfl
  | ok m =>
    cases hd : t.isDirAt m with
    | true => simp [hd, pure, Except.pure]
    | false =>
      by_cases hdots : front.getLast? = some "."
      · simp [hd, hdots]
      · simp [hd, hdots, throw, throwThe, MonadExceptOf.throw]

theorem createDir_straight {n : String} (s : Straight t cwd p l (rest ++ [n]))
    (hc : checkText p = .ok ()) (tight : p.Tight) :
    t.createDir cwd p =
      match t.walk l rest with
      | .error f => .error f
      | .ok m =>
        if !t.isDirAt m then .error .notDirectory
        else if nameLimit < n.utf8ByteSize then .error .nameTooLong
        else if (t.node? (m ++ [n])).isSome then .error .alreadyExists
        else .ok (t.set (m ++ [n]) .dir) := by
  have hn := s.downward n (List.mem_append_right rest List.mem_cons_self)
  have hdots : isDots n = false := by simp [isDots, hn.1, hn.2]
  unfold createDir
  rw [parentOf_straight s hc tight]
  cases t.walk l rest with
  | error f => rfl
  | ok m =>
    cases hd : t.isDirAt m with
    | false => simp [hd, bind, Except.bind]
    | true =>
      by_cases hlim : nameLimit < n.utf8ByteSize
      · simp [hd, bind, Except.bind, hdots, hlim, throw, throwThe, MonadExceptOf.throw]
      · cases hnode : t.node? (m ++ [n]) with
        | none => simp [hd, bind, Except.bind, hdots, hlim, hnode, pure, Except.pure]
        | some k =>
          simp [hd, bind, Except.bind, hdots, hlim, hnode, throw, throwThe, MonadExceptOf.throw]

/-! ### Making the directories -/

/-- A file that is on the way down stands in directories. -/
def Grounded (t : FileTree) (l : Location) (rest : List String) : Prop :=
  ∀ x, x <+: rest → (t.node? (l ++ x)).isSome = true → t.isDirAt (l ++ x) = false →
    ∀ z, z <+: x → z ≠ x → t.isDirAt (l ++ z) = true

theorem isDirAt_node? (t : FileTree) (l : Location) : t.isDirAt l = true ↔ t.node? l = some .dir := by
  unfold isDirAt
  cases t.node? l with
  | none => simp
  | some n =>
    cases n with
    | dir => simp [Node.isDir]
    | file bytes x => simp [Node.isDir]

theorem isDirAt_false_of_none (h : t.node? l = none) : t.isDirAt l = false := by
  rw [isDirAt, h]

theorem pathExists_tight (hc : checkText p = .ok ()) (tight : p.Tight)
    (dir : p.names = [] → t.isDirAt (startOf cwd p) = true) (h : t.walk (startOf cwd p) p.names = .ok m) :
    t.pathExists cwd p = (t.node? m).isSome ∧ t.isDir cwd p = t.isDirAt m := by
  unfold pathExists isDir at?
  rw [resolve_tight hc tight dir, h]
  refine ⟨rfl, ?_⟩
  simp only [isDirAt]
  cases hn : t.node? m with
  | none => simp
  | some n => simp

theorem isDir_of_not_pathExists (h : t.pathExists cwd p = false) : t.isDir cwd p = false := by
  unfold pathExists at h
  unfold isDir
  cases hat : t.at? cwd p with
  | none => rfl
  | some n => simp [hat] at h

theorem walk_names_of_pathExists (h : t.pathExists cwd p = true) :
    ∃ m, t.walk (startOf cwd p) p.names = .ok m := by
  unfold pathExists at?  at h
  cases hr : t.resolve cwd p with
  | error f => simp [hr] at h
  | ok m =>
    unfold resolve at hr
    cases hc : checkText p with
    | error f =>
      rw [hc] at hr
      cases hr
    | ok _ =>
      rw [hc] at hr
      have hw : t.walk (startOf cwd p) (trail p) = .ok m := hr
      rw [walk_dots, filter_trail] at hw
      cases hn : t.walk (startOf cwd p) p.names with
      | ok k => exact ⟨k, rfl⟩
      | error f =>
        rw [hn] at hw
        cases hw

/-- What is on the way down after something that is missing is a directory. -/
theorem Grounded.isDirAt_of_missing (g : Grounded t l rest) (down : Downward a)
    (missing : t.walk l a = .error .notFound) {y : List String} (hay : a <+: y) (hy : y <+: rest)
    (h : (t.node? (l ++ y)).isSome = true) : t.isDirAt (l ++ y) = true := by
  obtain ⟨x, hx, hne, hnone⟩ := missing_of_walk down missing
  cases hd : t.isDirAt (l ++ y) with
  | true => rfl
  | false =>
    exfalso
    by_cases hxy : x = y
    · rw [hxy] at hnone
      simp [hnone] at h
    · have hx' := g y hy h hd x (hx.trans hay) hxy
      rw [isDirAt_false_of_none hnone] at hx'
      cases hx'

/-- Where a walk down leads there is something. -/
theorem isSome_of_walk (down : Downward a) (hne : a ≠ []) (h : t.walk l a = .ok m) :
    (t.node? m).isSome = true := by
  rcases List.eq_nil_or_concat a with rfl | ⟨x, n, rfl⟩
  · exact absurd rfl hne
  · rw [List.concat_eq_append] at h down
    rw [walk_append] at h
    obtain ⟨hdot, hup⟩ := down n (by simp)
    cases hx : t.walk l x with
    | error f =>
      rw [hx] at h
      cases h
    | ok k =>
      rw [hx] at h
      simp only [walk_cons, walk_nil] at h
      cases hs : t.stepFrom k n with
      | error f =>
        rw [hs] at h
        cases h
      | ok k' =>
        rw [hs] at h
        injection h with h
        subst h
        exact ((stepFrom_ok hs).2.2 hdot hup).2

/-- A directory that was missing is there when a descent came through. -/
theorem isDirAt_of_descend (g : Grounded t l rest) (down : Downward a) (ha : a <+: rest)
    (missing : t.walk l a = .error .notFound) (ok : (t.descend l a).1 = .ok ()) :
    (t.descend l a).2.isDirAt (l ++ a) = true := by
  have hne : a ≠ [] := by
    rintro rfl
    rw [walk_nil] at missing
    cases missing
  have hsome := isSome_of_walk down hne (walk_of_descend down ok)
  rcases descend_adds t l a (l ++ a) with heq | ⟨-, -, hdir⟩
  · rw [heq] at hsome
    rw [isDirAt_node?, heq, ← isDirAt_node?]
    exact g.isDirAt_of_missing down missing (List.prefix_refl a) ha hsome
  · rw [isDirAt_node?]
    exact hdir

/-- The last directory of a way whose others are there. -/
theorem createLast_eq_descend {n : String} (s : Straight t cwd p l (rest ++ [n]))
    (hc : checkText p = .ok ()) (tight : p.Tight) (hw : t.walk l rest = .ok (l ++ rest))
    (free : t.isDirAt (l ++ rest) = true → n.utf8ByteSize ≤ nameLimit →
      (t.node? (l ++ (rest ++ [n]))).isSome = true → t.isDirAt (l ++ (rest ++ [n])) = true) :
    t.createLast cwd p = t.descend (l ++ rest) [n] := by
  have hne : p.names ≠ [] := by
    obtain ⟨a, ha, -⟩ := s.front
    simp [ha]
  have hn := s.downward n (by simp)
  rw [createLast, createDir_straight s hc tight, hw]
  simp only [descend, List.append_assoc]
  cases hd : t.isDirAt (l ++ rest) with
  | false =>
    have hfail : t.resolve cwd p = .error .notDirectory := by
      rw [resolve_tight hc tight (fun hnil => absurd hnil hne), s.walk_names, walk_append, hw]
      simp [walk_cons, stepFrom_name t _ hn.1 hn.2, hd]
    have hnot : t.isDir cwd p = false := by simp [isDir, at?, hfail]
    simp [hnot]
  | true =>
    by_cases hlim : nameLimit < n.utf8ByteSize
    · have hfail : t.resolve cwd p = .error .nameTooLong := by
        rw [resolve_tight hc tight (fun hnil => absurd hnil hne), s.walk_names, walk_append, hw]
        simp [walk_cons, stepFrom_name t _ hn.1 hn.2, hd, hlim]
      have hnot : t.isDir cwd p = false := by simp [isDir, at?, hfail]
      simp [hlim, hnot]
    · cases hsome : (t.node? (l ++ (rest ++ [n]))).isSome with
      | false => simp [hlim]
      | true =>
        have hwalk : t.walk (startOf cwd p) p.names = .ok (l ++ (rest ++ [n])) := by
          rw [s.walk_names, walk_append, hw]
          simp [walk_cons, walk_nil, stepFrom_name t _ hn.1 hn.2, hd, hlim, hsome]
        have hdir : t.isDir cwd p = true := by
          rw [(pathExists_tight hc tight (fun hnil => absurd hnil hne) hwalk).2]
          exact free hd (Nat.not_lt.1 hlim) hsome
        simp [hlim, hdir]

theorem Straight.text_ne {n : String} (s : Straight t cwd p l (rest ++ [n])) :
    p.text.isEmpty = false := by
  cases he : p.text.isEmpty with
  | false => rfl
  | true =>
    exfalso
    obtain ⟨a, ha, -⟩ := s.front
    have hp : p.text = "" := by simpa using he
    have hnil : p.names = [] := by
      rw [Path.names, Path.components, hp]
      rfl
    simp [hnil] at ha

theorem createDirs_of_walk_ok {n : String} (s : Straight t cwd p l (rest ++ [n]))
    (hc : checkText p = .ok ()) (tight : p.Tight) (hw : t.walk l rest = .ok m) :
    t.createDirs cwd p = t.createLast cwd p := by
  rw [createDirs, createLast, createDir_straight s hc tight, hw, s.text_ne]
  simp only [Bool.false_eq_true, if_false]
  split
  · rename_i u hu
    rw [hu]
  · rename_i hnone
    split at hnone
    · cases hnone
    split at hnone
    · cases hnone
    split at hnone
    · cases hnone
    · cases hnone
  · rename_i f hf hcr
    rw [hcr]

/-- A directory whose parents are there is made by itself or not at all. -/
theorem createDirs_of_error {f : HostFault} (he : p.text.isEmpty = false)
    (hcreate : t.createDir cwd p = .error f) (hf : f ≠ .notFound) :
    t.createDirs cwd p = if t.isDir cwd p then (.ok (), t) else (.error f, t) := by
  rw [createDirs, hcreate, he]
  simp only [Bool.false_eq_true, if_false]

theorem createDirs_of_notFound (he : p.text.isEmpty = false)
    (hcreate : t.createDir cwd p = .error .notFound) (hp : p.parent? = some q) :
    t.createDirs cwd p =
      match t.createDirs cwd q with
      | (.ok _, u) => u.createLast cwd p
      | (.error f, u) => (.error f, u) := by
  rw [createDirs, hcreate, he]
  simp only [Bool.false_eq_true, if_false]
  split
  · rename_i hnone
    rw [hp] at hnone
    cases hnone
  · rename_i q' hq'
    obtain rfl : q = q' := Option.some.inj (hp.symm.trans hq')
    rcases t.createDirs cwd q with ⟨r, u⟩
    cases r with
    | error f => rfl
    | ok _ => rfl

/-- Where a directory is missing, making it with its parents is a descent. -/
theorem createDirs_eq_descend (s : Straight t cwd p l rest) (g : Grounded t l rest)
    (hc : checkText p = .ok ()) (tight : p.Tight) (missing : t.pathExists cwd p = false) :
    t.createDirs cwd p = t.descend l rest := by
  induction rest using List.reverseRecOn generalizing p with
  | nil =>
    exfalso
    have hwalk : t.walk (startOf cwd p) p.names = .ok l := by rw [s.walk_names, walk_nil]
    have hstart (hnil : p.names = []) : t.isDirAt (startOf cwd p) = true := by
      rw [hnil, walk_nil] at hwalk
      injection hwalk with hwalk
      rw [hwalk]
      exact s.dir
    rw [(pathExists_tight hc tight hstart hwalk).1, (isDirAt_node? t l).1 s.dir] at missing
    cases missing
  | append_singleton rest n ih =>
    have hne : p.names ≠ [] := by
      obtain ⟨a, ha, -⟩ := s.front
      simp [ha]
    obtain ⟨q, -, hq, -⟩ := Path.exists_parent? hne
    have sq := s.parent hq
    have down := sq.downward
    have hn := s.downward n (by simp)
    have hpre : rest <+: rest ++ [n] := List.prefix_append rest [n]
    rw [descend_append]
    cases hw : t.walk l rest with
    | ok m =>
      -- only the last directory is missing
      obtain rfl : m = l ++ rest := by rw [walk_ok hw, foldl_stepTo_downward down]
      rw [descend_of_walk_ok down hw, createDirs_of_walk_ok s hc tight hw]
      apply createLast_eq_descend s hc tight hw
      intro hd hlim hsome
      exfalso
      have hwalk : t.walk (startOf cwd p) p.names = .ok (l ++ (rest ++ [n])) := by
        rw [s.walk_names, walk_append, hw]
        simp [walk_cons, walk_nil, stepFrom_name t _ hn.1 hn.2, hd, Nat.not_lt.2 hlim, hsome]
      rw [(pathExists_tight hc tight (fun hnil => absurd hnil hne) hwalk).1, hsome] at missing
      cases missing
    | error f =>
      by_cases hf : f = .notFound
      · subst hf
        have gq : Grounded t l rest := fun x hx => g x (hx.trans hpre)
        have hqmissing : t.pathExists cwd q = false := by
          cases he : t.pathExists cwd q with
          | false => rfl
          | true =>
            obtain ⟨m, hm⟩ := walk_names_of_pathExists he
            rw [sq.walk_names, hw] at hm
            cases hm
        have hqc : checkText q = .ok () := by
          rcases checkText_parent? hq hc with hempty | hqc
          · exfalso
            rcases List.eq_nil_or_concat rest with rfl | ⟨x, k, rfl⟩
            · rw [walk_nil] at hw
              cases hw
            · rw [List.concat_eq_append] at sq
              rw [sq.text_ne] at hempty
              cases hempty
          · exact hqc
        have hcreate : t.createDir cwd p = .error .notFound := by
          rw [createDir_straight s hc tight, hw]
        rw [createDirs_of_notFound s.text_ne hcreate hq,
          ih sq gq hqc (Path.tight_of_parent? hq) hqmissing]
        have hadds := descend_adds t l rest
        have hthrough := walk_of_descend (t := t) (l := l) down
        have hend := isDirAt_of_descend gq down (List.prefix_refl rest) hw
        generalize t.descend l rest = made at hadds hthrough hend ⊢
        obtain ⟨r, u⟩ := made
        cases r with
        | error e => rfl
        | ok _ =>
          have su : Straight u cwd p l (rest ++ [n]) := by
            obtain ⟨a, ha, hwa⟩ := s.front
            exact ⟨⟨a, ha, hadds.keeps.walk hwa⟩, hadds.keeps.dirs l s.dir, s.down⟩
          apply createLast_eq_descend su hc tight (hthrough rfl)
          intro hd hlim hsome
          -- the descent stopped above, so this was there before
          have hsame : u.node? (l ++ (rest ++ [n])) = t.node? (l ++ (rest ++ [n])) := by
            rcases hadds (l ++ (rest ++ [n])) with heq | ⟨hmem, -⟩
            · exact heq
            · obtain ⟨x, hx, hxe⟩ := List.mem_map.1 hmem
              have hlen := ((List.mem_inits x rest).1 hx).length_le
              rw [List.append_cancel_left hxe, List.length_append, List.length_singleton] at hlen
              omega
          rw [isDirAt_node?, hsame, ← isDirAt_node?]
          rw [hsame] at hsome
          exact g.isDirAt_of_missing down hw hpre (List.prefix_refl _) hsome
      · have hcreate : t.createDir cwd p = .error f := by
          rw [createDir_straight s hc tight, hw]
        rw [createDirs_of_error s.text_ne hcreate hf, isDir_of_not_pathExists missing,
          descend_of_walk_error down hw hf]
        rfl

/-- The directory around a result is made by a descent. -/
theorem prepare_eq_descend {n : String} (s : Straight t cwd o l (rest ++ [n]))
    (g : Grounded t l rest) (hp : o.parent? = some p) (hc : checkText p = .ok ()) :
    t.prepare cwd o =
      (Failure.within (.creatingDirectory p) (Failure.lift .host (t.descend l rest).1),
        (t.descend l rest).2) := by
  have sp := s.parent hp
  unfold prepare
  rw [hp]
  simp only []
  cases he : t.pathExists cwd p with
  | false => rw [createDirs_eq_descend sp g hc (Path.tight_of_parent? hp) he]; rfl
  | true =>
    obtain ⟨m, hm⟩ := walk_names_of_pathExists he
    rw [sp.walk_names] at hm
    rw [descend_of_walk_ok sp.downward hm]
    rfl

/-- A path that the host does not take is refused whatever the files are. -/
theorem prepare_of_checkText {f : HostFault} (hp : o.parent? = some p)
    (hc : checkText p = .error f) :
    t.prepare cwd o =
      (if p.text.isEmpty then .ok ()
        else Failure.within (.creatingDirectory p) (Failure.lift .host (.error f)), t) := by
  have hresolve : t.resolve cwd p = .error f := by
    unfold resolve
    rw [hc]
    rfl
  have hexists : t.pathExists cwd p = false := by simp [pathExists, at?, hresolve]
  have hdir : t.isDir cwd p = false := by simp [isDir, at?, hresolve]
  have hcreate : t.createDir cwd p = .error f := by
    unfold createDir parentOf
    rw [hc]
    rfl
  unfold prepare
  rw [hp]
  simp only [hexists, Bool.false_eq_true, if_false]
  rw [createDirs, hcreate]
  cases hempty : p.text.isEmpty with
  | true => rfl
  | false =>
    have hf : f ≠ .notFound := by
      rintro rfl
      unfold checkText at hc
      split at hc
      · cases hc
      split at hc
      · rename_i h
        rw [hempty] at h
        cases h
      split at hc
      · cases hc
      · cases hc
    simp only [Bool.false_eq_true, if_false, hdir]

/-! ### Trees with more directories -/

/-- There is nothing at a location in `t`, and a directory in `u`. -/
def Gains (t u : FileTree) (l : Location) : Prop := t.node? l = none ∧ u.node? l = some .dir

/-- From `u` to `u'` there come the directories that come from `t` to `t'`. -/
def AddsAlike (t t' u u' : FileTree) : Prop :=
  ∀ m, (Gains t t' m → u'.node? m = some .dir) ∧ (¬ Gains t t' m → u'.node? m = u.node? m)

/-- Whatever is there stands in a directory. -/
def Closed (t : FileTree) : Prop :=
  ∀ l name, (t.node? (l ++ [name])).isSome = true → t.isDirAt l = true

theorem Closed.isDirAt (closed : Closed t) {x z : List String} (h : (t.node? (l ++ x)).isSome = true)
    (hz : z <+: x) (hne : z ≠ x) : t.isDirAt (l ++ z) = true := by
  induction x using List.reverseRecOn with
  | nil => exact absurd (List.prefix_nil.1 hz) hne
  | append_singleton x n ih =>
    rw [← List.append_assoc] at h
    have hdir := closed _ _ h
    rcases List.prefix_concat_iff.1 hz with hz | hz
    · exact absurd hz hne
    · by_cases hzx : z = x
      · rw [hzx]
        exact hdir
      · apply ih _ hz hzx
        rw [(isDirAt_node? t _).1 hdir]
        rfl

/-- Of a given tree it can be decided by its list. -/
theorem Closed.of_toList (dirs : ∀ e ∈ t.toList, t.isDirAt e.1.dropLast = true) : Closed t := by
  intro l name there
  obtain ⟨n, hn⟩ := Option.isSome_iff_exists.1 there
  have hdir := dirs _ (mem_toList (by simp) hn)
  rwa [List.dropLast_concat] at hdir

theorem Closed.grounded (closed : Closed t) (l : Location) (rest : List String) :
    Grounded t l rest :=
  fun _ _ h _ _ hz hne => closed.isDirAt h hz hne

theorem descend_over (there : (t.node? l).isSome = true)
    (more : ∀ x, x <+: rest → u.node? (l ++ x) = t.node? (l ++ x) ∨ Gains t u (l ++ x)) :
    (u.descend l rest).1 = (t.descend l rest).1 ∧
      AddsAlike t (t.descend l rest).2 u (u.descend l rest).2 := by
  have none_gained (t u : FileTree) : AddsAlike t t u u := by
    intro m
    refine ⟨?_, fun _ => rfl⟩
    rintro ⟨hnone, hdir⟩
    rw [hnone] at hdir
    cases hdir
  induction rest generalizing t u l with
  | nil => exact ⟨rfl, none_gained t u⟩
  | cons n rest ih =>
    have hl : u.node? l = t.node? l := by
      rcases more [] List.nil_prefix with h | h
      · simpa using h
      · rw [List.append_nil] at h
        simp [h.1] at there
    have hd : u.isDirAt l = t.isDirAt l := by rw [FileTree.isDirAt, hl, FileTree.isDirAt]
    have hover (x : List String) (hx : x <+: rest) :
        u.node? (l ++ [n] ++ x) = t.node? (l ++ [n] ++ x) ∨ Gains t u (l ++ [n] ++ x) := by
      have hassoc : l ++ [n] ++ x = l ++ n :: x := by simp
      rw [hassoc]
      exact more (n :: x) (List.cons_prefix_cons.2 ⟨rfl, hx⟩)
    have hn := hover [] List.nil_prefix
    rw [List.append_nil] at hn
    simp only [descend, hd]
    split
    · exact ⟨rfl, none_gained t u⟩
    split
    · exact ⟨rfl, none_gained t u⟩
    cases hsome : (t.node? (l ++ [n])).isSome with
    | true =>
      have hsame : u.node? (l ++ [n]) = t.node? (l ++ [n]) := by
        rcases hn with h | h
        · exact h
        · simp [h.1] at hsome
      simp only [hsame, hsome, if_true]
      exact ih hsome hover
    | false =>
      have hnone : t.node? (l ++ [n]) = none := by simpa using hsome
      have hne : l ++ [n] ≠ [] := by simp
      have hthere : ((t.set (l ++ [n]) .dir).node? (l ++ [n])).isSome = true := by
        rw [node?_set_same t _ hne]
        rfl
      have hset (v : FileTree) (m : Location) (hm : m ≠ l ++ [n]) :
          (v.set (l ++ [n]) .dir).node? m = v.node? m := by
        rw [node?_set, if_neg (fun h => hm h.2)]
      -- the tree with the directory, made here or by others before
      obtain ⟨w, hw, hwn, hwm⟩ : ∃ w : FileTree,
          (if (u.node? (l ++ [n])).isSome = true then u.descend (l ++ [n]) rest
            else (u.set (l ++ [n]) .dir).descend (l ++ [n]) rest) = w.descend (l ++ [n]) rest ∧
          w.node? (l ++ [n]) = some .dir ∧ ∀ m, m ≠ l ++ [n] → w.node? m = u.node? m := by
        rcases hn with h | h
        · refine ⟨u.set (l ++ [n]) .dir, ?_, node?_set_same u _ hne, hset u⟩
          rw [h, hnone]
          rfl
        · refine ⟨u, ?_, h.2, fun _ _ => rfl⟩
          rw [h.2]
          rfl
      have hoverw (x : List String) (hx : x <+: rest) :
          w.node? (l ++ [n] ++ x) = (t.set (l ++ [n]) .dir).node? (l ++ [n] ++ x) ∨
            Gains (t.set (l ++ [n]) .dir) w (l ++ [n] ++ x) := by
        by_cases hx0 : x = []
        · subst hx0
          left
          rw [List.append_nil, hwn, node?_set_same t _ hne]
        · have hm : l ++ [n] ++ x ≠ l ++ [n] := by simpa using hx0
          rw [Gains, hwm _ hm, hset t _ hm]
          exact hover x hx
      simp only [Bool.false_eq_true, if_false]
      rw [hw]
      obtain ⟨hres, halike⟩ := ih hthere hoverw
      refine ⟨hres, fun m => ?_⟩
      obtain ⟨hgains, hrest⟩ := halike m
      by_cases hm : m = l ++ [n]
      · subst hm
        have hnot : ¬ Gains (t.set (l ++ [n]) .dir)
            ((t.set (l ++ [n]) .dir).descend (l ++ [n]) rest).2 (l ++ [n]) := by
          intro h
          rw [h.1] at hthere
          cases hthere
        have hdir : ((t.set (l ++ [n]) .dir).descend (l ++ [n]) rest).2.node? (l ++ [n]) = some .dir := by
          rw [(descend_adds _ _ _).node?_eq hthere, node?_set_same t _ hne]
        refine ⟨fun _ => by rw [hrest hnot, hwn], fun h => absurd ⟨hnone, hdir⟩ h⟩
      · rw [Gains, hset t m hm] at hgains hrest
        rw [hwm m hm] at hrest
        exact ⟨hgains, hrest⟩

/-- A walk is as good where nothing on it is lost. -/
theorem walk_of_same (h : t.walk l a = .ok m)
    (same : ∀ x, x <+: a → (t.node? (x.foldl stepTo l)).isSome = true →
      u.node? (x.foldl stepTo l) = t.node? (x.foldl stepTo l)) : u.walk l a = .ok m := by
  induction a generalizing l with
  | nil => rwa [walk_nil] at h ⊢
  | cons name a ih =>
    rw [walk_cons] at h ⊢
    cases hs : t.stepFrom l name with
    | error f =>
      rw [hs] at h
      cases h
    | ok k =>
      rw [hs] at h
      obtain ⟨rfl, hdir, hname⟩ := stepFrom_ok hs
      have hl : u.node? l = t.node? l := by
        apply same [] List.nil_prefix
        rw [List.foldl_nil, (isDirAt_node? t l).1 hdir]
        rfl
      have hstep : u.stepFrom l name = .ok (stepTo l name) := by
        apply stepFrom_of_node
        · rw [isDirAt_node?, hl, ← isDirAt_node?, hdir]
        · intro hdot hup
          obtain ⟨hlim, hsome⟩ := hname hdot hup
          have hto : u.node? (stepTo l name) = t.node? (stepTo l name) := same [name] ⟨a, rfl⟩ hsome
          rw [hto]
          exact ⟨hlim, hsome⟩
      rw [hstep]
      apply ih h
      intro x hx hsome
      exact same (name :: x) (List.cons_prefix_cons.2 ⟨rfl, hx⟩) hsome

theorem foldl_stepTo_mem_wayFrom (parts : List (List Char)) {l : Location} {x : List String}
    (hx : x <+: (parts.filterMap Component.ofPart?).filterMap Component.name?) :
    x.foldl stepTo l ∈ Component.wayFrom l (parts.filterMap Component.ofPart?) := by
  induction parts generalizing l x with
  | nil =>
    rw [List.prefix_nil.1 hx]
    exact List.mem_cons_self
  | cons part parts ih =>
    have hdot : String.ofList ['.'] = "." := rfl
    have hup : String.ofList ['.', '.'] = ".." := rfl
    have hhead (c : Component) (cs : List Component) : l ∈ Component.wayFrom l (c :: cs) :=
      List.mem_cons_self
    by_cases h0 : part = []
    · subst h0
      exact ih hx
    by_cases h1 : part = ['.']
    · subst h1
      exact ih hx
    by_cases h2 : part = ['.', '.']
    · subst h2
      cases x with
      | nil => exact hhead _ _
      | cons name x =>
        obtain ⟨rfl, hx'⟩ := List.cons_prefix_cons.1 hx
        exact List.mem_cons_of_mem l (ih hx')
    · have hofPart : Component.ofPart? part = some (.normal (String.ofList part)) := by
        simp [Component.ofPart?, h0, h1, h2]
      rw [List.filterMap_cons, hofPart] at hx ⊢
      cases x with
      | nil => exact hhead _ _
      | cons name x =>
        obtain ⟨rfl, hx'⟩ := List.cons_prefix_cons.1 hx
        have hn1 : String.ofList part ≠ "." := fun h => h1 (by simpa using congrArg String.toList h)
        have hn2 : String.ofList part ≠ ".." := fun h => h2 (by simpa using congrArg String.toList h)
        have hto : stepTo l (String.ofList part) = l ++ [String.ofList part] := by
          simp [stepTo, hn1, hn2]
        rw [List.foldl_cons, hto]
        exact List.mem_cons_of_mem l (ih hx')

/-- Where the first names of a path lead is on the way to it. -/
theorem foldl_names_mem_way (cwd : Location) (p : Path) {x : List String} (hx : x <+: p.names) :
    x.foldl stepTo (startOf cwd p) ∈ p.way cwd := by
  have hparts : p.names =
      ((List.splitOn '/' p.text.toList).filterMap Component.ofPart?).filterMap Component.name? := by
    rw [Path.names, Path.components, Path.componentsOf_eq, List.filterMap_append,
      Path.filterMap_name?_leadOf, List.nil_append]
  rw [hparts] at hx
  rw [Path.way, Path.components, Path.componentsOf_eq, Path.leadOf, startOf, Path.isAbsolute]
  by_cases habs : p.text.toList.head? = some '/'
  · rw [if_pos habs, beq_iff_eq.2 habs]
    exact List.mem_cons_of_mem cwd (foldl_stepTo_mem_wayFrom _ hx)
  · rw [if_neg habs, beq_eq_false_iff_ne.2 habs]
    split
    · exact List.mem_cons_of_mem cwd (foldl_stepTo_mem_wayFrom _ hx)
    · exact foldl_stepTo_mem_wayFrom _ hx

theorem pathExists_iff (t : FileTree) (cwd : Location) (p : Path) :
    t.pathExists cwd p = true ↔
      checkText p = .ok () ∧ t.walk (startOf cwd p) p.names = .ok (p.locate cwd) ∧
        (t.node? (p.locate cwd)).isSome = true ∧
        ((trail p).getLast? = some "." → t.isDirAt (p.locate cwd) = true) := by
  have hresolve (l : Location) : t.resolve cwd p = .ok l ↔
      checkText p = .ok () ∧ t.walk (startOf cwd p) (trail p) = .ok l := by
    unfold resolve
    cases checkText p with
    | error f =>
      constructor
      · intro h
        cases h
      · rintro ⟨h, -⟩
        cases h
    | ok _ => exact ⟨fun h => ⟨rfl, h⟩, fun h => h.2⟩
  constructor
  · intro h
    have hnode := node?_of_pathExists h
    unfold pathExists at? at h
    cases hr : t.resolve cwd p with
    | error f => simp [hr] at h
    | ok l =>
      obtain ⟨hc, hw⟩ := (hresolve l).1 hr
      obtain rfl := resolve_ok hr
      rw [walk_dots, filter_trail] at hw
      cases hn : t.walk (startOf cwd p) p.names with
      | error f =>
        rw [hn] at hw
        cases hw
      | ok m =>
        rw [hn] at hw
        simp only [] at hw
        split at hw
        · cases hw
        · rename_i hlast
          injection hw with hw
          subst hw
          refine ⟨hc, rfl, hnode, fun hdot => ?_⟩
          cases hd : t.isDirAt (p.locate cwd) with
          | true => rfl
          | false => exact absurd ⟨hdot, hd⟩ hlast
  · rintro ⟨hc, hw, hnode, hlast⟩
    have hr : t.resolve cwd p = .ok (p.locate cwd) := by
      refine (hresolve _).2 ⟨hc, ?_⟩
      rw [walk_dots, filter_trail, hw]
      simp only []
      rw [if_neg]
      rintro ⟨hdot, hd⟩
      rw [hlast hdot] at hd
      cases hd
    unfold pathExists at?
    rw [hr]
    exact hnode

/-- A file that is found is read as before where the way to it is as it was. -/
theorem openRead_of_same (found : t.pathExists cwd p = true)
    (same : ∀ k ∈ p.way cwd, (t.node? k).isSome = true → u.node? k = t.node? k) :
    u.openRead cwd p = t.openRead cwd p := by
  obtain ⟨hc, hw, hnode, hlast⟩ := (pathExists_iff t cwd p).1 found
  have hplace := same _ (p.locate_mem_way cwd) hnode
  have found' : u.pathExists cwd p = true := by
    rw [pathExists_iff, isDirAt, hplace]
    refine ⟨hc, ?_, hnode, hlast⟩
    exact walk_of_same hw fun x hx hsome => same _ (foldl_names_mem_way cwd p hx) hsome
  exact openRead_of_found found found' hplace

/-! ### The result of a step while others are made -/

section

variable {n : String} (more : ∀ m ∈ o.dirWay cwd, u.node? m = t.node? m ∨ Gains t u m)

include more

/-- What was on the way to a result is as it was. -/
theorem node?_of_over {x : List String} (s : Straight t cwd o l (rest ++ [n])) (hx : x <+: o.names)
    (hne : x ≠ o.names) (h : (t.node? (x.foldl stepTo (startOf cwd o))).isSome = true) :
    u.node? (x.foldl stepTo (startOf cwd o)) = t.node? (x.foldl stepTo (startOf cwd o)) := by
  obtain ⟨a, ha, -⟩ := s.front
  obtain ⟨q, -, hq, -⟩ := Path.exists_parent? (p := o) (by simp [ha])
  have hxq : x <+: q.names := by
    rw [s.names_parent? hq] at hx hne
    exact (List.prefix_concat_iff.1 hx).resolve_left hne
  have hway := foldl_names_mem_way cwd q hxq
  rw [s.startOf_parent? hq, Path.way_parent? hq] at hway
  rcases more _ hway with heq | ⟨hnone, -⟩
  · exact heq
  · rw [hnone] at h
    cases h

theorem Straight.kept (s : Straight t cwd o l (rest ++ [n])) : Straight u cwd o l (rest ++ [n]) := by
  obtain ⟨a, ha, hw⟩ := s.front
  have hsame (x : List String) (hx : x <+: a)
      (h : (t.node? (x.foldl stepTo (startOf cwd o))).isSome = true) :
      u.node? (x.foldl stepTo (startOf cwd o)) = t.node? (x.foldl stepTo (startOf cwd o)) := by
    apply node?_of_over more s _ _ h
    · rw [ha]
      exact hx.trans (List.prefix_append a _)
    · rintro rfl
      have hlen := hx.length_le
      rw [ha, List.length_append, List.length_append, List.length_singleton] at hlen
      omega
  refine ⟨⟨a, ha, walk_of_same hw hsame⟩, ?_, s.down⟩
  have hl := hsame a (List.prefix_refl a)
  rw [← walk_ok hw, (isDirAt_node? t l).1 s.dir] at hl
  rw [isDirAt_node?]
  exact hl rfl

/-- Below its base a straight way shows what it did, or directories. -/
theorem Straight.below (s : Straight t cwd o l (rest ++ [n])) {x : List String} (hx : x <+: rest) :
    u.node? (l ++ x) = t.node? (l ++ x) ∨ Gains t u (l ++ x) := by
  obtain ⟨a, ha, hw⟩ := s.front
  obtain ⟨q, -, hq, -⟩ := Path.exists_parent? (p := o) (by simp [ha])
  obtain ⟨b, hb, hwb⟩ := (s.parent hq).front
  have hway := foldl_names_mem_way cwd q (x := b ++ x) (by rw [hb]; exact (List.prefix_append_right_inj b).2 hx)
  have down : Downward x := fun k hk => s.downward k (List.mem_append_left [n] (hx.subset hk))
  rw [List.foldl_append, ← walk_ok hwb, foldl_stepTo_downward down, Path.way_parent? hq] at hway
  exact more _ hway

theorem Straight.grounded (closed : Closed t) (s : Straight t cwd o l (rest ++ [n])) :
    Grounded u l rest := by
  intro x hx hsome hd z hz hne
  have hsame : u.node? (l ++ x) = t.node? (l ++ x) := by
    rcases s.below more hx with h | h
    · exact h
    · rw [(isDirAt_node? u _).2 h.2] at hd
      cases hd
  rw [hsame] at hsome
  have hdir := (isDirAt_node? t _).1 (closed.isDirAt hsome hz hne)
  rcases s.below more (hz.trans hx) with h | h
  · rw [isDirAt_node?, h, hdir]
  · exact (isDirAt_node? u _).2 h.2

/-- The directory around a result is made or refused as before, and there come the same
    directories. -/
theorem prepare_over (closed : Closed t) (s : Straight t cwd o l (rest ++ [n])) :
    (u.prepare cwd o).1 = (t.prepare cwd o).1 ∧
      AddsAlike t (t.prepare cwd o).2 u (u.prepare cwd o).2 := by
  obtain ⟨a, ha, -⟩ := s.front
  obtain ⟨q, -, hq, -⟩ := Path.exists_parent? (p := o) (by simp [ha])
  cases hc : checkText q with
  | error f =>
    rw [prepare_of_checkText hq hc, prepare_of_checkText hq hc]
    refine ⟨rfl, fun m => ⟨?_, fun _ => rfl⟩⟩
    rintro ⟨hnone, hdir⟩
    rw [hnone] at hdir
    cases hdir
  | ok _ =>
    have below := fun x (hx : x <+: rest) => s.below more hx
    have gu := s.grounded more closed
    rw [prepare_eq_descend s (closed.grounded l rest) hq hc, prepare_eq_descend (s.kept more) gu hq hc]
    have hbase : (t.node? l).isSome = true := by
      rw [(isDirAt_node? t l).1 s.dir]
      rfl
    obtain ⟨hres, halike⟩ : (u.descend l rest).1 = (t.descend l rest).1 ∧
        AddsAlike t (t.descend l rest).2 u (u.descend l rest).2 := descend_over hbase below
    rw [hres]
    exact ⟨rfl, halike⟩

/-- The result is found if it was found before. -/
theorem pathExists_over (closed : Closed t) (s : Straight t cwd o l (rest ++ [n]))
    (own : u.node? (o.locate cwd) = t.node? (o.locate cwd)) :
    u.pathExists cwd o = t.pathExists cwd o := by
  have hdir : u.isDirAt (o.locate cwd) = t.isDirAt (o.locate cwd) := by
    rw [FileTree.isDirAt, own, FileTree.isDirAt]
  rw [Bool.eq_iff_iff, pathExists_iff, pathExists_iff, own, hdir]
  refine and_congr_right fun _ => and_congr_left fun hrest => ?_
  have hsome := hrest.1
  rw [s.walk_names, (s.kept more).walk_names, s.locate_eq]
  rw [s.locate_eq] at hsome own
  -- a result that is there stands in directories that were there before
  have hsame (x : List String) (hx : x <+: rest ++ [n]) :
      u.node? (x.foldl stepTo l) = t.node? (x.foldl stepTo l) := by
    have down : Downward x := fun k hk => s.downward k (hx.subset hk)
    rw [foldl_stepTo_downward down]
    rcases List.prefix_concat_iff.1 hx with rfl | hx'
    · exact own
    · have hne : x ≠ rest ++ [n] := by
        rintro rfl
        have hlen := hx'.length_le
        rw [List.length_append, List.length_singleton] at hlen
        omega
      rcases s.below more hx' with h | ⟨hnone, -⟩
      · exact h
      · rw [(isDirAt_node? t _).1 (closed.isDirAt hsome hx hne)] at hnone
        cases hnone
  constructor
  · intro h
    exact walk_of_same h fun x hx _ => (hsame x hx).symm
  · intro h
    exact walk_of_same h fun x hx _ => hsame x hx

end

end GrammarBuild.FileTree
