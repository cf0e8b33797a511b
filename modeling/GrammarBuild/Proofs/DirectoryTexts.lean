import GrammarBuild.Proofs.TreeSearch

/-
  GrammarBuild/Proofs/DirectoryTexts.lean
  =======================================
  **The text of a directory in front of a pattern** — a directory's text becomes part of
  the pattern that is searched for below it.  If it stands for itself there
  (`Path.Literal`), the search first comes to a path that stands for the directory
  (`standsFor_arrival`) through directories only (`isDir_of_leading`), and the pattern is
  then searched for from that path (`paths_eq_below`).
-/

namespace GrammarBuild

/-- No character of the text means anything in a pattern, and after the dots that it
    begins with there are no two slashes. -/
structure Path.Literal (p : Path) : Prop where
  chars : ∀ c ∈ p.text.toList, Pattern.StandsForItself c
  noGap : ∀ k part parts,
    List.splitOn '/' p.text.toList ≠ List.replicate (k + 1) ['.'] ++ [] :: part :: parts

namespace Glob

open FileTree

variable {base : Path} {front : List Char}

/-- The text of a path without one slash at its end. -/
structure FrontOf (base : Path) (front : List Char) : Prop where
  child : (base.child "").text.toList = front ++ ['/']
  text : (base.text.toList = front ∧ front.getLast? ≠ some '/') ∨ base.text.toList = front ++ ['/']
  noRoot : base.isAbsolute = false → front.head? ≠ some '/' ∧ front ≠ []

theorem exists_frontOf (hne : base.text ≠ "") : ∃ front, FrontOf base front := by
  have hempty : (⟨""⟩ : Path).isAbsolute = false := rfl
  have hslash : "/".toList = ['/'] := rfl
  by_cases hlast : base.text.toList.getLast? = some '/'
  · obtain ⟨front, hfront⟩ := List.getLast?_eq_some_iff.1 hlast
    refine ⟨front, ?_, .inr hfront, fun habs => ?_⟩
    · unfold Path.child Path.join
      simp [hempty, hfront]
    · rw [Path.isAbsolute, hfront, beq_eq_false_iff_ne] at habs
      cases front with
      | nil => exact absurd rfl habs
      | cons c front => exact ⟨habs, by simp⟩
  · refine ⟨base.text.toList, ?_, .inl ⟨rfl, hlast⟩, fun habs => ⟨?_, ?_⟩⟩
    · unfold Path.child Path.join
      simp [hempty, hne, hlast, hslash]
    · simpa [Path.isAbsolute] using habs
    · exact fun hnil => hne (String.toList_eq_nil_iff.1 hnil)

/-- The parts of a directory's text that a search looks up. -/
def partsBefore (front : List Char) : List (List Char) :=
  let rest := front.dropWhile (· = '/')
  if rest = [] then [] else List.splitOn '/' rest

/-- Where a search begins. -/
def start (base : Path) : Path := if base.isAbsolute then ⟨"/"⟩ else ⟨"."⟩

def namesBefore (front : List Char) : List String := (partsBefore front).map String.ofList

/-- Where a search has come to when the text of the directory is used up. -/
def arrival (base : Path) (front : List Char) : Path := (namesBefore front).foldl next (start base)

theorem mem_partsBefore {part : List Char} (h : part ∈ partsBefore front) :
    '/' ∉ part ∧ ∀ c ∈ part, c ∈ front := by
  unfold partsBefore at h
  simp only [] at h
  split at h
  · cases h
  · obtain ⟨hslash, hmem⟩ := notMem_of_mem_splitOn h
    exact ⟨hslash, fun c hc => (List.dropWhile_sublist _).subset (hmem c hc)⟩

theorem mem_namesBefore {name : String} (h : name ∈ namesBefore front) :
    '/' ∉ name.toList ∧ ∀ c ∈ name.toList, c ∈ front := by
  obtain ⟨part, hpart, rfl⟩ := List.mem_map.1 h
  simpa using mem_partsBefore hpart

/-! ### The names of the arrival -/

theorem stepsIn_dropWhile (s : List Char) : stepsIn (s.dropWhile (· = '/')) = stepsIn s := by
  induction s with
  | nil => rfl
  | cons c s ih =>
    by_cases hc : c = '/'
    · subst hc
      rw [List.dropWhile_cons_of_pos (by simp), ih, stepsIn_slash]
    · rw [List.dropWhile_cons_of_neg (by simpa using hc)]

theorem filter_namesBefore (h : FrontOf base front) : (namesBefore front).filter isStep = base.names := by
  have hnil : stepsIn [] = [] := rfl
  have htext : stepsIn base.text.toList = stepsIn front := by
    rcases h.text with ⟨ht, -⟩ | ht
    · rw [ht]
    · rw [ht, stepsIn_append_cons, hnil, List.append_nil]
  have hparts : (namesBefore front).filter (· ≠ "") = stepsIn front := by
    rw [← stepsIn_dropWhile, namesBefore, partsBefore]
    split
    · rename_i hrest
      rw [hrest]
      rfl
    · rw [List.filter_map, stepsIn]
      congr 2
      funext part
      simp
  have hfilter : (namesBefore front).filter isStep =
      ((namesBefore front).filter (· ≠ "")).filter (· ≠ ".") := by
    rw [List.filter_filter]
    congr 1
    funext n
    simp [isStep, Bool.and_comm]
  rw [hfilter, hparts, ← htext, ← Path.filter_stepsOf]
  rfl

/-! ### The length of the arrival's text -/

theorem size_cons (c : Char) (s : List Char) :
    (String.ofList (c :: s)).utf8ByteSize = c.utf8Size + (String.ofList s).utf8ByteSize := by
  have hcons : c :: s = [c] ++ s := rfl
  rw [hcons, String.ofList_append, String.utf8ByteSize_append]
  simp

theorem span_splitOn (s : List Char) :
    span ((List.splitOn '/' s).map String.ofList) = (String.ofList s).utf8ByteSize + 1 := by
  have hslash : '/'.utf8Size = 1 := rfl
  induction s with
  | nil => rfl
  | cons c s ih =>
    rw [size_cons]
    rcases Text.splitOn_cons_cases '/' c s with ⟨hc, hs⟩ | ⟨-, part, parts, ht, hs⟩
    · rw [hs, List.map_cons, span_cons, ih, hc, hslash, String.ofList_nil, String.utf8ByteSize_empty]
      omega
    · rw [ht, List.map_cons, span_cons] at ih
      rw [hs, List.map_cons, span_cons, size_cons]
      omega

theorem span_namesBefore (h : FrontOf base front) :
    (stem (start base)).utf8ByteSize + span (namesBefore front) ≤ (base.child "").text.utf8ByteSize := by
  have hslash : '/'.utf8Size = 1 := rfl
  have hchild : (base.child "").text.utf8ByteSize = (String.ofList front).utf8ByteSize + 1 := by
    have htext : (base.child "").text = String.ofList (front ++ ['/']) := by
      rw [← h.child, String.ofList_toList]
    have hone : (String.ofList ['/']).utf8ByteSize = 1 := rfl
    rw [htext, String.ofList_append, String.utf8ByteSize_append, hone]
  have hdrop (s : List Char) :
      (String.ofList (s.dropWhile (· = '/'))).utf8ByteSize ≤ (String.ofList s).utf8ByteSize := by
    induction s with
    | nil => exact Nat.le_refl _
    | cons c s ih =>
      rw [List.dropWhile_cons]
      split
      · rw [size_cons]
        exact ih.trans (Nat.le_add_left _ _)
      · exact Nat.le_refl _
  have hspan : span (namesBefore front) =
      if front.dropWhile (· = '/') = [] then 0
      else (String.ofList (front.dropWhile (· = '/'))).utf8ByteSize + 1 := by
    rw [namesBefore, partsBefore]
    split
    · rfl
    · exact span_splitOn _
  rw [hchild, hspan]
  cases habs : base.isAbsolute with
  | false =>
    have hstem : (stem (start base)).utf8ByteSize = 0 := by
      rw [start, habs]
      rfl
    rw [hstem]
    split
    · omega
    · have hle := hdrop front
      omega
  | true =>
    have hstem : (stem (start base)).utf8ByteSize = 1 := by
      rw [start, habs]
      rfl
    rw [hstem]
    split
    · omega
    · rename_i hrest
      -- something is left, so that the slash at the beginning is not the one at the end
      have hhead : ∃ s, front = '/' :: s := by
        cases front with
        | nil => exact absurd rfl hrest
        | cons c s =>
          have hc : base.text.toList.head? = some '/' := by simpa [Path.isAbsolute] using habs
          rcases h.text with ⟨ht, -⟩ | ht
          · rw [ht] at hc
            exact ⟨s, by rw [Option.some.inj hc]⟩
          · rw [ht] at hc
            exact ⟨s, by rw [Option.some.inj hc]⟩
      obtain ⟨s, rfl⟩ := hhead
      have hle := hdrop s
      rw [List.dropWhile_cons_of_pos (by simp), size_cons, hslash]
      omega

/-! ### No gap on the way -/

theorem ofPart?_ne_here (part : List Char) : Component.ofPart? part ≠ some .here := by
  unfold Component.ofPart?
  split
  · simp
  split
  · simp
  · simp

theorem components_child_part {p : Path} {name : String} (hp : p.text ≠ "") (h : '/' ∉ name.toList) :
    (p.child name).components = p.components ++ (Component.ofPart? name.toList).toList := by
  have hname := isAbsolute_name h
  have hslash : "/".toList = ['/'] := rfl
  unfold Path.components Path.child Path.join
  simp only [hname, Bool.false_eq_true, if_false]
  by_cases hlast : p.text.toList.getLast? = some '/'
  · obtain ⟨v, hv⟩ := List.getLast?_eq_some_iff.1 hlast
    rw [if_pos (by simp [hlast]), String.toList_append, hv, List.append_assoc, List.singleton_append,
      Path.componentsOf_append_cons v h]
  · have hne : p.text.toList ≠ [] := fun hnil => hp (String.toList_eq_nil_iff.1 hnil)
    rw [if_neg (by simp [hp, hlast]), String.toList_append, String.toList_append, hslash,
      List.append_assoc, List.singleton_append, Path.componentsOf_append_cons _ h,
      Path.componentsOf_slash hne]

theorem eq_dot_of_isHere {name : String} (h : '/' ∉ name.toList) (here : isHere ⟨name⟩ = true) :
    name = "." := by
  have hcomponents : (⟨name⟩ : Path).components = [.here] := by simpa [isHere] using here
  have hhead : name.toList.head? ≠ some '/' := fun hh => h (List.mem_of_mem_head? hh)
  by_cases hdot : name.toList = ['.']
  · exact String.toList_injective hdot
  · rw [Path.components, Path.componentsOf_eq, Path.leadOf, if_neg hhead, List.splitOn_eq_singleton h] at hcomponents
    simp only [List.head?_cons, Option.some.injEq, hdot, if_false, List.nil_append,
      List.filterMap_cons, List.filterMap_nil] at hcomponents
    cases hpart : Component.ofPart? name.toList with
    | none => simp [hpart] at hcomponents
    | some c =>
      simp only [hpart, List.cons.injEq, and_true] at hcomponents
      exact absurd (hcomponents ▸ hpart) (ofPart?_ne_here _)

/-- A search that has left `.` does not come back to it. -/
theorem gapless_of_left {p : Path} {names : List String} (h : ∀ name ∈ names, '/' ∉ name.toList)
    (left : isHere p = false) (hne : p.text ≠ "") : Gapless p names := by
  induction names generalizing p with
  | nil => trivial
  | cons name names ih =>
    have hnext : next p name = p.child name := by
      rw [next, left]
      rfl
    have hslash := h name List.mem_cons_self
    refine ⟨fun here => ?_, ih (fun n hn => h n (List.mem_cons_of_mem name hn)) ?_ ?_⟩
    · rw [left] at here
      cases here
    · rw [hnext]
      unfold isHere at left ⊢
      rw [beq_eq_false_iff_ne] at left ⊢
      rw [components_child_part hne hslash]
      cases hpart : Component.ofPart? name.toList with
      | none => simpa using left
      | some c =>
        intro heq
        obtain ⟨-, hc⟩ := List.append_eq_singleton_iff.1 heq |>.resolve_right fun hr => left hr.1
        rw [List.cons.inj hc |>.1] at hpart
        exact ofPart?_ne_here _ hpart
    · rw [hnext, child_empty_append hslash]
      intro hnil
      rw [String.append_eq_empty_iff] at hnil
      have hsize := (size_child_empty p).1
      rw [hnil.1, String.utf8ByteSize_empty, Nat.le_zero, String.utf8ByteSize_eq_zero_iff] at hsize
      exact hne hsize

theorem getLast?_splitOn {sep : Char} {s : List Char} (h : (List.splitOn sep s).getLast? = some []) :
    s = [] ∨ s.getLast? = some sep := by
  induction s with
  | nil => exact .inl rfl
  | cons c s ih =>
    right
    rcases Text.splitOn_cons_cases sep c s with ⟨hc, hs⟩ | ⟨-, part, parts, ht, hs⟩
    · rw [hs, List.getLast?_cons, List.getLast?_eq_some_getLast (List.splitOn_ne_nil sep s)] at h
      have hrest := ih (by rw [List.getLast?_eq_some_getLast (List.splitOn_ne_nil sep s)]; exact h)
      rcases hrest with rfl | hlast
      · rw [hc]
        rfl
      · rw [List.getLast?_cons, hlast]
        rfl
    · rw [hs] at h
      rw [ht] at ih
      cases parts with
      | nil => simp at h
      | cons other parts =>
        rcases ih (by simpa [List.getLast?_cons] using h) with rfl | hlast
        · simp at ht
        · rw [List.getLast?_cons, hlast]
          rfl

theorem gapless_start (h : FrontOf base front) (literal : base.Literal) :
    Gapless (start base) (namesBefore front) := by
  have hslash : ∀ name ∈ namesBefore front, '/' ∉ name.toList := fun n hn => (mem_namesBefore hn).1
  cases habs : base.isAbsolute with
  | true =>
    rw [start, habs]
    exact gapless_of_left hslash (by decide) (by decide)
  | false =>
    obtain ⟨hhead, hne⟩ := h.noRoot habs
    have hrest : front.dropWhile (· = '/') = front := by
      cases front with
      | nil => rfl
      | cons c front => exact List.dropWhile_cons_of_neg (by simpa using hhead)
    have hparts : partsBefore front = List.splitOn '/' front := by
      rw [partsBefore, hrest]
      exact if_neg hne
    -- as long as there are only dots the search stays at `.`, and then it leaves
    have hgo (k : Nat) (parts : List (List Char))
        (hk : List.splitOn '/' front = List.replicate k ['.'] ++ parts) :
        Gapless ⟨"."⟩ (parts.map String.ofList) := by
      induction parts generalizing k with
      | nil => trivial
      | cons part parts ih =>
        have hpart : part ≠ [] := by
          rintro rfl
          cases k with
          | zero =>
            cases front with
            | nil => exact hne rfl
            | cons c s =>
              have hc : c ≠ '/' := by simpa using hhead
              rcases Text.splitOn_cons_cases '/' c s with ⟨hslash, -⟩ | ⟨-, w, ws, -, hs⟩
              · exact hc hslash
              · simp [hs] at hk
          | succ k =>
            rcases h.text with ⟨ht, hlast⟩ | ht
            · cases parts with
              | nil =>
                have hend : (List.splitOn '/' front).getLast? = some [] := by simp [hk]
                rcases getLast?_splitOn hend with hnil | hend
                · exact hne hnil
                · exact hlast hend
              | cons other parts => exact literal.noGap k other parts (by rw [ht, hk])
            · have hsplit : List.splitOn '/' base.text.toList =
                  List.replicate (k + 1) ['.'] ++ [] :: (parts ++ [[]]) := by
                rw [ht, List.splitOn_append_cons_self, hk]
                simp
              obtain ⟨other, parts', hparts'⟩ := List.exists_cons_of_ne_nil
                (List.append_ne_nil_of_right_ne_nil parts (List.cons_ne_nil ([] : List Char) []))
              exact literal.noGap k other parts' (by rw [hsplit, hparts'])
        have hmem : part ∈ List.splitOn '/' front := by simp [hk]
        have hname : '/' ∉ (String.ofList part).toList := by
          rw [String.toList_ofList]
          exact (notMem_of_mem_splitOn hmem).1
        have hnext : next ⟨"."⟩ (String.ofList part) = ⟨String.ofList part⟩ := rfl
        refine ⟨fun _ hempty => hpart (by simpa using congrArg String.toList hempty), ?_⟩
        by_cases hdot : part = ['.']
        · subst hdot
          refine ih (k + 1) ?_
          rw [hk, List.replicate_succ']
          simp
        · rw [hnext]
          refine gapless_of_left ?_ ?_ ?_
          · intro n hn
            obtain ⟨other, hother, rfl⟩ := List.mem_map.1 hn
            rw [String.toList_ofList]
            have hmem : other ∈ List.splitOn '/' front := by simp [hk, hother]
            exact (notMem_of_mem_splitOn hmem).1
          · cases hhere : isHere ⟨String.ofList part⟩ with
            | false => rfl
            | true =>
              have heq := eq_dot_of_isHere hname hhere
              exact absurd (by simpa using congrArg String.toList heq) hdot
          · exact fun hempty => hpart (by simpa using congrArg String.toList hempty)
    rw [start, habs, namesBefore, hparts]
    exact hgo 0 _ rfl

/-! ### The arrival stands for the directory -/

variable {t : FileTree} {cwd : Location}

theorem isAbsolute_start (base : Path) : (start base).isAbsolute = base.isAbsolute := by
  unfold start
  cases base.isAbsolute with
  | true => rfl
  | false => rfl

theorem text_start (base : Path) :
    (start base).text.utf8ByteSize = 1 ∧ '\x00' ∉ (start base).text.toList ∧ (start base).names = [] := by
  unfold start
  cases base.isAbsolute with
  | true => exact ⟨rfl, by decide, rfl⟩
  | false => exact ⟨rfl, by decide, rfl⟩

/-- The text of a path on the way is no longer than the directory's, and has no character
    that the directory's has not but slashes and a dot. -/
theorem text_onWay (hf : FrontOf base front) (hne : base.text ≠ "") {names : List String}
    (h : names <+: namesBefore front) :
    (names.foldl next (start base)).text.utf8ByteSize ≤ base.text.utf8ByteSize ∧
      ('\x00' ∉ base.text.toList → '\x00' ∉ (names.foldl next (start base)).text.toList) := by
  have hslash : ∀ name ∈ names, '/' ∉ name.toList := fun n hn => (mem_namesBefore (h.subset hn)).1
  obtain ⟨hone, hzeroStart, -⟩ := text_start base
  constructor
  · by_cases hnil : names = []
    · subst hnil
      have hpos : base.text.utf8ByteSize ≠ 0 := fun h0 => hne (String.utf8ByteSize_eq_zero_iff.1 h0)
      rw [List.foldl_nil, hone]
      omega
    · have hsize := size_foldl_next (p := start base) hslash hnil
      have hspan := span_namesBefore hf
      have hchild := (size_child_empty base).2
      obtain ⟨more, hmore⟩ := h
      rw [← hmore, span_append] at hspan
      omega
  · intro hzero hmem
    rcases mem_text_foldl_next hslash hmem with hm | hm | ⟨n, hn, hm⟩
    · exact hzeroStart hm
    · cases hm
    · have hfront := (mem_namesBefore (h.subset hn)).2 _ hm
      rcases hf.text with ⟨ht, -⟩ | ht
      · exact hzero (ht ▸ hfront)
      · exact hzero (ht ▸ List.mem_append_left _ hfront)

theorem standsFor_arrival (hf : FrontOf base front) (hne : base.text ≠ "") :
    StandsFor (arrival base front) base := by
  have hslash : ∀ name ∈ namesBefore front, '/' ∉ name.toList := fun n hn => (mem_namesBefore hn).1
  obtain ⟨-, -, hnames⟩ := text_start base
  obtain ⟨hsize, hzero⟩ := text_onWay hf hne (List.prefix_refl (namesBefore front))
  refine ⟨?_, ?_, hsize, ?_, hzero⟩
  · rw [arrival, names_foldl_next hslash, hnames, List.nil_append, filter_namesBefore hf]
  · rw [arrival, isAbsolute_foldl_next hslash, isAbsolute_start]
  · exact (size_stem_foldl_next hslash).trans (span_namesBefore hf)

/-- All that the search comes through are directories. -/
theorem isDir_of_leading (hf : FrontOf base front) (literal : base.Literal)
    (dir : t.isDir cwd base = true) {names : List String} (h : names <+: namesBefore front) :
    t.isDir cwd (names.foldl next (start base)) = true := by
  obtain ⟨hcheck, hwalk, hdirAt⟩ := (isDir_iff t cwd base).1 dir
  obtain ⟨hzero, hne, hsize⟩ := (checkText_iff base).1 hcheck
  obtain ⟨hone, -, hnames⟩ := text_start base
  obtain ⟨hsize', hzero'⟩ := text_onWay hf hne h
  have hslash : ∀ name ∈ names, '/' ∉ name.toList := fun n hn => (mem_namesBefore (h.subset hn)).1
  have hstart : (start base).text ≠ "" := by
    intro hnil
    rw [hnil, String.utf8ByteSize_empty] at hone
    cases hone
  obtain ⟨more, hmore⟩ := h
  have hgapless : Gapless (start base) names := by
    have hall := gapless_start hf literal
    rw [← hmore] at hall
    clear hmore hnames hone hsize' hzero' hslash hstart
    generalize start base = p at hall
    induction names generalizing p with
    | nil => trivial
    | cons name names ih => exact ⟨hall.1, ih _ hall.2⟩
  have hbase : base.names = names.filter isStep ++ more.filter isStep := by
    rw [← filter_namesBefore hf, ← hmore, List.filter_append]
  rw [hbase] at hwalk
  obtain ⟨k, hk, hkdir⟩ := isDirAt_of_walk_append hwalk (.inl hdirAt)
  have hpathNames : (names.foldl next (start base)).names = names.filter isStep := by
    rw [names_foldl_next hslash, hnames, List.nil_append]
  have hstartOf : startOf cwd (names.foldl next (start base)) = startOf cwd base := by
    rw [startOf, isAbsolute_foldl_next hslash, isAbsolute_start, startOf]
  have hlocate : (names.foldl next (start base)).locate cwd = k := by
    rw [← foldl_names, hpathNames, hstartOf, walk_ok hk]
  rw [isDir_iff, hpathNames, hstartOf, hlocate]
  exact ⟨(checkText_iff _).2 ⟨hzero' hzero, text_foldl_next_ne hgapless hslash hstart,
    hsize'.trans hsize⟩, hk, hkdir⟩

/-! ### The pattern below a directory -/

/-- The names that end in `.h`. -/
def headerName : Pattern := .anyText :: Pattern.ofChars ['.', 'h']

/-- A text that stands for itself and a slash before the header pattern can be read. -/
theorem read_pattern (hf : ∀ c ∈ front, Pattern.StandsForItself c) :
    ∃ tokens, Pattern.read (front ++ '/' :: "**/*.h".toList) = .ok tokens := by
  have hchars : ∀ c ∈ front ++ ['/'], Pattern.StandsForItself c := by
    intro c hc
    rcases List.mem_append.1 hc with hc | hc
    · exact hf c hc
    · rw [List.mem_singleton.1 hc]
      decide
  have hcons : front ++ '/' :: "**/*.h".toList = (front ++ ['/']) ++ "**/*.h".toList := by simp
  have hlast : (front ++ ['/']).getLast? = some '/' := by simp
  rw [hcons, Pattern.read_append hchars, hlast]
  exact ⟨_, rfl⟩

theorem partsOf_append (rest : List Char) :
    partsOf (rest ++ '/' :: "**/*.h".toList) = List.splitOn '/' rest ++ [['*', '*'], ['*', '.', 'h']] := by
  have hpattern : List.splitOn '/' "**/*.h".toList = [['*', '*'], ['*', '.', 'h']] := by decide
  unfold partsOf
  rw [List.splitOn_append_cons_self, hpattern]
  simp

theorem mapM_read {parts : List (List Char)}
    (h : ∀ part ∈ parts, ∀ c ∈ part, Pattern.StandsForItself c) :
    (parts ++ [['*', '*'], ['*', '.', 'h']]).mapM Pattern.read =
      .ok (parts.map Pattern.ofChars ++ [[.anyDirs], headerName]) := by
  induction parts with
  | nil => rfl
  | cons part parts ih =>
    rw [List.cons_append, List.mapM_cons, Pattern.read_ofChars (h part List.mem_cons_self),
      ih fun p hp => h p (List.mem_cons_of_mem part hp)]
    rfl

/-- The text that a search goes by: a pattern that begins with a slash without its first
    slashes, any other as it is. -/
def restOf (s : List Char) : List Char := if s.head? = some '/' then s.dropWhile (· = '/') else s

theorem partsOf_restOf (hf : FrontOf base front) :
    ((front ++ '/' :: "**/*.h".toList).head? = some '/' ↔ base.isAbsolute = true) ∧
      (restOf (front ++ '/' :: "**/*.h".toList)).isEmpty = false ∧
      partsOf (restOf (front ++ '/' :: "**/*.h".toList)) =
        partsBefore front ++ [['*', '*'], ['*', '.', 'h']] := by
  have hpattern : ('/' :: "**/*.h".toList).dropWhile (· = '/') = "**/*.h".toList := by decide
  have hlone : partsOf "**/*.h".toList = [['*', '*'], ['*', '.', 'h']] := by decide
  have hhead : (front ++ '/' :: "**/*.h".toList).head? = some '/' ↔ base.isAbsolute = true := by
    rw [Path.isAbsolute, beq_iff_eq]
    cases front with
    | nil =>
      rcases hf.text with ⟨ht, hlast⟩ | ht
      · have hne := (hf.noRoot (by rw [Path.isAbsolute, ht]; rfl)).2
        exact absurd rfl hne
      · rw [ht]
        exact ⟨fun _ => rfl, fun _ => rfl⟩
    | cons c s =>
      rcases hf.text with ⟨ht, -⟩ | ht
      · rw [ht]
        rfl
      · rw [ht]
        rfl
  refine ⟨hhead, ?_⟩
  unfold restOf
  split
  · rw [List.dropWhile_append, hpattern, partsBefore]
    cases hrest : front.dropWhile (· = '/') with
    | nil => exact ⟨rfl, by simpa using hlone⟩
    | cons c rest =>
      have happend := partsOf_append (c :: rest)
      exact ⟨rfl, by simpa using happend⟩
  · rename_i hslash
    have hrelative : base.isAbsolute = false := by simpa using mt hhead.2 hslash
    obtain ⟨hfirst, hne⟩ := hf.noRoot hrelative
    obtain ⟨c, s, rfl⟩ := List.exists_cons_of_ne_nil hne
    have hrest : (c :: s).dropWhile (· = '/') = c :: s :=
      List.dropWhile_cons_of_neg (by simpa using hfirst)
    refine ⟨rfl, ?_⟩
    rw [partsOf_append, partsBefore, hrest]
    simp

theorem match_head {α : Type} (s : List Char) (a b : α) :
    (match s with
      | '/' :: _ => a
      | _ => b) = if s.head? = some '/' then a else b := by
  split
  · rfl
  · rename_i hslash
    rw [if_neg]
    intro hhead
    obtain ⟨s', rfl⟩ := List.head?_eq_some_iff.1 hhead
    exact hslash s' rfl

/-- Where a search for a pattern begins. -/
def startOfPattern (s : List Char) : Path := if s.head? = some '/' then ⟨"/"⟩ else ⟨"."⟩

/-- A pattern that can be read part by part is searched for by its parts. -/
theorem paths_eq {s : String} {tokens : Pattern} {parts : List Pattern}
    (hread : Pattern.read s.toList = .ok tokens)
    (hparts : (partsOf (restOf s.toList)).mapM Pattern.read = .ok parts)
    (hne : (restOf s.toList).isEmpty = false) (hlast : s.toList.getLast? ≠ some '/') :
    paths t cwd s = .ok ((below t cwd (4 * (parts.length + 1) * (t.toList.length + 2)) parts
      (found t cwd (startOfPattern s.toList))).map Found.path) := by
  have hbegin : (match s.toList with
      | '/' :: _ => ("/", s.toList.dropWhile (· = '/'))
      | _ => (".", s.toList)) = ((startOfPattern s.toList).text, restOf s.toList) := by
    rw [match_head, restOf, startOfPattern]
    by_cases hslash : s.toList.head? = some '/'
    · rw [if_pos hslash, if_pos hslash, if_pos hslash]
    · rw [if_neg hslash, if_neg hslash, if_neg hslash]
  unfold paths
  dsimp only
  rw [hread]
  refine Eq.trans (congrArg (fun b : String × List Char => (do
    let parts ← (partsOf b.2).mapM Pattern.read
    let parts := if b.2.isEmpty then parts ++ [[]] else parts
    let fuel := 4 * (parts.length + 1) * (t.toList.length + 2)
    let all := below t cwd fuel parts (found t cwd ⟨b.1⟩)
    pure ((if s.toList.getLast? = some '/' then all.filter Found.isDir else all).map Found.path) :
      Except Pattern.Fault (List Path))) hbegin) ?_
  simp only [hparts, hne, hlast, Bool.false_eq_true, if_false, bind, Except.bind, pure, Except.pure]

/-- The fuel of a search below a directory. -/
def fuelFor (t : FileTree) (front : List Char) : Nat :=
  4 * ((partsBefore front).length + 3) * (t.toList.length + 2)

/-- The header pattern below a directory is searched for from the arrival. -/
theorem paths_eq_below (hf : FrontOf base front) (literal : base.Literal) :
    paths t cwd (base.child "**/*.h").text =
      .ok ((below t cwd (fuelFor t front) ((partsBefore front).map Pattern.ofChars ++
        [[.anyDirs], headerName]) (found t cwd (start base))).map Found.path) := by
  have hchars : ∀ c ∈ front, Pattern.StandsForItself c := by
    intro c hc
    rcases hf.text with ⟨ht, -⟩ | ht
    · exact literal.chars c (ht ▸ hc)
    · exact literal.chars c (ht ▸ List.mem_append_left _ hc)
  have htext : (base.child "**/*.h").text.toList = front ++ '/' :: "**/*.h".toList := by
    have hslash : (⟨"**/*.h"⟩ : Path).isAbsolute = false := rfl
    have hempty : (⟨""⟩ : Path).isAbsolute = false := rfl
    have happend : (base.child "**/*.h").text = (base.child "").text ++ "**/*.h" := by
      unfold Path.child Path.join
      simp only [hslash, hempty, Bool.false_eq_true, if_false]
      split
      · simp
      · simp
    rw [happend, String.toList_append, hf.child, List.append_assoc, List.singleton_append]
  obtain ⟨tokens, hread⟩ := read_pattern hchars
  obtain ⟨hhead, hne, hparts⟩ := partsOf_restOf hf
  have hmapM := mapM_read fun part (hpart : part ∈ partsBefore front) c hc =>
    hchars c ((mem_partsBefore hpart).2 c hc)
  have hlast : (front ++ '/' :: "**/*.h".toList).getLast? ≠ some '/' := by
    have hpattern : ('/' :: "**/*.h".toList).getLast? = some 'h' := by decide
    rw [List.getLast?_append, hpattern, Option.some_or]
    decide
  have hstart : startOfPattern (front ++ '/' :: "**/*.h".toList) = start base := by
    rw [startOfPattern, start]
    simp only [hhead]
  rw [← hparts] at hmapM
  rw [← htext] at hread hmapM hne hlast hstart
  rw [paths_eq hread hmapM hne hlast, hstart, fuelFor, List.length_append, List.length_map]
  rfl

end Glob

end GrammarBuild
