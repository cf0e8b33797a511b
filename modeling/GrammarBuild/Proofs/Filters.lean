import GrammarBuild.Proofs.Refusals

/-
  GrammarBuild/Proofs/Filters.lean
  ================================
  **What a filter names, and what it names again** — a selection has the first occurrences
  of a filter's names, and the names that are told to the user as repeated are its second
  occurrences, both in the order of these occurrences.

  The two are found by two loops, each with its own lists of the names before.  Here both
  are one function: the names whose occurrence number `k`, counted from 0, has come
  (`occurring`).  What it gives is settled once for every `k` (`lists_occurring`), and of
  each loop it remains to say that it is that function (`names_of_selectFrom` for 0,
  `repeatedFrom_eq` for 1).
-/

namespace GrammarBuild

variable {k : Nat} {names picked picked' before : List String} {a b : String} {i j : Nat}

/-! ### Occurrences -/

/-- At position `i` of a list is the occurrence number `k` of a name, counted from 0. -/
def OccursAt (k : Nat) (names : List String) (a : String) (i : Nat) : Prop :=
  names[i]? = some a ∧ (names.take i).count a = k

/-- A list has the names that occur more than `k` times in another one, each once, in the
    order of their occurrences number `k`. -/
structure Lists (k : Nat) (names picked : List String) : Prop where
  mem_iff : ∀ a, a ∈ picked ↔ k < names.count a
  once : picked.Nodup
  ordered : picked.Pairwise fun a b => ∀ i j, OccursAt k names a i → OccursAt k names b j → i < j

/-- Up to a position where a name is, it has occurred once more behind it. -/
theorem count_take_succ (h : names[i]? = some a) :
    (names.take (i + 1)).count a = (names.take i).count a + 1 := by
  rw [List.take_add_one, h, Option.toList_some, List.count_append, List.count_singleton_self]

/-- An occurrence is at one position. -/
theorem OccursAt.unique (hi : OccursAt k names a i) (hj : OccursAt k names a j) : i = j := by
  have hle {i j : Nat} (hi : OccursAt k names a i) (hj : OccursAt k names a j) : j ≤ i := by
    by_contra hlt
    have hmono : (names.take (i + 1)).count a ≤ (names.take j).count a :=
      (List.take_sublist_take_left (by omega)).count_le a
    rw [count_take_succ hi.1, hi.2, hj.2] at hmono
    omega
  exact Nat.le_antisymm (hle hj hi) (hle hi hj)

/-- A name that occurs often enough has the occurrence. -/
theorem exists_occursAt (h : k < names.count a) : ∃ i, OccursAt k names a i := by
  induction names using List.reverseRecOn with
  | nil => exact absurd h (Nat.not_lt_zero k)
  | append_singleton names name ih =>
    by_cases hbefore : k < names.count a
    · obtain ⟨i, hi⟩ := ih hbefore
      obtain ⟨hlt, -⟩ := List.getElem?_eq_some_iff.1 hi.1
      refine ⟨i, ?_, ?_⟩
      · rw [List.getElem?_append_left hlt, hi.1]
      · rw [List.take_append_of_le_length (Nat.le_of_lt hlt), hi.2]
    · rw [List.count_append, List.count_singleton] at h
      split at h
      · rename_i hname
        refine ⟨names.length, ?_, ?_⟩
        · rw [List.getElem?_append_right (Nat.le_refl _), Nat.sub_self, eq_of_beq hname]
          rfl
        · rw [List.take_left]
          omega
      · omega

/-- There is one such list. -/
theorem Lists.unique (h : Lists k names picked) (h' : Lists k names picked') : picked = picked' := by
  have hperm : picked.Perm picked' :=
    (List.perm_ext_iff_of_nodup h.once h'.once).2 fun a => (h.mem_iff a).trans (h'.mem_iff a).symm
  refine hperm.eq_of_pairwise (fun a b ha hb hab hba => ?_) h.ordered h'.ordered
  obtain ⟨i, hi⟩ := exists_occursAt ((h.mem_iff a).1 ha)
  obtain ⟨j, hj⟩ := exists_occursAt ((h'.mem_iff b).1 hb)
  exact absurd (hab i j hi hj) (Nat.lt_asymm (hba j i hj hi))

/-- The names that occur for the time number `k`, where `before` are the names before. -/
def occurring (k : Nat) : (before names : List String) → List String
  | _, [] => []
  | before, name :: names =>
    if before.count name = k then name :: occurring k (before ++ [name]) names
    else occurring k (before ++ [name]) names

theorem occurring_sublist (k : Nat) (before names : List String) :
    (occurring k before names).Sublist names := by
  induction names generalizing before with
  | nil => exact List.Sublist.slnil
  | cons name names ih =>
    unfold occurring
    split
    · exact (ih _).cons_cons name
    · exact (ih _).cons name

theorem mem_occurring : a ∈ occurring k before names ↔
    before.count a ≤ k ∧ k < (before ++ names).count a := by
  induction names generalizing before with
  | nil =>
    rw [List.append_nil]
    constructor
    · intro h
      cases h
    · intro h
      omega
  | cons name names ih =>
    have hsame : before ++ name :: names = before ++ [name] ++ names := by simp
    have hcount : (before ++ [name]).count a = before.count a + [name].count a := List.count_append
    have hle : (before ++ [name]).count a ≤ (before ++ [name] ++ names).count a :=
      (List.sublist_append_left _ _).count_le a
    rw [hsame]
    by_cases ha : a = name
    · subst ha
      rw [List.count_singleton_self] at hcount
      unfold occurring
      split
      · rw [List.mem_cons, ih]
        constructor
        · intro _
          omega
        · intro _
          exact .inl rfl
      · rw [ih]
        omega
    · have hzero : [name].count a = 0 := by simp [Ne.symm ha]
      unfold occurring
      split
      · rw [List.mem_cons, ih, or_iff_right ha]
        omega
      · rw [ih]
        omega

/-- What is still to come occurs behind what has been. -/
theorem le_of_occursAt (ha : a ∈ occurring k before names) (h : OccursAt k (before ++ names) a i) :
    before.length ≤ i := by
  by_contra hlt
  have hi : i < before.length := Nat.lt_of_not_le hlt
  have hat : before[i]? = some a := by
    rw [← h.1, List.getElem?_append_left hi]
  have hcount := count_take_succ hat
  have htake : (before.take i).count a = k := by
    rw [← h.2, List.take_append_of_le_length (Nat.le_of_lt hi)]
  have hle : (before.take (i + 1)).count a ≤ before.count a := (List.take_sublist _ _).count_le a
  have hfew := (mem_occurring.1 ha).1
  omega

/-- The names come in the order of their occurrences: the one that has come now is followed
    by those that come later. -/
theorem pairwise_occurring (k : Nat) (before names : List String) :
    (occurring k before names).Pairwise fun a b =>
      ∀ i j, OccursAt k (before ++ names) a i → OccursAt k (before ++ names) b j → i < j := by
  induction names generalizing before with
  | nil => exact List.Pairwise.nil
  | cons name names ih =>
    have hsame : before ++ name :: names = before ++ [name] ++ names := by simp
    have hrest := ih (before ++ [name])
    rw [← hsame] at hrest
    unfold occurring
    split
    · rename_i hnow
      refine List.pairwise_cons.2 ⟨fun b hb i j hi hj => ?_, hrest⟩
      have hat : OccursAt k (before ++ name :: names) name before.length := by
        refine ⟨?_, by rw [List.take_left, hnow]⟩
        rw [List.getElem?_append_right (Nat.le_refl _), Nat.sub_self]
        rfl
      have hlater : (before ++ [name]).length ≤ j := le_of_occursAt hb (hsame ▸ hj)
      rw [List.length_append, List.length_singleton] at hlater
      rw [hi.unique hat]
      omega
    · exact hrest

theorem nodup_occurring (k : Nat) (before names : List String) : (occurring k before names).Nodup := by
  refine (pairwise_occurring k before names).imp_of_mem fun {a b} ha _ hab heq => ?_
  obtain ⟨i, hi⟩ := exists_occursAt (mem_occurring.1 ha).2
  exact absurd (hab i i hi (heq ▸ hi)) (Nat.lt_irrefl i)

/-- **The names that occur often enough, each once, in order.** -/
theorem lists_occurring (k : Nat) (names : List String) : Lists k names (occurring k [] names) where
  mem_iff a := by
    rw [mem_occurring, List.nil_append, List.count_nil]
    exact and_iff_right (Nat.zero_le k)
  once := nodup_occurring k [] names
  ordered := pairwise_occurring k [] names

theorem lists_iff : Lists k names picked ↔ picked = occurring k [] names := by
  constructor
  · intro h
    exact h.unique (lists_occurring k names)
  · rintro rfl
    exact lists_occurring k names

/-- Fewer names than there were, where one occurs twice. -/
theorem Lists.length_lt (h : Lists 0 names picked) (twice : ¬ names.Nodup) :
    picked.length < names.length := by
  rw [lists_iff] at h
  subst h
  have hsub := occurring_sublist 0 [] names
  refine Nat.lt_of_le_of_ne hsub.length_le fun hlength => ?_
  have hnodup := nodup_occurring 0 [] names
  rw [hsub.eq_of_length hlength] at hnodup
  exact twice hnodup

/-! ### The two loops -/

/-- A list has the names that have occurred more than `k` times. -/
def Marks (k : Nat) (before listed : List String) : Prop := ∀ a, a ∈ listed ↔ k < before.count a

/-- One name more. -/
theorem Marks.snoc {listed listed' : List String} {name : String} (h : Marks k before listed)
    (now : name ∈ listed' ↔ k ≤ before.count name)
    (others : ∀ a, a ≠ name → (a ∈ listed' ↔ a ∈ listed)) : Marks k (before ++ [name]) listed' := by
  intro a
  by_cases ha : a = name
  · rw [ha, now, List.count_append, List.count_singleton_self, Nat.lt_add_one_iff]
  · have hzero : [name].count a = 0 := by simp [Ne.symm ha]
    rw [others a ha, h a, List.count_append, hzero, Nat.add_zero]

theorem mem_cons_iff_of_ne {listed : List String} {name : String} (h : a ≠ name) :
    a ∈ name :: listed ↔ a ∈ listed := by
  rw [List.mem_cons, or_iff_right h]

namespace Manifest

variable {m : Manifest}

/-- The selection has the names that come for the first time. -/
theorem names_of_selectFrom {seen : List String} {ts : List Target} (hseen : Marks 0 before seen)
    (h : m.selectFrom seen names = .ok ts) : ts.map Target.name = occurring 0 before names := by
  induction names generalizing seen before ts with
  | nil =>
    cases h
    rfl
  | cons name names ih =>
    unfold selectFrom at h
    unfold occurring
    by_cases hs : name ∈ seen
    · have hcount := (hseen name).1 hs
      rw [if_pos hs] at h
      rw [if_neg (Nat.ne_of_gt hcount)]
      exact ih (hseen.snoc (iff_of_true hs (Nat.zero_le _)) fun _ _ => Iff.rfl) h
    · have hcount := mt (hseen name).2 hs
      rw [if_neg hs] at h
      rw [if_pos (Nat.eq_zero_of_not_pos hcount)]
      obtain ⟨t, ht, h⟩ := bind_eq_ok_iff.1 h
      obtain ⟨rest, hrest, h⟩ := bind_eq_ok_iff.1 h
      cases h
      have hlater : Marks 0 (before ++ [name]) (name :: seen) :=
        hseen.snoc (iff_of_true List.mem_cons_self (Nat.zero_le _)) fun _ ha => mem_cons_iff_of_ne ha
      rw [List.map_cons, (findTarget_ok ht).2, ih hlater hrest]

/-- The repeated names are those that come for the second time. -/
theorem repeatedFrom_eq {seen repeated : List String} (hseen : Marks 0 before seen)
    (hrepeated : Marks 1 before repeated) (names : List String) :
    repeatedFrom seen repeated names = repeated ++ occurring 1 before names := by
  induction names generalizing seen repeated before with
  | nil => exact (List.append_nil repeated).symm
  | cons name names ih =>
    unfold repeatedFrom occurring
    by_cases hs : name ∈ seen
    · have honce := (hseen name).1 hs
      have hlater := hseen.snoc (iff_of_true hs (Nat.zero_le _)) fun _ _ => Iff.rfl
      rw [if_pos hs]
      by_cases hr : name ∈ repeated
      · have htwice := (hrepeated name).1 hr
        rw [if_pos hr, if_neg (Nat.ne_of_gt htwice)]
        exact ih hlater (hrepeated.snoc (iff_of_true hr honce) fun _ _ => Iff.rfl)
      · have htwice := mt (hrepeated name).2 hr
        have hnow : name ∈ repeated ++ [name] := List.mem_append_right _ (List.mem_singleton_self name)
        have hmore := hrepeated.snoc (iff_of_true hnow honce) fun a ha => by
          rw [List.mem_append, List.mem_singleton, or_iff_left ha]
        rw [if_neg hr, if_pos (by omega), ih hlater hmore, List.append_assoc]
        rfl
    · have hnew := mt (hseen name).2 hs
      have hnot : name ∉ repeated := by
        intro hr
        have htwice := (hrepeated name).1 hr
        omega
      rw [if_neg hs, if_neg (by omega)]
      exact ih (hseen.snoc (iff_of_true List.mem_cons_self (Nat.zero_le _))
          fun _ ha => mem_cons_iff_of_ne ha)
        (hrepeated.snoc (iff_of_false hnot hnew) fun _ _ => Iff.rfl)

theorem repeatedNames_eq (filter : List String) : repeatedNames filter = occurring 1 [] filter :=
  repeatedFrom_eq (fun a => by simp) (fun a => by simp) filter

/-- A name is repeated if there is a repetition. -/
theorem repeatedNames_eq_nil_iff (filter : List String) : repeatedNames filter = [] ↔ filter.Nodup := by
  have hlists := lists_occurring 1 filter
  rw [repeatedNames_eq, List.eq_nil_iff_forall_not_mem, List.nodup_iff_count_le_one]
  exact forall_congr' fun a => by rw [hlists.mem_iff, Nat.not_lt]

theorem select_nil (m : Manifest) : m.select [] = .ok m.targets := rfl

theorem select_of_ne_nil {filter : List String} (h : filter ≠ []) :
    m.select filter = m.selectFrom [] filter := by
  cases filter with
  | nil => exact absurd rfl h
  | cons name filter => rfl

/-- What a selection has is told by its names. -/
theorem lists_of_select {filter : List String} {ts : List Target} (hne : filter ≠ [])
    (h : m.select filter = .ok ts) : Lists 0 filter (ts.map Target.name) := by
  rw [select_of_ne_nil hne] at h
  rw [lists_iff]
  exact names_of_selectFrom (fun a => by simp) h

/-- Every filter has declared names only, or a first name that is not declared. -/
theorem declared_or_first (m : Manifest) (filter : List String) :
    (∀ n ∈ filter, n ∈ m.targetNames) ∨ ∃ before n after, filter = before ++ n :: after ∧
      (∀ a ∈ before, a ∈ m.targetNames) ∧ n ∉ m.targetNames := by
  cases h : filter.find? fun n => decide (n ∉ m.targetNames) with
  | none =>
    left
    intro n hn
    simpa using List.find?_eq_none.1 h n hn
  | some n =>
    right
    obtain ⟨hbad, before, after, hfilter, hbefore⟩ := List.find?_eq_some_iff_append.1 h
    refine ⟨before, n, after, hfilter, fun a ha => ?_, of_decide_eq_true hbad⟩
    simpa using hbefore a ha

/-- A selection succeeds exactly if all names are declared. -/
theorem exists_select_iff {filter : List String} (hne : filter ≠ []) :
    (∃ ts, m.select filter = .ok ts) ↔ ∀ n ∈ filter, n ∈ m.targetNames := by
  constructor
  · rintro ⟨ts, h⟩ n hn
    obtain ⟨t, ht, rfl⟩ := List.mem_map.1 (((lists_of_select hne h).mem_iff n).2 (List.count_pos_iff.2 hn))
    exact List.mem_map_of_mem (mem_of_select h ht)
  · exact select_of_declared

/-- Targets are found again by their names. -/
theorem findTarget_names (checked : CheckedTargets m.targets) {ts : List Target}
    (hmem : ∀ t ∈ ts, t ∈ m.targets) : (ts.map Target.name).map m.findTarget = ts.map .ok := by
  rw [List.map_map]
  exact List.map_congr_left fun t ht => findTarget_of_mem checked (hmem t ht)

/-- The targets that a filter names, told without the loop. -/
theorem select_eq_ok_iff (checked : CheckedTargets m.targets) {filter : List String}
    {ts : List Target} (hne : filter ≠ []) :
    m.select filter = .ok ts ↔ (∀ t ∈ ts, t ∈ m.targets) ∧ Lists 0 filter (ts.map Target.name) := by
  constructor
  · intro h
    exact ⟨fun t ht => mem_of_select h ht, lists_of_select hne h⟩
  · rintro ⟨hmem, hlists⟩
    have hdeclared : ∀ n ∈ filter, n ∈ m.targetNames := by
      intro n hn
      obtain ⟨t, ht, rfl⟩ := List.mem_map.1 ((hlists.mem_iff n).2 (List.count_pos_iff.2 hn))
      exact List.mem_map_of_mem (hmem t ht)
    obtain ⟨us, hus⟩ := (exists_select_iff hne).2 hdeclared
    have hnames := (lists_of_select hne hus).unique hlists
    have hfound := findTarget_names checked fun t ht => mem_of_select hus ht
    rw [hnames, findTarget_names checked hmem,
      List.map_inj_right fun t u htu => Except.ok.inj htu] at hfound
    rw [hus, hfound]

/-- A selection fails exactly at the first name that is not declared. -/
theorem select_eq_error_iff {filter : List String} {e : Failure} :
    m.select filter = .error e ↔ ∃ before n after, filter = before ++ n :: after ∧
      (∀ a ∈ before, a ∈ m.targetNames) ∧ n ∉ m.targetNames ∧
      e = .of (.unknownTarget n m.targetNames) := by
  constructor
  · intro h
    rcases m.declared_or_first filter with hdeclared | ⟨before, n, after, rfl, hbefore, hn⟩
    · obtain ⟨ts, hts⟩ := select_of_declared hdeclared
      rw [hts] at h
      cases h
    · rw [select_of_undeclared hn hbefore] at h
      cases h
      exact ⟨before, n, after, rfl, hbefore, hn, rfl⟩
  · rintro ⟨before, n, after, rfl, hbefore, hn, rfl⟩
    exact select_of_undeclared hn hbefore

/-- **A filter selects each target that it names once.**  The empty filter selects all targets
    in declared order; another one succeeds exactly if all its names are declared, and gives
    the targets of the names in the order of first occurrence, and fails otherwise with the
    first undeclared name and all declared ones.  The repeated names are those that occur
    twice or more, in the order of second occurrence; there are some exactly if the filter
    has a repetition, and then there are fewer targets than names. -/
theorem filters_select_once {text : String} {dir : Path} (parsed : parse text dir = .ok m)
    (filter : List String) :
    m.select [] = .ok m.targets ∧
    (filter ≠ [] →
      ((∃ ts, m.select filter = .ok ts) ↔ ∀ n ∈ filter, n ∈ m.targetNames) ∧
      ∀ ts, m.select filter = .ok ts ↔
        (∀ t ∈ ts, t ∈ m.targets) ∧ Lists 0 filter (ts.map Target.name)) ∧
    (∀ e, m.select filter = .error e ↔ ∃ before n after, filter = before ++ n :: after ∧
      (∀ a ∈ before, a ∈ m.targetNames) ∧ n ∉ m.targetNames ∧
      e = .of (.unknownTarget n (m.targets.map Target.name))) ∧
    (∀ picked, picked = repeatedNames filter ↔ Lists 1 filter picked) ∧
    (¬ filter.Nodup ↔ repeatedNames filter ≠ []) ∧
    (repeatedNames filter ≠ [] → ∀ ts, m.select filter = .ok ts → ts.length < filter.length) := by
  have hnil := repeatedNames_eq_nil_iff filter
  refine ⟨m.select_nil, fun hne => ⟨exists_select_iff hne, fun ts => ?_⟩,
    fun e => select_eq_error_iff, fun picked => ?_, not_congr hnil.symm, fun hrepeated ts h => ?_⟩
  · exact select_eq_ok_iff (checked_of_parse parsed) hne
  · rw [repeatedNames_eq]
    exact lists_iff.symm
  · have htwice := mt hnil.2 hrepeated
    have hne : filter ≠ [] := by
      rintro rfl
      exact htwice List.nodup_nil
    have hshort := (lists_of_select hne h).length_lt htwice
    rwa [List.length_map] at hshort

/-- Both targets are selected by a filter that names one of them again. -/
theorem filters_select_once_again :
    Sample.manifest.select ["b.c", "a", "b.c"] = .ok [Sample.targetB, Sample.targetA] ∧
      Lists 1 ["b.c", "a", "b.c"] ["b.c"] ∧ [Sample.targetB, Sample.targetA].length < 3 := by
  obtain ⟨-, -, -, hrepeated, -, hfewer⟩ :=
    filters_select_once Sample.parse_manifestText ["b.c", "a", "b.c"]
  have hselect : Sample.manifest.select ["b.c", "a", "b.c"] = .ok [Sample.targetB, Sample.targetA] := rfl
  exact ⟨hselect, (hrepeated ["b.c"]).1 rfl, hfewer (by decide) _ hselect⟩

end Manifest

end GrammarBuild
