import GrammarBuild.Host.FileTree

/-
  GrammarBuild/Proofs/TreeLists.lean
  ==================================
  **Trees as lists** — what a tree shows at a location is in its list (`mem_toList`), the
  names in a directory are the last names of what is in the list (`mem_toList_of_mem_names`),
  and what is below a location is no longer than the list (`length_listBranches_subtree`).

  So what holds of everything in a given tree can be decided by its list.
-/

namespace GrammarBuild.FileTree

variable {t : FileTree} {l : Location} {name : String} {b : FileTree} {n : Node}

theorem mem_of_lookup {bs : List (String × FileTree)} (h : bs.lookup name = some b) : (name, b) ∈ bs := by
  obtain ⟨front, back, rfl, -⟩ := List.lookup_eq_some_iff.1 h
  simp

/-- A branch is empty or one of the tree's. -/
theorem branch_eq_empty_or_mem (t : FileTree) (name : String) :
    t.branch name = empty ∨ (name, t.branch name) ∈ t.branches := by
  unfold branch
  cases hlook : t.branches.lookup name with
  | none => exact .inl rfl
  | some b => exact .inr (mem_of_lookup hlook)

theorem mem_listBranches {bs : List (String × FileTree)} (h : (name, b) ∈ bs) (hl : (l, n) ∈ b.toList) :
    (name :: l, n) ∈ listBranches bs := by
  induction bs with
  | nil => cases h
  | cons e bs ih =>
    rw [listBranches, List.mem_append]
    rcases List.mem_cons.1 h with rfl | h
    · exact .inl (List.mem_map.2 ⟨_, hl, rfl⟩)
    · exact .inr (ih h)

theorem listBranches_subset_toList (t : FileTree) : listBranches t.branches ⊆ t.toList := by
  obtain ⟨here, bs⟩ := t
  rw [toList]
  exact List.subset_append_right _ _

theorem mem_toList_of_here (h : t.here = some n) : ([], n) ∈ t.toList := by
  obtain ⟨here, bs⟩ := t
  obtain rfl : here = some n := h
  simp [toList]

/-- What is in a branch of the tree below a location is in the tree's list. -/
theorem mem_toList_of_mem_branches {k : Location} (h : (name, b) ∈ (t.subtree l).branches)
    (hk : (k, n) ∈ b.toList) : (l ++ name :: k, n) ∈ t.toList := by
  induction l generalizing t with
  | nil => exact listBranches_subset_toList t (mem_listBranches h hk)
  | cons first l ih =>
    have hbranch := ih (t := t.branch first) h
    rcases t.branch_eq_empty_or_mem first with hempty | hmem
    · rw [hempty] at hbranch
      cases hbranch
    · exact listBranches_subset_toList t (mem_listBranches hmem hbranch)

/-- What a tree shows at a location is in its list. -/
theorem mem_toList (hl : l ≠ []) (h : t.node? l = some n) : (l, n) ∈ t.toList := by
  obtain ⟨front, last, rfl⟩ := (List.eq_nil_or_concat l).resolve_left hl
  rw [List.concat_eq_append] at hl h ⊢
  have hhere : ((t.subtree front).branch last).here = some n := by
    rw [node?, if_neg hl, subtree_append] at h
    exact h
  rcases (t.subtree front).branch_eq_empty_or_mem last with hempty | hmem
  · rw [hempty] at hhere
    cases hhere
  · exact mem_toList_of_mem_branches hmem (mem_toList_of_here hhere)

/-! ### The names in a directory -/

/-- What is there is listed, and nothing else. -/
theorem mem_names_iff : name ∈ t.names l ↔ (t.node? (l ++ [name])).isSome = true := by
  have hne : l ++ [name] ≠ [] := by simp
  have hnode : t.node? (l ++ [name]) = ((t.subtree l).branch name).here := by
    rw [node?, if_neg hne, subtree_append]
    rfl
  rw [hnode, names, List.mem_mergeSort, List.mem_filter, List.mem_eraseDups]
  constructor
  · exact And.right
  · intro hhere
    refine ⟨?_, hhere⟩
    rcases (t.subtree l).branch_eq_empty_or_mem name with hempty | hmem
    · rw [hempty] at hhere
      cases hhere
    · exact List.mem_map.2 ⟨_, hmem, rfl⟩

theorem mem_toList_of_mem_names (h : name ∈ t.names l) : ∃ n, (l ++ [name], n) ∈ t.toList := by
  obtain ⟨n, hn⟩ := Option.isSome_iff_exists.1 (mem_names_iff.1 h)
  exact ⟨n, mem_toList (by simp) hn⟩

/-! ### How long the list is -/

theorem length_toList_of_mem {bs : List (String × FileTree)} (h : (name, b) ∈ bs) :
    b.toList.length ≤ (listBranches bs).length := by
  induction bs with
  | nil => cases h
  | cons e bs ih =>
    rw [listBranches, List.length_append, List.length_map]
    rcases List.mem_cons.1 h with rfl | h
    · exact Nat.le_add_right _ _
    · exact Nat.le_trans (ih h) (Nat.le_add_left _ _)

/-- A branch has fewer entries than the tree by what is at its root. -/
theorem length_listBranches_branch (t : FileTree) (name : String) :
    (listBranches (t.branch name).branches).length + (t.branch name).here.toList.length ≤
      (listBranches t.branches).length := by
  rcases t.branch_eq_empty_or_mem name with hempty | hmem
  · rw [hempty]
    exact Nat.zero_le _
  · have hle := length_toList_of_mem hmem
    have hb (b : FileTree) :
        b.toList.length = b.here.toList.length + (listBranches b.branches).length := by
      obtain ⟨n, bs⟩ := b
      rw [toList, List.length_append, List.length_map]
      rfl
    rw [hb] at hle
    omega

theorem length_listBranches_subtree (t : FileTree) (l : Location) :
    (listBranches (t.subtree l).branches).length ≤ t.toList.length := by
  have hbranches : (listBranches t.branches).length ≤ t.toList.length := by
    obtain ⟨n, bs⟩ := t
    rw [toList, List.length_append]
    exact Nat.le_add_left _ _
  refine Nat.le_trans ?_ hbranches
  clear hbranches
  induction l generalizing t with
  | nil => exact Nat.le_refl _
  | cons name l ih =>
    have hbranch := length_listBranches_branch t name
    exact Nat.le_trans (ih (t.branch name)) (by omega)

end GrammarBuild.FileTree
