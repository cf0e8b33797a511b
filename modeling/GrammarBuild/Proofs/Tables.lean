import GrammarBuild.Path.Basic
import GrammarBuild.Table

/-
  GrammarBuild/Proofs/Tables.lean
  ===============================
  **Tables as lists of entries** — a table is what its entries are, entering its own
  entries one by one gives it back, and two tables with paths as keys agree exactly when
  they hold the same values for the same components (`agrees_iff_content`).
-/

namespace GrammarBuild.Table

variable {α β γ : Type} [Ord α]

theorem ext {s t : Table α β} (h : s.entries = t.entries) : s = t := by
  cases s
  cases t
  cases h
  rfl

@[simp]
theorem entries_empty : (empty : Table α β).entries = [] := rfl

@[simp]
theorem get?_empty (k : α) : (empty : Table α β).get? k = none := rfl

theorem entries_insert [Std.TransOrd α] (t : Table α β) (k : α) (v : β) :
    (t.insert k v).entries = put k v t.entries := place_eq_put k v t.sorted

/-! ### Entering the entries of a table -/

theorem entries_foldl_insert [Std.TransOrd α] (t : Table α β) (es : List (α × β))
    (h : (t.entries ++ es).Pairwise fun a b => compare a.1 b.1 = .lt) :
    (es.foldl (fun t e => t.insert e.1 e.2) t).entries = t.entries ++ es := by
  induction es generalizing t with
  | nil => simp
  | cons e es ih =>
    have hlast : ∀ a ∈ t.entries, compare e.1 a.1 = .gt := fun a ha =>
      Std.OrientedCmp.gt_of_lt ((List.pairwise_append.1 h).2.2 a ha e List.mem_cons_self)
    have hput : (t.insert e.1 e.2).entries = t.entries ++ [e] := by
      rw [entries_insert, put_eq_append hlast]
    have happ : (t.insert e.1 e.2).entries ++ es = t.entries ++ e :: es := by
      rw [hput, List.append_assoc, List.singleton_append]
    rw [List.foldl_cons, ih _ (happ ▸ h), happ]

/-- A table read entry by entry is the table. -/
theorem ofList_entries [Std.TransOrd α] (t : Table α β) : ofList t.entries = t := by
  have hsort : t.entries.mergeSort atMost = t.entries := by
    refine List.mergeSort_of_pairwise (t.sorted.imp fun {a b} hab => ?_)
    simp [atMost, hab]
  refine ext ?_
  rw [ofList, hsort, entries_foldl_insert empty t.entries (by simpa using t.sorted)]
  simp

/-! ### Other values under the same keys -/

/-- A table with each value exchanged. -/
def mapValues (f : β → γ) (t : Table α β) : Table α γ :=
  ⟨t.entries.map fun e => (e.1, f e.2), by
    rw [List.pairwise_map]
    exact t.sorted⟩

@[simp]
theorem mapValues_empty (f : β → γ) : (empty : Table α β).mapValues f = empty := rfl

theorem map_put (f : β → γ) (k : α) (v : β) (es : List (α × β)) :
    (put k v es).map (fun e => (e.1, f e.2)) = put k (f v) (es.map fun e => (e.1, f e.2)) := by
  induction es with
  | nil => rfl
  | cons e es ih =>
    simp only [put, List.map_cons]
    cases compare k e.1 with
    | lt => rfl
    | eq => rfl
    | gt => simp only [List.map_cons, ih]

theorem mapValues_insert [Std.TransOrd α] (f : β → γ) (t : Table α β) (k : α) (v : β) :
    (t.insert k v).mapValues f = (t.mapValues f).insert k (f v) := by
  refine ext ?_
  rw [entries_insert]
  simp only [mapValues, entries_insert, map_put]

/-! ### Paths as keys -/

/-- What a table says about paths, each given by its components. -/
def content (t : Table Path β) : List (List Component × β) :=
  t.entries.map fun e => (e.1.components, e.2)

theorem content_mapValues (f : β → γ) (t : Table Path β) :
    (t.mapValues f).content = t.content.map fun e => (e.1, f e.2) := by
  simp [content, mapValues]

/-- Two tables agree exactly when they say the same. -/
theorem agrees_iff_content [BEq β] [LawfulBEq β] (s t : Table Path β) :
    s.agrees t = true ↔ s.content = t.content := by
  have go (a b : List (Path × β)) :
      (a.length == b.length && (a.zip b).all fun (x, y) => compare x.1 y.1 == .eq && x.2 == y.2)
        = true ↔
      a.map (fun e => (e.1.components, e.2)) = b.map fun e => (e.1.components, e.2) := by
    induction a generalizing b with
    | nil => cases b <;> simp
    | cons x a ih =>
      cases b with
      | nil => simp
      | cons y b =>
        have := ih b
        simp only [Bool.and_eq_true, beq_iff_eq] at this
        simp only [List.length_cons, List.zip_cons_cons, List.all_cons, List.map_cons,
          Bool.and_eq_true, beq_iff_eq, List.cons.injEq, Prod.mk.injEq, Path.compare_eq_eq_iff,
          ← this, Nat.add_right_cancel_iff]
        exact and_left_comm
  exact go s.entries t.entries

end GrammarBuild.Table
