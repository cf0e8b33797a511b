/-
  GrammarBuild/Table.lean
  =======================
  **Tables sorted by key** — a table holds its entries in the order of their keys,
  and no two keys that compare equal.  Keys that compare equal may still be written
  differently, as the paths `a/b` and `a//b` are: an entry keeps the key it was
  first entered under and takes each new value (`get?_insert`).
-/

namespace GrammarBuild

variable {α β : Type} [Ord α]

/-- Entries in strictly ascending order of their keys. -/
structure Table (α β : Type) [Ord α] where
  entries : List (α × β)
  sorted : entries.Pairwise fun a b => compare a.1 b.1 = .lt

namespace Table

instance [DecidableEq α] [DecidableEq β] : DecidableEq (Table α β) := fun s t =>
  decidable_of_iff (s.entries = t.entries) ⟨fun h => by cases s; cases t; simp_all, (· ▸ rfl)⟩

instance [Repr α] [Repr β] : Repr (Table α β) := ⟨fun t => reprPrec t.entries⟩

/-- The table without entries. -/
def empty : Table α β := ⟨[], .nil⟩

instance : Inhabited (Table α β) := ⟨empty⟩

/-- The value under a key, in a list of entries. -/
def lookup (k : α) : List (α × β) → Option β
  | [] => none
  | e :: es => if compare k e.1 = .eq then some e.2 else lookup k es

/-- The value under a key. -/
def get? (t : Table α β) (k : α) : Option β := lookup k t.entries

/-- The keys in order. -/
def keys (t : Table α β) : List α := t.entries.map Prod.fst

/-- A value entered into a sorted list.  The key of an entry that is there stays. -/
def put (k : α) (v : β) : List (α × β) → List (α × β)
  | [] => [(k, v)]
  | e :: es =>
    match compare k e.1 with
    | .lt => (k, v) :: e :: es
    | .eq => (e.1, v) :: es
    | .gt => e :: put k v es

/-- The keys after an entry are the new key and old ones. -/
theorem key_mem_put {k : α} {v : β} {es : List (α × β)} {e : α × β} (h : e ∈ put k v es) :
    e.1 = k ∨ ∃ e' ∈ es, e'.1 = e.1 := by
  induction es with
  | nil => simp_all [put]
  | cons a es ih =>
    simp only [put] at h
    split at h
    · rcases List.mem_cons.1 h with rfl | h
      · exact .inl rfl
      · exact .inr ⟨e, h, rfl⟩
    · rcases List.mem_cons.1 h with rfl | h
      · exact .inr ⟨a, by simp, rfl⟩
      · exact .inr ⟨e, by simp [h], rfl⟩
    · rcases List.mem_cons.1 h with rfl | h
      · exact .inr ⟨e, by simp, rfl⟩
      · rcases ih h with h | ⟨e', he', h⟩
        · exact .inl h
        · exact .inr ⟨e', by simp [he'], h⟩

/-- Entering a value keeps the order. -/
theorem sorted_put [Std.TransOrd α] (k : α) (v : β) {es : List (α × β)}
    (h : es.Pairwise fun a b => compare a.1 b.1 = .lt) :
    (put k v es).Pairwise fun a b => compare a.1 b.1 = .lt := by
  induction es with
  | nil => simp [put]
  | cons a es ih =>
    have ⟨ha, hes⟩ := List.pairwise_cons.1 h
    simp only [put]
    split
    · rename_i hk
      refine List.pairwise_cons.2 ⟨fun e he => ?_, h⟩
      rcases List.mem_cons.1 he with rfl | he
      · exact hk
      · exact Std.TransCmp.lt_trans hk (ha e he)
    · exact List.pairwise_cons.2 ⟨fun e he => ha e he, hes⟩
    · rename_i hk
      refine List.pairwise_cons.2 ⟨fun e he => ?_, ih hes⟩
      rcases key_mem_put he with h | ⟨e', he', h⟩
      · rw [h]; exact Std.OrientedCmp.lt_of_gt hk
      · rw [← h]; exact ha e' he'

/-- `put` with a look at the last key first, behind which most new keys belong. -/
def place (k : α) (v : β) (es : List (α × β)) : List (α × β) :=
  match es.getLast? with
  | some e => if compare k e.1 = .gt then es ++ [(k, v)] else put k v es
  | none => [(k, v)]

theorem put_eq_append {k : α} {v : β} {es : List (α × β)}
    (h : ∀ e ∈ es, compare k e.1 = .gt) : put k v es = es ++ [(k, v)] := by
  induction es with
  | nil => rfl
  | cons a es ih =>
    have ha := h a List.mem_cons_self
    simp [put, ha, ih fun e he => h e (List.mem_cons_of_mem a he)]

/-- In a sorted list the look at the last key changes nothing. -/
theorem place_eq_put [Std.TransOrd α] (k : α) (v : β) {es : List (α × β)}
    (h : es.Pairwise fun a b => compare a.1 b.1 = .lt) : place k v es = put k v es := by
  unfold place
  split
  · rename_i e he
    split
    · rename_i hk
      obtain ⟨front, rfl⟩ := List.getLast?_eq_some_iff.1 he
      refine (put_eq_append fun a ha => ?_).symm
      rcases List.mem_append.1 ha with ha | ha
      · have hlt := (List.pairwise_append.1 h).2.2 a ha e (List.mem_singleton.2 rfl)
        exact Std.TransCmp.gt_trans hk (Std.OrientedCmp.gt_of_lt hlt)
      · rw [List.mem_singleton.1 ha]
        exact hk
    · rfl
  · rename_i he
    rw [List.getLast?_eq_none_iff.1 he]
    rfl

/-- A table with a value entered. -/
def insert [Std.TransOrd α] (t : Table α β) (k : α) (v : β) : Table α β :=
  ⟨place k v t.entries, place_eq_put k v t.sorted ▸ sorted_put k v t.sorted⟩

/-- The order of entries by their keys. -/
def atMost (a b : α × β) : Bool := (compare a.1 b.1).isLE

theorem atMost_total [Std.TransOrd α] (a b : α × β) : (atMost a b || atMost b a) = true := by
  cases h : compare a.1 b.1 with
  | gt => simp [atMost, Std.OrientedCmp.lt_of_gt h]
  | _ => simp [atMost, h]

/-- The entries of a list, later ones replacing earlier ones (`get?_ofList`).  They are
    entered in ascending order, each behind the last. -/
def ofList [Std.TransOrd α] (es : List (α × β)) : Table α β :=
  (es.mergeSort atMost).foldl (fun t e => t.insert e.1 e.2) empty

/-- Whether two tables have equal values under keys that compare equal. -/
def agrees [BEq β] (s t : Table α β) : Bool :=
  s.entries.length == t.entries.length
    && (s.entries.zip t.entries).all fun (a, b) => compare a.1 b.1 == .eq && a.2 == b.2

/-- A look-up in a list of entries after a value was entered. -/
theorem lookup_put [Std.TransOrd α] (k k' : α) (v : β) (es : List (α × β)) :
    lookup k' (put k v es) = if compare k' k = .eq then some v else lookup k' es := by
  induction es with
  | nil => simp [put, lookup]
  | cons a es ih =>
    simp only [put]
    split
    · simp [lookup]
    · rename_i hk
      have : compare k' k = .eq ↔ compare k' a.1 = .eq :=
        ⟨fun h => Std.TransCmp.eq_trans h hk,
          fun h => Std.TransCmp.eq_trans h (Std.OrientedCmp.eq_symm hk)⟩
      by_cases h : compare k' a.1 = .eq <;> simp [lookup, this, h]
    · rename_i hk
      by_cases h : compare k' a.1 = .eq
      · have : compare k' k ≠ .eq := fun h' => by
          have := Std.TransCmp.eq_trans (Std.OrientedCmp.eq_symm h') h
          rw [hk] at this
          cases this
        simp [lookup, h, this]
      · simp [lookup, h, ih]

/-- After an entry, its key has the new value and every other key its old one. -/
theorem get?_insert [Std.TransOrd α] (t : Table α β) (k k' : α) (v : β) :
    (t.insert k v).get? k' = if compare k' k = .eq then some v else t.get? k' := by
  show lookup k' (place k v t.entries) = _
  rw [place_eq_put k v t.sorted, lookup_put]
  rfl

/-- After several entries, a key has the last value that was entered under it. -/
theorem get?_foldl_insert [Std.TransOrd α] (t : Table α β) (es : List (α × β)) (k : α) :
    (es.foldl (fun t e => t.insert e.1 e.2) t).get? k =
      ((es.filter fun e => compare k e.1 == .eq).getLast?.map Prod.snd).or (t.get? k) := by
  induction es generalizing t with
  | nil => simp
  | cons e es ih =>
    rw [List.foldl_cons, ih, get?_insert]
    by_cases h : compare k e.1 = .eq
    · cases hl : (es.filter fun e => compare k e.1 == .eq).getLast? <;>
        simp [h, List.getLast?_cons, hl]
    · simp [h]

/-- Sorting keeps the order among the entries of one key. -/
theorem filter_mergeSort [Std.TransOrd α] (es : List (α × β)) (k : α) :
    ((es.mergeSort atMost).filter fun e => compare k e.1 == .eq) =
      es.filter fun e => compare k e.1 == .eq := by
  have hp : (es.filter fun e => compare k e.1 == .eq).Pairwise (atMost · ·) := by
    refine List.pairwise_of_forall_mem_list fun a ha b hb => ?_
    have ha : compare k a.1 = .eq := eq_of_beq (List.mem_filter.1 ha).2
    have hb : compare k b.1 = .eq := eq_of_beq (List.mem_filter.1 hb).2
    have := Std.TransCmp.eq_trans (Std.OrientedCmp.eq_symm ha) hb
    simp [atMost, this]
  have hs := List.sublist_mergeSort (fun _ _ _ => Std.TransCmp.isLE_trans) atMost_total hp
    List.filter_sublist
  have := hs.filter fun e => compare k e.1 == .eq
  rw [List.filter_filter] at this
  simp only [Bool.and_self] at this
  exact (this.eq_of_length ((List.mergeSort_perm es atMost).filter _).length_eq.symm).symm

theorem get?_ofList [Std.TransOrd α] (es : List (α × β)) (k : α) :
    (ofList es).get? k = (es.filter fun e => compare k e.1 == .eq).getLast?.map Prod.snd := by
  rw [ofList, get?_foldl_insert, filter_mergeSort]
  simp [get?, empty, lookup]

end Table

end GrammarBuild
