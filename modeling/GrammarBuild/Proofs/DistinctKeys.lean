import GrammarBuild.Toml.Document
import Mathlib.Data.List.Nodup

/-
  GrammarBuild/Proofs/DistinctKeys.lean
  =====================================
  **No document gives a key twice** — in the entries that are read from a text, and in
  every table inside of them, the keys are distinct (`read?_unambiguous`).  So a look-up
  finds all that a document says about a key.

  A header enters its table only when the next header comes, so for a draft it is an
  invariant, too, that the key of the open table is free where it will be entered
  (`Draft.Unambiguous.free`).
-/

namespace GrammarBuild.Toml

/-- A value in which no table gives a key twice. -/
inductive Value.Unambiguous : Value → Prop where
  | string (s : String) : Unambiguous (.string s)
  | integer (n : Int) : Unambiguous (.integer n)
  | float (x : Binary64) : Unambiguous (.float x)
  | boolean (b : Bool) : Unambiguous (.boolean b)
  | datetime (s : String) : Unambiguous (.datetime s)
  | array {vs : List Value} (items : ∀ v ∈ vs, Unambiguous v) : Unambiguous (.array vs)
  | table {origin : Origin} {es : Entries} (keys : (es.map Prod.fst).Nodup)
    (values : ∀ e ∈ es, Unambiguous e.2) : Unambiguous (.table origin es)
  | tables {ts : List Entries} (keys : ∀ es ∈ ts, (es.map Prod.fst).Nodup)
    (values : ∀ es ∈ ts, ∀ e ∈ es, Unambiguous e.2) : Unambiguous (.tables ts)

namespace Entries

/-- Entries with distinct keys and values of this kind. -/
structure Unambiguous (es : Entries) : Prop where
  keys : (es.map Prod.fst).Nodup
  values : ∀ e ∈ es, e.2.Unambiguous

theorem unambiguous_nil : Unambiguous [] := ⟨List.nodup_nil, fun _ h => (List.not_mem_nil h).elim⟩

variable {es : Entries} {k : String} {v : Value}

theorem Unambiguous.table (u : es.Unambiguous) (origin : Origin) :
    (Value.table origin es).Unambiguous := .table u.keys u.values

theorem of_table {origin : Origin} (h : (Value.table origin es).Unambiguous) : es.Unambiguous := by
  cases h with
  | table keys values => exact ⟨keys, values⟩

theorem tables_iff {ts : List Entries} :
    (Value.tables ts).Unambiguous ↔ ∀ es ∈ ts, Unambiguous es := by
  constructor
  · intro h es hes
    cases h with
    | tables keys values => exact ⟨keys es hes, values es hes⟩
  · exact fun h => .tables (fun es hes => (h es hes).keys) fun es hes => (h es hes).values

/-! ### Look-ups -/

theorem mem_of_get? (h : es.get? k = some v) : (k, v) ∈ es := by
  obtain ⟨e, he, rfl⟩ := Option.map_eq_some_iff.1 h
  have hk := List.find?_some he
  rw [beq_iff_eq] at hk
  rw [← hk]
  exact List.mem_of_find?_eq_some he

theorem get?_eq_none : es.get? k = none ↔ k ∉ es.map Prod.fst := by
  rw [get?, Option.map_eq_none_iff, List.find?_eq_none, List.mem_map]
  constructor
  · rintro h ⟨e, he, rfl⟩
    exact h e he (beq_self_eq_true _)
  · intro h e he hk
    exact h ⟨e, he, beq_iff_eq.1 hk⟩

theorem Unambiguous.value (u : es.Unambiguous) (h : es.get? k = some v) : v.Unambiguous :=
  u.values _ (mem_of_get? h)

theorem get?_append (h : es.get? k = none) : Entries.get? (es ++ [(k, v)]) k = some v := by
  rw [get?, Option.map_eq_none_iff] at h
  rw [get?, List.find?_append, h]
  simp

theorem get?_replace {w : Value} (h : es.get? k = some w) : (es.replace k v).get? k = some v := by
  induction es with
  | nil => cases h
  | cons e es ih =>
    by_cases hk : e.1 = k
    · simp [replace, get?, hk]
    · have hrest : Entries.get? es k = some w := by simpa [get?, hk] using h
      simpa [replace, get?, hk] using ih hrest

theorem get?_remove (es : Entries) (k : String) : (es.remove k).get? k = none := by
  rw [get?_eq_none, List.mem_map]
  rintro ⟨e, he, rfl⟩
  simpa using (List.mem_filter.1 he).2

/-! ### Changes -/

theorem Unambiguous.append (u : es.Unambiguous) (free : es.get? k = none) (hv : v.Unambiguous) :
    Unambiguous (es ++ [(k, v)]) := by
  refine ⟨?_, ?_⟩
  · rw [List.map_append, List.map_singleton, List.nodup_append_comm, List.singleton_append,
      List.nodup_cons]
    exact ⟨get?_eq_none.1 free, u.keys⟩
  · intro e he
    rcases List.mem_append.1 he with he | he
    · exact u.values e he
    · rw [List.mem_singleton.1 he]
      exact hv

theorem Unambiguous.replace (u : es.Unambiguous) (k : String) (hv : v.Unambiguous) :
    (es.replace k v).Unambiguous := by
  have hkeys : (es.replace k v).map Prod.fst = es.map Prod.fst := by
    rw [Entries.replace, List.map_map]
    refine List.map_congr_left fun e _ => ?_
    by_cases hk : e.1 = k
    · simp [hk]
    · simp [hk]
  refine ⟨hkeys ▸ u.keys, fun e he => ?_⟩
  obtain ⟨e', he', rfl⟩ := List.mem_map.1 he
  split
  · exact hv
  · exact u.values e' he'

theorem Unambiguous.remove (u : es.Unambiguous) (k : String) : (es.remove k).Unambiguous :=
  ⟨u.keys.sublist (List.filter_sublist.map Prod.fst), fun e he => u.values e (List.mem_filter.1 he).1⟩

end Entries

open Entries

/-! ### Keys and headers -/

/-- A dotted key is refused where it is taken. -/
theorem putDotted_unambiguous {path : List String} {key : String} {v : Value} {es es' : Entries}
    (hv : v.Unambiguous) (u : es.Unambiguous) (h : putDotted path key v es = some es') :
    es'.Unambiguous := by
  induction path generalizing es es' with
  | nil =>
    unfold putDotted at h
    split at h
    · cases h
    · rename_i htaken
      cases h
      exact u.append (Option.not_isSome_iff_eq_none.1 htaken) hv
  | cons k ks ih =>
    unfold putDotted at h
    split at h
    · rename_i hfree
      obtain ⟨sub, hsub, rfl⟩ := Option.map_eq_some_iff.1 h
      exact u.append hfree ((ih unambiguous_nil hsub).table _)
    · rename_i origin sub hget
      split at h
      · obtain ⟨sub', hsub, rfl⟩ := Option.map_eq_some_iff.1 h
        exact u.replace k ((ih (of_table (u.value hget)) hsub).table _)
      · cases h
    · rename_i last ts hget
      split at h
      · cases h
      · obtain ⟨last', hlast, rfl⟩ := Option.map_eq_some_iff.1 h
        obtain ⟨hhead, hts⟩ := List.forall_mem_cons.1 (tables_iff.1 (u.value hget))
        exact u.replace k (tables_iff.2 (List.forall_mem_cons.2 ⟨ih hhead hlast, hts⟩))
    · cases h

theorem entriesAt_nil (path : List String) : entriesAt path [] = [] := by
  cases path with
  | nil => rfl
  | cons k ks => rfl

theorem entriesAt_unambiguous {es : Entries} (u : es.Unambiguous) (path : List String) :
    (entriesAt path es).Unambiguous := by
  induction path generalizing es with
  | nil => exact u
  | cons k ks ih =>
    unfold entriesAt
    split
    · rename_i hget
      exact ih (of_table (u.value hget))
    · rename_i hget
      exact ih (tables_iff.1 (u.value hget) _ List.mem_cons_self)
    · exact unambiguous_nil

/-- A change at the end of a path is a change of the entries there, and of nothing else. -/
theorem alterAt_spec {path : List String} {f : Entries → Option Entries} {es es' : Entries}
    (u : es.Unambiguous) (h : alterAt path f es = some es')
    (hf : ∀ r, f (entriesAt path es) = some r → r.Unambiguous) :
    f (entriesAt path es) = some (entriesAt path es') ∧ es'.Unambiguous := by
  induction path generalizing es es' with
  | nil => exact ⟨h, hf es' h⟩
  | cons k ks ih =>
    unfold alterAt at h
    split at h
    · rename_i hfree
      obtain ⟨sub, hsub, rfl⟩ := Option.map_eq_some_iff.1 h
      have hat : entriesAt (k :: ks) es = entriesAt ks [] := by
        rw [entriesAt, hfree, entriesAt_nil]
      rw [hat] at hf ⊢
      obtain ⟨hends, usub⟩ := ih unambiguous_nil hsub hf
      refine ⟨?_, u.append hfree (usub.table _)⟩
      rw [hends, entriesAt, get?_append hfree]
    · rename_i origin sub hget
      split at h
      · cases h
      · obtain ⟨sub', hsub, rfl⟩ := Option.map_eq_some_iff.1 h
        have hat : entriesAt (k :: ks) es = entriesAt ks sub := by rw [entriesAt, hget]
        rw [hat] at hf ⊢
        obtain ⟨hends, usub⟩ := ih (of_table (u.value hget)) hsub hf
        refine ⟨?_, u.replace k (usub.table _)⟩
        rw [hends, entriesAt, get?_replace hget]
    · rename_i last ts hget
      obtain ⟨last', hlast, rfl⟩ := Option.map_eq_some_iff.1 h
      have hat : entriesAt (k :: ks) es = entriesAt ks last := by rw [entriesAt, hget]
      obtain ⟨hhead, hts⟩ := List.forall_mem_cons.1 (tables_iff.1 (u.value hget))
      rw [hat] at hf ⊢
      obtain ⟨hends, ulast⟩ := ih hhead hlast hf
      refine ⟨?_, u.replace k (tables_iff.2 (List.forall_mem_cons.2 ⟨ulast, hts⟩))⟩
      rw [hends, entriesAt, get?_replace hget]
    · cases h

namespace Draft

/-- What holds of every draft. -/
structure Unambiguous (d : Draft) : Prop where
  closed : d.closed.Unambiguous
  lines : d.lines.Unambiguous
  free : ∀ path key, d.place = .table path key → (entriesAt path d.closed).get? key = none

theorem unambiguous_start : Unambiguous {} :=
  ⟨unambiguous_nil, unambiguous_nil, fun _ _ h => nomatch h⟩

variable {d d' : Draft} {path : List String} {key : String}

theorem Unambiguous.close (u : d.Unambiguous) {es : Entries} (h : d.close = some es) :
    es.Unambiguous := by
  unfold Draft.close at h
  split at h
  · cases h
    exact u.lines
  · rename_i path key hplace
    refine (alterAt_spec u.closed h ?_).2
    rintro r ⟨⟩
    exact (entriesAt_unambiguous u.closed path).append (u.free path key hplace) (u.lines.table _)
  · rename_i path key hplace
    have uat := entriesAt_unambiguous u.closed path
    refine (alterAt_spec u.closed h ?_).2
    intro r hr
    split at hr
    · rename_i hfree
      cases hr
      exact uat.append hfree (tables_iff.2 (List.forall_mem_singleton.2 u.lines))
    · rename_i ts hget
      cases hr
      exact uat.replace key
        (tables_iff.2 (List.forall_mem_cons.2 ⟨u.lines, tables_iff.1 (uat.value hget)⟩))
    · cases hr

theorem unambiguous_implied (v : Option Value) :
    (∀ sub, v = some (.table .implied sub) → Entries.Unambiguous sub) →
      Entries.Unambiguous (match v with
        | some (.table .implied sub) => sub
        | _ => []) := by
  intro h
  split
  · exact h _ rfl
  · exact unambiguous_nil

theorem Unambiguous.openTable (u : d.Unambiguous) (h : d.openTable path key = some d') :
    d'.Unambiguous := by
  unfold Draft.openTable at h
  obtain ⟨closed, hclose, h⟩ := Option.bind_eq_some_iff.1 h
  obtain ⟨closed', halter, h⟩ := Option.bind_eq_some_iff.1 h
  cases h
  have uclosed := u.close hclose
  have uat := entriesAt_unambiguous uclosed path
  obtain ⟨hends, uclosed'⟩ := alterAt_spec uclosed halter (by
    intro r hr
    split at hr
    · cases hr
      exact uat
    · cases hr
      exact uat.remove key
    · cases hr)
  refine ⟨uclosed', ?_, ?_⟩
  · exact unambiguous_implied _ fun sub hget => of_table (uat.value hget)
  · rintro path' key' ⟨⟩
    show (entriesAt path closed').get? key = none
    split at hends
    · rename_i hfree
      rw [← Option.some.inj hends]
      exact hfree
    · rw [← Option.some.inj hends]
      exact get?_remove _ key
    · cases hends

theorem Unambiguous.openItem (u : d.Unambiguous) (h : d.openItem path key = some d') :
    d'.Unambiguous := by
  unfold Draft.openItem at h
  obtain ⟨closed, hclose, h⟩ := Option.bind_eq_some_iff.1 h
  obtain ⟨closed', -, h⟩ := Option.bind_eq_some_iff.1 h
  cases h
  exact ⟨u.close hclose, unambiguous_nil, fun _ _ h => nomatch h⟩

theorem Unambiguous.put (u : d.Unambiguous) {v : Value} (hv : v.Unambiguous)
    (h : d.put path key v = some d') : d'.Unambiguous := by
  obtain ⟨lines, hlines, rfl⟩ := Option.map_eq_some_iff.1 h
  exact ⟨u.closed, putDotted_unambiguous hv u.lines hlines, u.free⟩

end Draft

/-! ### Values -/

/-- The values that a reader finds give no key twice. -/
def Reader.FindsUnambiguous (item : Reader Value) : Prop :=
  ∀ ⦃s v r⦄, item s = some (v, r) → v.Unambiguous

theorem datetime?_unambiguous : Reader.FindsUnambiguous datetime? := by
  intro s v r h
  unfold datetime? at h
  split at h
  · dsimp only at h
    split at h
    · cases h
      exact .datetime _
    · split at h
      · cases h
        exact .datetime _
      · cases h
        exact .datetime _
  · obtain ⟨⟨t, r'⟩, -, ht⟩ := Option.map_eq_some_iff.1 h
    cases ht
    exact .datetime _

theorem special?_unambiguous (negative : Bool) :
    Reader.FindsUnambiguous (special? negative) := by
  intro s v r h
  unfold special? at h
  split at h
  · cases h
    exact .float _
  · cases h
    exact .float _
  · cases h

theorem float?_unambiguous : Reader.FindsUnambiguous float? := by
  intro s v r h
  unfold float? at h
  dsimp only at h
  split at h
  · rename_i found hfound
    cases h
    exact special?_unambiguous _ hfound
  · have ends {x : Binary64} {r' : List Char}
        (hx : (if x = .infinite false then none else some (Value.float x, r')) = some (v, r)) :
        v.Unambiguous := by
      split at hx
      · cases hx
      · cases hx
        exact .float _
    obtain ⟨⟨ws, r₁⟩, -, h⟩ := Option.bind_eq_some_iff.1 h
    split at h
    · split at h
      · exact ends h
      · exact ends h
    · obtain ⟨⟨fs, e, r₂⟩, -, h⟩ := Option.bind_eq_some_iff.1 h
      exact ends h

theorem based?_unambiguous (base : Nat) (ok : Char → Bool) :
    Reader.FindsUnambiguous (based? base ok) := by
  intro s v r h
  obtain ⟨⟨ds, r₁⟩, -, h⟩ := Option.bind_eq_some_iff.1 h
  dsimp only at h
  split at h
  · cases h
    exact .integer _
  · cases h

theorem integer?_unambiguous : Reader.FindsUnambiguous integer? := by
  intro s v r h
  unfold integer? at h
  split at h
  · exact based?_unambiguous _ _ h
  · exact based?_unambiguous _ _ h
  · exact based?_unambiguous _ _ h
  · generalize sign s = signed at h
    obtain ⟨negative, s'⟩ := signed
    obtain ⟨⟨ds, r₁⟩, -, h⟩ := Option.bind_eq_some_iff.1 h
    dsimp only at h
    cases negative with
    | true =>
      rw [if_pos rfl] at h
      split at h
      · cases h
        exact .integer _
      · cases h
    | false =>
      rw [if_neg Bool.false_ne_true] at h
      split at h
      · cases h
        exact .integer _
      · cases h

theorem number?_unambiguous : Reader.FindsUnambiguous number? := by
  intro s v r h
  unfold number? at h
  cases hdate : datetime? s with
  | some found =>
    rw [hdate] at h
    cases h
    exact datetime?_unambiguous hdate
  | none =>
    cases hfloat : float? s with
    | some found =>
      rw [hdate, hfloat] at h
      cases h
      exact float?_unambiguous hfloat
    | none =>
      rw [hdate, hfloat] at h
      exact integer?_unambiguous h

section Nested

variable {item : Reader Value} (found : item.FindsUnambiguous)
include found

theorem arrayItems?_unambiguous {bound s r : List Char} {vs : List Value}
    (h : arrayItems? item bound s = some (vs, r)) : ∀ v ∈ vs, v.Unambiguous := by
  induction bound generalizing s vs r with
  | nil => cases h
  | cons b bound ih =>
    unfold arrayItems? at h
    split at h
    · cases h
      exact fun v hv => (List.not_mem_nil hv).elim
    · obtain ⟨⟨v, r₁⟩, hv, h⟩ := Option.bind_eq_some_iff.1 h
      dsimp only at h
      split at h
      · cases h
        exact List.forall_mem_singleton.2 (found hv)
      · obtain ⟨⟨vs', r₂⟩, hvs, h⟩ := Option.bind_eq_some_iff.1 h
        cases h
        exact List.forall_mem_cons.2 ⟨found hv, ih hvs⟩
      · cases h

theorem pair?_unambiguous {s r : List Char} {p : List String × String × Value}
    (h : pair? item s = some (p, r)) : p.2.2.Unambiguous := by
  obtain ⟨⟨⟨path, key⟩, r₁⟩, -, h⟩ := Option.bind_eq_some_iff.1 h
  dsimp only at h
  split at h
  · obtain ⟨⟨v, r₂⟩, hv, h⟩ := Option.bind_eq_some_iff.1 h
    cases h
    exact found hv
  · cases h

theorem pairs?_unambiguous {bound s r : List Char} {ps : List (List String × String × Value)}
    (h : pairs? item bound s = some (ps, r)) : ∀ p ∈ ps, p.2.2.Unambiguous := by
  induction bound generalizing s ps r with
  | nil => cases h
  | cons b bound ih =>
    unfold pairs? at h
    obtain ⟨⟨p, r₁⟩, hp, h⟩ := Option.bind_eq_some_iff.1 h
    dsimp only at h
    split at h
    · cases h
      exact List.forall_mem_singleton.2 (pair?_unambiguous found hp)
    · obtain ⟨⟨ps', r₂⟩, hps, h⟩ := Option.bind_eq_some_iff.1 h
      cases h
      exact List.forall_mem_cons.2 ⟨pair?_unambiguous found hp, ih hps⟩
    · cases h

end Nested

theorem ofPairs_unambiguous {ps : List (List String × String × Value)} {es : Entries}
    (hps : ∀ p ∈ ps, p.2.2.Unambiguous) (h : ofPairs ps = some es) : es.Unambiguous := by
  unfold ofPairs at h
  have ustart := unambiguous_nil
  revert h ustart
  generalize ([] : Entries) = start
  intro h ustart
  induction ps generalizing start with
  | nil =>
    cases h
    exact ustart
  | cons p ps ih =>
    obtain ⟨hp, hps⟩ := List.forall_mem_cons.1 hps
    obtain ⟨start', hput, h⟩ := Option.bind_eq_some_iff.1 h
    exact ih hps start' h (putDotted_unambiguous hp ustart hput)

theorem value?_unambiguous (depth : Nat) : Reader.FindsUnambiguous (value? depth) := by
  induction depth using Nat.strongRecOn with
  | ind depth ih =>
    intro s v r h
    unfold value? at h
    split at h
    · obtain ⟨_, -, ht⟩ := Option.map_eq_some_iff.1 h
      cases ht
      exact .string _
    · obtain ⟨_, -, ht⟩ := Option.map_eq_some_iff.1 h
      cases ht
      exact .string _
    · split at h
      · cases h
      · obtain ⟨⟨vs, r₁⟩, hvs, ht⟩ := Option.map_eq_some_iff.1 h
        cases ht
        exact .array (arrayItems?_unambiguous (ih _ (Nat.lt_succ_self _)) hvs)
    · split at h
      · cases h
      · split at h
        · cases h
          exact unambiguous_nil.table _
        · obtain ⟨⟨ps, r₁⟩, hps, h⟩ := Option.bind_eq_some_iff.1 h
          obtain ⟨es, hes, h⟩ := Option.bind_eq_some_iff.1 h
          cases h
          have hvalues := pairs?_unambiguous (ih _ (Nat.lt_succ_self _)) hps
          exact (ofPairs_unambiguous hvalues hes).table _
    · cases h
      exact .boolean _
    · cases h
      exact .boolean _
    · exact number?_unambiguous h

/-! ### Documents -/

theorem expression?_unambiguous {d d' : Draft} {s r : List Char} (u : d.Unambiguous)
    (h : expression? d s = some (d', r)) : d'.Unambiguous := by
  unfold expression? at h
  split at h
  · obtain ⟨⟨⟨path, key⟩, r₁⟩, -, h⟩ := Option.bind_eq_some_iff.1 h
    dsimp only at h
    split at h
    · obtain ⟨d₁, hopen, h⟩ := Option.bind_eq_some_iff.1 h
      obtain ⟨r₂, -, h⟩ := Option.bind_eq_some_iff.1 h
      cases h
      exact u.openItem hopen
    · cases h
  · obtain ⟨⟨⟨path, key⟩, r₁⟩, -, h⟩ := Option.bind_eq_some_iff.1 h
    dsimp only at h
    split at h
    · obtain ⟨d₁, hopen, h⟩ := Option.bind_eq_some_iff.1 h
      obtain ⟨r₂, -, h⟩ := Option.bind_eq_some_iff.1 h
      cases h
      exact u.openTable hopen
    · cases h
  · obtain ⟨⟨⟨path, key, v⟩, r₁⟩, hpair, h⟩ := Option.bind_eq_some_iff.1 h
    obtain ⟨d₁, hput, h⟩ := Option.bind_eq_some_iff.1 h
    obtain ⟨r₂, -, h⟩ := Option.bind_eq_some_iff.1 h
    cases h
    exact u.put (pair?_unambiguous (value?_unambiguous 79) hpair) hput

theorem lines?_unambiguous {fuel : Nat} {d d' : Draft} {s : List Char} (u : d.Unambiguous)
    (h : lines? fuel d s = some d') : d'.Unambiguous := by
  induction fuel generalizing d s with
  | zero => cases h
  | succ fuel ih =>
    unfold lines? at h
    split at h
    · cases h
      exact u
    · split at h
      · exact ih u h
      · obtain ⟨⟨d₁, r⟩, hexpr, h⟩ := Option.bind_eq_some_iff.1 h
        exact ih (expression?_unambiguous u hexpr) h

theorem read?_unambiguous {s : String} {es : Entries} (h : read? s = some es) :
    es.Unambiguous := by
  unfold read? readChars? at h
  dsimp only at h
  obtain ⟨d, hlines, hclose⟩ := Option.bind_eq_some_iff.1 h
  exact (lines?_unambiguous Draft.unambiguous_start hlines).close hclose

end GrammarBuild.Toml
