import GrammarBuild.Proofs.LiteralPatterns
import GrammarBuild.Proofs.SearchPaths
import GrammarBuild.Proofs.TreeLists

/-
  GrammarBuild/Proofs/TreeSearch.lean
  ===================================
  **What a search finds** — parts without wildcards lead a search on from directory to
  directory (`below_literals`), and a search that begins with `**` finds what can be
  listed, name after name, and whose last name matches (`mem_below_dirs`).

  The search goes by fuel.  It takes two of it for each name, and no way down is longer
  than the tree has entries (`length_le_toList`), so that what it is given is enough.
-/

namespace GrammarBuild

namespace FileTree

/-! ### Walks down -/

theorem node?_of_walk_cons {t : FileTree} {l m : Location} {name : String} {rest : List String}
    (plain : PlainName name) (h : t.walk l (name :: rest) = .ok m) :
    t.isDirAt l = true ∧ (t.node? (l ++ [name])).isSome = true ∧ t.walk (l ++ [name]) rest = .ok m := by
  rw [walk_cons] at h
  cases hs : t.stepFrom l name with
  | error f =>
    rw [hs] at h
    cases h
  | ok k =>
    rw [hs] at h
    obtain ⟨hk, hdir, hnode⟩ := stepFrom_ok hs
    have hto : stepTo l name = l ++ [name] := by simp [stepTo, plain.notHere, plain.notUp]
    rw [hto] at hk
    subst hk
    exact ⟨hdir, (hnode plain.notHere plain.notUp).2, h⟩

/-- A walk down is no longer than the tree has entries. -/
theorem length_le_toList {t : FileTree} {l m : Location} {names : List String}
    (plain : ∀ name ∈ names, PlainName name) (h : t.walk l names = .ok m) :
    names.length ≤ t.toList.length := by
  have hdepth : names.length ≤ (listBranches (t.subtree l).branches).length := by
    induction names generalizing l with
    | nil => exact Nat.zero_le _
    | cons name names ih =>
      obtain ⟨-, hnode, hrest⟩ := node?_of_walk_cons (plain name List.mem_cons_self) h
      have hsub : t.subtree (l ++ [name]) = (t.subtree l).branch name := subtree_append t l [name]
      have hne : l ++ [name] ≠ [] := by simp
      rw [node?, if_neg hne, hsub] at hnode
      have hlength := ih (fun n hn => plain n (List.mem_cons_of_mem name hn)) hrest
      have hbranch := length_listBranches_branch (t.subtree l) name
      obtain ⟨n, hn⟩ := Option.isSome_iff_exists.1 hnode
      have hone : (some n).toList.length = 1 := rfl
      rw [hsub] at hlength
      rw [hn, hone] at hbranch
      rw [List.length_cons]
      omega
  exact hdepth.trans (t.length_listBranches_subtree l)

end FileTree

namespace Glob

open FileTree

variable {t : FileTree} {cwd : Location} {p : Path}

/-! ### Parts that stand for themselves -/

theorem pathExists_of_isDir (h : t.isDir cwd p = true) : t.pathExists cwd p = true := by
  unfold isDir at h
  unfold pathExists
  cases ha : t.at? cwd p with
  | none => simp [ha] at h
  | some n => rfl

/-- From a directory to a directory by a part without wildcards. -/
theorem below_literal {part : List Char} {ps : List Pattern} (hps : ps ≠ []) (fuel : Nat)
    (here : t.isDir cwd p = true) (there : t.isDir cwd (next p (String.ofList part)) = true) :
    below t cwd (fuel + 2) (Pattern.ofChars part :: ps) (found t cwd p) =
      below t cwd fuel ps (found t cwd (next p (String.ofList part))) := by
  obtain ⟨p', ps', rfl⟩ := List.exists_cons_of_ne_nil hps
  have hfound : (found t cwd p).isDir = true := here
  have hthere : t.pathExists cwd (found t cwd (next p (String.ofList part))).path = true :=
    pathExists_of_isDir there
  have hpath : (found t cwd p).path = p := rfl
  rw [below, Pattern.literal?_ofChars]
  simp only [hpath, hfound, hthere, ite_self, if_true]
  rw [past]
  exact List.cons_ne_nil _ _

/-- A name that leads to nothing leads no further. -/
theorem below_missing {part : List Char} {ps : List Pattern} (hdot : String.ofList part ≠ ".")
    (hup : String.ofList part ≠ "..") (missing : t.pathExists cwd (next p (String.ofList part)) = false)
    (fuel : Nat) : below t cwd fuel (Pattern.ofChars part :: ps) (found t cwd p) = [] := by
  have hpath (p : Path) : (found t cwd p).path = p := rfl
  cases fuel with
  | zero => rw [below]
  | succ fuel =>
    rw [below, Pattern.literal?_ofChars]
    simp [hdot, hup, hpath, missing]

/-- Parts without wildcards lead to where their texts lead, if all on the way are
    directories. -/
theorem below_literals {parts : List (List Char)} {ps : List Pattern} (hps : ps ≠ []) (fuel : Nat)
    (dirs : ∀ front, front <+: parts → t.isDir cwd ((front.map String.ofList).foldl next p) = true) :
    below t cwd (fuel + 2 * parts.length) (parts.map Pattern.ofChars ++ ps) (found t cwd p) =
      below t cwd fuel ps (found t cwd ((parts.map String.ofList).foldl next p)) := by
  induction parts generalizing p with
  | nil => rfl
  | cons part parts ih =>
    have hfuel : fuel + 2 * (part :: parts).length = fuel + 2 * parts.length + 2 := by
      rw [List.length_cons]
      omega
    have hrest : parts.map Pattern.ofChars ++ ps ≠ [] := by simp [hps]
    have here : t.isDir cwd p = true := dirs [] List.nil_prefix
    have there : t.isDir cwd (next p (String.ofList part)) = true :=
      dirs [part] (List.cons_prefix_cons.2 ⟨rfl, List.nil_prefix⟩)
    rw [hfuel, List.map_cons, List.cons_append, below_literal hrest _ here there, List.map_cons,
      List.foldl_cons]
    exact ih fun front hfront => dirs (part :: front) (List.cons_prefix_cons.2 ⟨rfl, hfront⟩)

/-! ### Any number of directories -/

/-- One name after the other is in the directory that those before it lead to. -/
def Listed (t : FileTree) (cwd : Location) : Path → List String → Prop
  | _, [] => True
  | p, name :: names =>
    t.isDir cwd p = true ∧ name ∈ t.names (p.locate cwd) ∧ Listed t cwd (next p name) names

/-- A path whose last name matches. -/
def NameMatches (q : Pattern) (p : Path) : Prop :=
  ∃ name, p.fileName? = some name ∧ q.matchesName name = true

variable {q : Pattern} {x : Found} {fuel : Nat}

theorem mem_named : x ∈ named t cwd fuel [q] (found t cwd p) ↔
    x = found t cwd p ∧ NameMatches q p ∧ 2 ≤ fuel := by
  match fuel with
  | 0 => simp [named]
  | 1 =>
    have hpast : past t cwd 0 [] (found t cwd p) = [] := rfl
    rw [named, hpast]
    cases (found t cwd p).path.fileName? with
    | none => simp
    | some name => simp
  | fuel + 2 =>
    have hpast : past t cwd (fuel + 1) [] (found t cwd p) = [found t cwd p] := by
      rw [past]
      exact Nat.succ_ne_zero fuel
    have hpath : (found t cwd p).path = p := rfl
    rw [named, hpast, hpath, NameMatches]
    cases p.fileName? with
    | none => simp
    | some name => simp [and_comm]

theorem mem_candidate (hq : q.isDirs = false) :
    x ∈ candidate t cwd (fuel + 1) [[.anyDirs], q] (found t cwd p) ↔
      x ∈ named t cwd fuel [q] (found t cwd p) ∨
        t.isDir cwd p = true ∧ x ∈ below t cwd fuel [[.anyDirs], q] (found t cwd p) := by
  have hdirs : Pattern.isDirs [.anyDirs] = true := rfl
  have hrest : [q].dropWhile Pattern.isDirs = [q] := by simp [hq]
  have hdir : (found t cwd p).isDir = t.isDir cwd p := rfl
  rw [candidate, hdirs, if_pos rfl, hrest, hdir]
  cases t.isDir cwd p with
  | false => simp
  | true => simp

theorem children_eq (h : t.isDir cwd p = true) :
    children t cwd p = (t.names (p.locate cwd)).map fun n => found t cwd (next p n) := by
  have hthere := pathExists_of_isDir h
  unfold pathExists at? at hthere
  unfold children
  cases hr : t.resolve cwd p with
  | error f => simp [hr] at hthere
  | ok l => rw [resolve_ok hr]

theorem mem_below_step :
    x ∈ below t cwd (fuel + 1) [[.anyDirs], q] (found t cwd p) ↔
      t.isDir cwd p = true ∧ ∃ name ∈ t.names (p.locate cwd),
        x ∈ candidate t cwd fuel [[.anyDirs], q] (found t cwd (next p name)) := by
  have hliteral : Pattern.literal? [.anyDirs] = none := rfl
  have hspecial : specialNames [.anyDirs] = [] := rfl
  have hdir : (found t cwd p).isDir = t.isDir cwd p := rfl
  have hpath : (found t cwd p).path = p := rfl
  rw [below, hliteral, hspecial, hdir, hpath]
  simp only [List.flatMap_nil, List.nil_append]
  cases hp : t.isDir cwd p with
  | false => simp
  | true => simp [children_eq hp]

/-- A search for any number of directories and then a name finds what can be listed and
    whose last name matches. -/
theorem mem_below_dirs (hq : q.isDirs = false) :
    x ∈ below t cwd fuel [[.anyDirs], q] (found t cwd p) ↔
      ∃ names, names ≠ [] ∧ Listed t cwd p names ∧ x = found t cwd (names.foldl next p) ∧
        NameMatches q (names.foldl next p) ∧ 2 * names.length + 2 ≤ fuel := by
  induction fuel using Nat.strong_induction_on generalizing p with
  | _ fuel ih =>
    match fuel with
    | 0 => simp [below]
    | 1 =>
      rw [mem_below_step]
      simp only [candidate, List.not_mem_nil, and_false, exists_false, false_iff]
      rintro ⟨names, -, -, -, -, hfuel⟩
      omega
    | fuel + 2 =>
      rw [mem_below_step]
      constructor
      · rintro ⟨hdir, name, hname, hx⟩
        rw [mem_candidate hq, mem_named, ih fuel (by omega)] at hx
        rcases hx with ⟨rfl, hmatch, hfuel⟩ | ⟨-, names, hne, hlisted, rfl, hmatch, hfuel⟩
        · refine ⟨[name], by simp, ⟨hdir, hname, trivial⟩, rfl, hmatch, ?_⟩
          rw [List.length_singleton]
          omega
        · refine ⟨name :: names, by simp, ⟨hdir, hname, hlisted⟩, rfl, hmatch, ?_⟩
          rw [List.length_cons]
          omega
      · rintro ⟨names, hne, hlisted, rfl, hmatch, hfuel⟩
        cases names with
        | nil => exact absurd rfl hne
        | cons name names =>
          obtain ⟨hdir, hname, hlisted⟩ := hlisted
          rw [List.length_cons] at hfuel
          refine ⟨hdir, name, hname, ?_⟩
          rw [mem_candidate hq, mem_named, ih fuel (by omega)]
          cases names with
          | nil => exact .inl ⟨rfl, hmatch, by simpa using hfuel⟩
          | cons other names =>
            exact .inr ⟨hlisted.1, other :: names, by simp, hlisted, rfl, hmatch, by omega⟩

/-! ### Parts that no name matches -/

/-- A part with wildcards leads no further if no name in the directory matches it. -/
theorem below_eq_nil {ps : List Pattern} (hliteral : q.literal? = none) (hdirs : q.isDirs = false)
    (hspecial : specialNames q = [])
    (unmatched : ∀ name ∈ t.names (p.locate cwd), PlainName name ∧ q.matchesName name = false)
    (fuel : Nat) : below t cwd fuel (q :: ps) (found t cwd p) = [] := by
  have hdir : (found t cwd p).isDir = t.isDir cwd p := rfl
  have hpath (p : Path) : (found t cwd p).path = p := rfl
  have hnamed (name : String) (hname : name ∈ t.names (p.locate cwd)) (fuel : Nat) :
      named t cwd fuel (q :: ps) (found t cwd (next p name)) = [] := by
    obtain ⟨plain, hmatch⟩ := unmatched name hname
    cases fuel with
    | zero => rw [named]
    | succ fuel =>
      rw [named, hpath, fileName?_next plain]
      simp [hmatch]
  have hcandidate (name : String) (hname : name ∈ t.names (p.locate cwd)) (fuel : Nat) :
      candidate t cwd fuel (q :: ps) (found t cwd (next p name)) = [] := by
    cases fuel with
    | zero => rw [candidate]
    | succ fuel =>
      rw [candidate, hdirs]
      exact hnamed name hname fuel
  cases fuel with
  | zero => rw [below]
  | succ fuel =>
    rw [below, hliteral, hspecial, hdir, hpath]
    simp only [List.flatMap_nil, List.nil_append]
    cases hp : t.isDir cwd p with
    | false => rfl
    | true =>
      rw [if_pos rfl, children_eq hp, List.flatMap_map, List.flatMap_eq_nil_iff]
      exact fun name hname => hcandidate name hname fuel

end Glob

end GrammarBuild
