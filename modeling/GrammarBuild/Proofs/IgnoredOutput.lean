import GrammarBuild.Proofs.WholeLines
import GrammarBuild.Proofs.WrittenFiles

/-
  GrammarBuild/Proofs/IgnoredOutput.lean
  ======================================
  **The entry in `.gitignore`** — a text gets it at its end if none of its lines is the entry
  already, and loses nothing (`Gitignore.extends_withEntry`).  What is added begins on a line
  of its own, however the text ends, so that the entry is found the next time and the file is
  left alone from then on (`ignored_once`).
-/

namespace GrammarBuild

namespace Gitignore

open Text

/-! ### The entry among the lines -/

/-- A line is the entry: one of its two spellings, with nothing but blanks around it. -/
def Entry (l : List Char) : Prop :=
  ∃ name ∈ [".october/", ".october"], ∃ before after : List Char,
    l = before ++ (name.toList ++ after) ∧ (∀ c ∈ before, isBlank c = true) ∧
      ∀ c ∈ after, isBlank c = true

/-- A text one line of which is the entry. -/
def HasEntry (text : String) : Prop := ∃ l, WholeLine text.toList l ∧ Entry l

theorem entry_iff (l : List Char) :
    Entry l ↔ trimChars l = ".october/".toList ∨ trimChars l = ".october".toList := by
  have hslash := @trimChars_eq_iff l ".october/".toList rfl rfl
  have hplain := @trimChars_eq_iff l ".october".toList rfl rfl
  rw [hslash, hplain, Entry]
  simp only [List.mem_cons, List.not_mem_nil, or_false, exists_eq_or_imp, exists_eq_left]

theorem isEntry_ofList_iff (l : List Char) : isEntry (String.ofList l) = true ↔ Entry l := by
  have hname (name : String) : (trim (String.ofList l) == name) = true ↔ trimChars l = name.toList := by
    rw [beq_iff_eq, trim, String.toList_ofList]
    constructor
    · intro h
      rw [← h, String.toList_ofList]
    · intro h
      rw [h, String.ofList_toList]
  rw [isEntry, Bool.or_eq_true, hname, hname, entry_iff]

theorem any_isEntry_iff (text : String) : (lines text).any isEntry = true ↔ HasEntry text := by
  have hreturn (l : List Char) : Entry (dropReturn l) ↔ Entry l := by
    rw [entry_iff, entry_iff, trimChars_dropReturn]
  rw [HasEntry, ← exists_linesOf_iff hreturn, lines, List.any_map, List.any_eq_true]
  simp only [Function.comp_apply, isEntry_ofList_iff]

theorem not_hasEntry_empty : ¬ HasEntry "" := (any_isEntry_iff "").not.1 (by decide)

theorem withEntry_of_hasEntry {text : String} (h : HasEntry text) : withEntry text = text := by
  rw [withEntry, (any_isEntry_iff text).2 h, if_pos rfl]

/-! ### What is added -/

theorem complete_cases (text : String) :
    (complete text = text ∧ Ended text.toList) ∨ complete text = text ++ "\n" := by
  unfold complete
  split
  · rename_i h
    refine .inl ⟨rfl, ?_⟩
    rw [Bool.or_eq_true] at h
    rcases h with h | h
    · rw [String.isEmpty_iff.1 h]
      exact .inl rfl
    · exact .inr (beq_iff_eq.1 h)
  · exact .inr rfl

theorem ended_complete (text : String) : Ended (complete text).toList := by
  rcases complete_cases text with ⟨h, ended⟩ | h
  · rw [h]
    exact ended
  · rw [h, String.toList_append]
    exact .inr List.getLast?_concat

theorem prefix_complete (text : String) : text.toList <+: (complete text).toList := by
  rcases complete_cases text with ⟨h, -⟩ | h
  · rw [h]
  · rw [h, String.toList_append]
    exact List.prefix_append _ _

theorem wholeLine_complete {text : String} {l : List Char} (h : WholeLine text.toList l) :
    WholeLine (complete text).toList l := by
  rcases complete_cases text with ⟨same, -⟩ | same
  · rw [same]
    exact h
  · rw [same, String.toList_append]
    exact h.feed

theorem hasEntry_addition : HasEntry addition := by
  refine ⟨".october/".toList, ?_, ".october/", List.mem_cons_self, [], [], rfl,
    List.forall_mem_nil _, List.forall_mem_nil _⟩
  have hlines : addition.toList =
      "# october-build output".toList ++ '\n' :: (".october/".toList ++ '\n' :: []) := rfl
  rw [hlines]
  exact .later (by decide) (.ended (by decide) [])

/-- A text has all of another one, and the entry with it. -/
structure Extends (old new : String) : Prop where
  hasEntry : HasEntry new
  grows : old.toList <+: new.toList
  lines : ∀ l, WholeLine old.toList l → WholeLine new.toList l
  same_iff : new = old ↔ HasEntry old

theorem extends_withEntry (text : String) : Extends text (withEntry text) := by
  by_cases h : HasEntry text
  · rw [withEntry_of_hasEntry h]
    exact ⟨h, List.prefix_refl _, fun _ line => line, iff_of_true rfl h⟩
  · have hadds : withEntry text = complete text ++ addition := by
      rw [withEntry, if_neg ((any_isEntry_iff text).not.2 h)]
    have hlines (l : List Char) : WholeLine (withEntry text).toList l ↔
        WholeLine (complete text).toList l ∨ WholeLine addition.toList l := by
      rw [hadds, String.toList_append, (ended_complete text).wholeLine_append_iff]
    obtain ⟨l, line, entry⟩ := hasEntry_addition
    have hasEntry : HasEntry (withEntry text) := ⟨l, (hlines l).2 (.inr line), entry⟩
    refine ⟨hasEntry, ?_, fun l line => (hlines l).2 (.inl (wholeLine_complete line)), ?_⟩
    · rw [hadds, String.toList_append]
      exact (prefix_complete text).trans (List.prefix_append _ _)
    · exact iff_of_false (fun same => h (same ▸ hasEntry)) h

end Gitignore

/-! ### The file -/

/-- The text of a file, which is empty if there is none. -/
inductive FileTree.HoldsText (t : FileTree) (cwd : Location) (p : Path) : String → Prop where
  | file {text : String} (read : t.readText cwd p = .ok text) : HoldsText t cwd p text
  | missing (h : t.node? (p.locate cwd) = none) : HoldsText t cwd p ""

/-- An action carried out so many times, one after the other. -/
def Action.times (x : Action Unit) : Nat → Action Unit
  | 0 => pure ()
  | n + 1 => do
    x
    x.times n

variable {dir : Path} {env : Environment} {h h' : Host}

/-- What changes nothing once changes nothing however often it is done. -/
theorem Action.runOn_times {x : Action Unit} (once : x.runOn env h = (.ok (), h)) (n : Nat) :
    (x.times n).runOn env h = (.ok (), h) := by
  induction n with
  | zero => rfl
  | succ n ih =>
    rw [times, runOn_bind, once]
    exact ih

theorem Gitignore.plainName : PlainName ".gitignore" := by constructor <;> decide

/-- What is read of the file, and nothing where none is found. -/
def Gitignore.found (t : FileTree) (cwd : Location) (dir : Path) : Except HostFault String :=
  if t.pathExists cwd (dir.child ".gitignore") then t.readText cwd (dir.child ".gitignore") else .ok ""

theorem Gitignore.found_of_readText {t : FileTree} {cwd : Location} {text : String}
    (read : t.readText cwd (dir.child ".gitignore") = .ok text) : found t cwd dir = .ok text := by
  obtain ⟨bytes, hbytes⟩ := FileTree.readFile_of_readText read
  rw [found, if_pos (FileTree.pathExists_of_readFile hbytes), read]

theorem Gitignore.found_cases {t : FileTree} {cwd : Location} {text : String}
    (found : Gitignore.found t cwd dir = .ok text) :
    t.readText cwd (dir.child ".gitignore") = .ok text ∨
      t.pathExists cwd (dir.child ".gitignore") = false ∧ text = "" := by
  unfold Gitignore.found at found
  split at found
  · exact .inl found
  · rename_i missing
    cases found
    exact .inr ⟨Bool.eq_false_iff.2 missing, rfl⟩

variable {text : String}

/-- Where the file has the entry nothing is done. -/
theorem ensureGitignore_of_hasEntry (found : Gitignore.found h.files env.cwd dir = .ok text)
    (has : Gitignore.HasEntry text) : (ensureGitignore dir).runOn env h = (.ok (), h) := by
  rw [Gitignore.found] at found
  rw [runOn_ensureGitignore, found]
  exact if_pos ((Gitignore.any_isEntry_iff text).2 has)

theorem ensureGitignore_of_not_hasEntry (found : Gitignore.found h.files env.cwd dir = .ok text)
    (has : ¬ Gitignore.HasEntry text) : (ensureGitignore dir).runOn env h =
      (Action.within (.writing (dir.child ".gitignore"))
        (Action.writeText (dir.child ".gitignore") (Gitignore.withEntry text))).runOn env h := by
  rw [Gitignore.found] at found
  rw [runOn_ensureGitignore, found]
  exact if_neg ((Gitignore.any_isEntry_iff text).not.2 has)

/-- A file that can be read gets the entry exactly if it has it or the host takes it. -/
theorem ensureGitignore_succeeds_iff
    (read : h.files.readText env.cwd (dir.child ".gitignore") = .ok text) :
    (∃ h', (ensureGitignore dir).runOn env h = (.ok (), h')) ↔
      Gitignore.HasEntry text ∨ env.refuses ((dir.child ".gitignore").locate env.cwd) = none := by
  have found := Gitignore.found_of_readText read
  by_cases has : Gitignore.HasEntry text
  · exact iff_of_true ⟨h, ensureGitignore_of_hasEntry found has⟩ (.inl has)
  · obtain ⟨bytes, hbytes⟩ := FileTree.readFile_of_readText read
    obtain ⟨u, hu⟩ := FileTree.writeFile_of_readFile Gitignore.plainName hbytes
      (Gitignore.withEntry text).toUTF8
    rw [ensureGitignore_of_not_hasEntry found has, or_iff_right has]
    constructor
    · rintro ⟨h', run⟩
      exact (Action.runOn_writeText_ok_iff.1 run).1
    · intro taken
      exact ⟨_, Action.runOn_writeText_ok_iff.2 ⟨taken, u, hu, rfl⟩⟩

theorem found_of_ensureGitignore (run : (ensureGitignore dir).runOn env h = (.ok (), h')) :
    ∃ text, Gitignore.found h.files env.cwd dir = .ok text := by
  rw [runOn_ensureGitignore] at run
  cases hfound : Gitignore.found h.files env.cwd dir with
  | ok text => exact ⟨text, rfl⟩
  | error f =>
    rw [Gitignore.found] at hfound
    rw [hfound] at run
    cases run

/-- Where the entry was made, the file holds its old text with the entry. -/
theorem ensureGitignore_ok (run : (ensureGitignore dir).runOn env h = (.ok (), h')) :
    ∃ old, h.files.HoldsText env.cwd (dir.child ".gitignore") old ∧
      h'.files.readText env.cwd (dir.child ".gitignore") = .ok (Gitignore.withEntry old) ∧
      (Gitignore.HasEntry old → h' = h) := by
  obtain ⟨old, found⟩ := found_of_ensureGitignore run
  refine ⟨old, ?_⟩
  by_cases has : Gitignore.HasEntry old
  · rw [ensureGitignore_of_hasEntry found has] at run
    cases run
    rcases Gitignore.found_cases found with read | ⟨-, rfl⟩
    · rw [Gitignore.withEntry_of_hasEntry has]
      exact ⟨.file read, read, fun _ => rfl⟩
    · exact absurd has Gitignore.not_hasEntry_empty
  · rw [ensureGitignore_of_not_hasEntry found has] at run
    obtain ⟨u, hu, rfl⟩ := Action.runOn_writeText_ok run
    refine ⟨?_, FileTree.readText_of_writeFile hu, fun h => absurd h has⟩
    rcases Gitignore.found_cases found with read | ⟨missing, rfl⟩
    · exact .file read
    · exact .missing (FileTree.node?_of_writeFile_new Gitignore.plainName hu missing)

/-- **What is built is ignored, and nothing that was ignored is lost.**  A `.gitignore` that
    can be read gets the entry, unless the host refuses to write it.  Wherever the entry is
    made, the file then has a line that is the entry; the old text stands at the start of the
    new one with all its lines whole, and the text is the same exactly if it had the entry
    before.  No other file changes, and however often the entry is made again nothing
    happens. -/
theorem ignored_once (dir : Path) (env : Environment) (h : Host) :
    (∀ text, h.files.readText env.cwd (dir.child ".gitignore") = .ok text →
      ((∃ h', (ensureGitignore dir).runOn env h = (.ok (), h')) ↔
        Gitignore.HasEntry text ∨ env.refuses ((dir.child ".gitignore").locate env.cwd) = none)) ∧
    ∀ h', (ensureGitignore dir).runOn env h = (.ok (), h') →
      ∃ old new, h.files.HoldsText env.cwd (dir.child ".gitignore") old ∧
        h'.files.readText env.cwd (dir.child ".gitignore") = .ok new ∧
        Gitignore.Extends old new ∧ (Gitignore.HasEntry old → h' = h) ∧
        (∀ l, l ≠ (dir.child ".gitignore").locate env.cwd → h'.files.node? l = h.files.node? l) ∧
        ∀ n, ((ensureGitignore dir).times n).runOn env h' = (.ok (), h') := by
  refine ⟨fun text read => ensureGitignore_succeeds_iff read, fun h' run => ?_⟩
  obtain ⟨old, before, after, same⟩ := ensureGitignore_ok run
  have extends_old := Gitignore.extends_withEntry old
  exact ⟨old, _, before, after, extends_old, same, (ensureGitignore_files run).2,
    Action.runOn_times
      (ensureGitignore_of_hasEntry (Gitignore.found_of_readText after) extends_old.hasEntry)⟩

namespace Sample

/-- Its lines end in different ways, and one begins as the entry does. -/
def unendedText : String := "*.o\r\n.octoberish\nnode_modules"

def endedText : String := unendedText ++ "\n# october-build output\n.october/\n"

/-- A project in which some files are ignored. -/
def ignoring (text : String) : FileTree :=
  ((∅ : FileTree).set ["p"] .dir).set ["p", ".gitignore"] (.file text.toUTF8 false)

theorem readText_ignoring (text : String) :
    (ignoring text).readText [] ⟨"/p/.gitignore"⟩ = .ok text :=
  FileTree.readText_of_readFile rfl

end Sample

/-- A `.gitignore` whose last line is not ended, and what becomes of it. -/
theorem ignored_once_unended :
    (ensureGitignore ⟨"/p"⟩).runOn default { files := Sample.ignoring Sample.unendedText } =
      (.ok (), { files := Sample.ignoring Sample.endedText }) ∧
      Gitignore.Extends Sample.unendedText Sample.endedText ∧
      ∀ n, ((ensureGitignore ⟨"/p"⟩).times n).runOn default
          { files := Sample.ignoring Sample.endedText } =
        (.ok (), { files := Sample.ignoring Sample.endedText }) := by
  have run : (ensureGitignore ⟨"/p"⟩).runOn default { files := Sample.ignoring Sample.unendedText } =
      (.ok (), { files := Sample.ignoring Sample.endedText }) := rfl
  obtain ⟨old, new, before, after, extended, -, -, again⟩ :=
    (ignored_once ⟨"/p"⟩ default _).2 _ run
  have hold : old = Sample.unendedText := by
    cases before with
    | file read => exact Except.ok.inj (read.symm.trans (Sample.readText_ignoring Sample.unendedText))
    | missing h => cases h
  have hnew : new = Sample.endedText :=
    Except.ok.inj (after.symm.trans (Sample.readText_ignoring Sample.endedText))
  rw [hold, hnew] at extended
  exact ⟨run, extended, again⟩

end GrammarBuild
