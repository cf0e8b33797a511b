import GrammarBuild.Proofs.CacheEncoding
import GrammarBuild.Proofs.Elsewhere
import GrammarBuild.Proofs.Precedence
import GrammarBuild.Proofs.StoredCompilers
import GrammarBuild.Proofs.WrittenFiles
import GrammarBuild.Proofs.WrittenTexts

/-
  GrammarBuild/Proofs/SettingsOnDisk.lean
  =======================================
  **Compiler overrides on disk** — settings that were saved are loaded as they were,
  whatever texts they hold.
-/

namespace GrammarBuild

open Toml

namespace ToolchainSettings

/-! ### What is written is read -/

/-- The lines of written settings. -/
def writtenLines (s : ToolchainSettings) : List PlainLine :=
  .table "toolchain" ::
    (s.cc.toList.map (fun p => .pair "cc" (.ofText p.text)) ++
      [.pair "cflags" (.ofTexts s.cflags), .pair "ldflags" (.ofTexts s.ldflags)])

theorem chars_pair {label k : String} (h : label.toList = k.toList ++ [' ', '=', ' '])
    {written feed : String} {v : PlainValue} (hv : v.chars = written.toList)
    (hfeed : feed.toList = ['\n']) : (label ++ written ++ feed).toList = (PlainLine.pair k v).chars := by
  simp [h, hv, hfeed, PlainLine.chars]

theorem toList_write (s : ToolchainSettings) : s.write.toList = PlainLine.document s.writtenLines := by
  have hlines (table cc cflags a ldflags b feed : String) :
      (table ++ cc ++ cflags ++ a ++ feed ++ ldflags ++ b ++ feed).toList = table.toList ++
        (cc.toList ++ ((cflags ++ a ++ feed).toList ++ (ldflags ++ b ++ feed).toList)) := by
    simp only [String.toList_append, List.append_assoc]
  have hcc (p : Path) : ("cc = " ++ Toml.write p.text ++ "\n").toList =
      (PlainLine.pair "cc" (.ofText p.text)).chars :=
    chars_pair rfl rfl rfl
  have hflags (k : String) (label : String) (h : label.toList = k.toList ++ [' ', '=', ' '])
      (ts : List String) : (label ++ writeList ts ++ "\n").toList =
        (PlainLine.pair k (.ofTexts ts)).chars :=
    chars_pair h rfl rfl
  refine (hlines _ _ _ _ _ _ _).trans ?_
  rw [hflags "cflags" "cflags = " rfl, hflags "ldflags" "ldflags = " rfl, writtenLines,
    PlainLine.document, List.flatMap_cons, List.flatMap_append, List.flatMap_cons,
    List.flatMap_cons, List.flatMap_nil, List.append_nil]
  cases s.cc with
  | none => rfl
  | some p =>
    rw [Option.toList_some, List.map_cons, List.map_nil, List.flatMap_cons, List.flatMap_nil,
      List.append_nil, ← hcc p]
    rfl

theorem readable_writtenLines (s : ToolchainSettings) : ∀ l ∈ s.writtenLines, l.Readable := by
  intro l hl
  rcases List.mem_cons.1 hl with rfl | hl
  · exact (by decide : BareKey "toolchain")
  rcases List.mem_append.1 hl with hl | hl
  · obtain ⟨p, -, rfl⟩ := List.mem_map.1 hl
    exact ⟨by decide, trivial⟩
  · simp only [List.mem_cons, List.not_mem_nil, or_false] at hl
    rcases hl with rfl | rfl
    · exact ⟨by decide, trivial⟩
    · exact ⟨by decide, trivial⟩

/-- The entries that written settings spell. -/
def writtenEntries (s : ToolchainSettings) : Entries :=
  s.cc.toList.map (fun p => ("cc", .string p.text)) ++
    [("cflags", .array (s.cflags.map .string)), ("ldflags", .array (s.ldflags.map .string))]

theorem read?_write (s : ToolchainSettings) :
    Toml.read? s.write = some [("toolchain", .table .header s.writtenEntries)] := by
  rw [PlainLine.read?_of_toList s.toList_write s.readable_writtenLines]
  obtain ⟨cc, cflags, ldflags⟩ := s
  cases cc with
  | none => rfl
  | some p => rfl

theorem texts_strings (ts : List String) : Decoder.texts (.array (ts.map .string)) = .ok ts := by
  rw [Decoder.texts, Decoder.list]
  induction ts with
  | nil => rfl
  | cons t ts ih =>
    rw [List.map_cons, List.mapM_cons, ih]
    rfl

theorem collect_found {σ : Type} {fields : List (Decoder.RecordField σ)} {k : String} {v : Value}
    {f : Decoder.RecordField σ} (hf : fields.find? (fun f => f.name == k) = some f) {s s' : σ}
    (hv : f.read v s = .ok s') (es : Entries) :
    Decoder.collect fields s ((k, v) :: es) = Decoder.collect fields s' es := by
  rw [Decoder.collect_cons, hf]
  simp only [hv]
  rfl

theorem decode_writtenEntries (s : ToolchainSettings) :
    decode (.table .header s.writtenEntries) = .ok s := by
  obtain ⟨cc, cflags, ldflags⟩ := s
  -- what the two lists add to settings that have the compiler already
  have hlists : Decoder.collect fields { cc := cc } [("cflags", .array (cflags.map .string)),
      ("ldflags", .array (ldflags.map .string))] = .ok ⟨cc, cflags, ldflags⟩ := by
    have hflags {keep : List String → ToolchainSettings → ToolchainSettings} (name : String)
        (ts : List String) (s : ToolchainSettings) :
        (Decoder.field name Decoder.texts keep).read (.array (ts.map .string)) s = .ok (keep ts s) := by
      show (Decoder.texts _).map _ = _
      rw [texts_strings]
      rfl
    rw [collect_found rfl (hflags "cflags" cflags _), collect_found rfl (hflags "ldflags" ldflags _)]
    rfl
  cases cc with
  | none => exact hlists
  | some p =>
    have hcc : (Decoder.field "cc" (fun v => (Decoder.text "path string" v).map Path.mk)
        fun x (s : ToolchainSettings) => { s with cc := some x }).read (.string p.text) {} =
        .ok { cc := some p } := rfl
    exact (collect_found (k := "cc") rfl hcc _).trans hlists

/-- **Settings are read as they were written**, whatever their texts hold. -/
theorem read_write (s : ToolchainSettings) : read s.write = .ok s := by
  have hcollect : Decoder.collect [Decoder.field "toolchain" decode fun x _ => x] {}
      [("toolchain", .table .header s.writtenEntries)] = .ok s := by
    refine (collect_found rfl ?_ []).trans rfl
    show (decode (.table .header s.writtenEntries)).map _ = _
    rw [decode_writtenEntries]
    rfl
  unfold read
  rw [read?_write]
  show (Decoder.collect _ _ _).mapError _ = _
  rw [hcollect]
  rfl

/-! ### What is saved is loaded -/

variable {env : Environment} {h h' : Host} {p : Path} {s : ToolchainSettings}

theorem runOn_load_of_readText (read : h.files.readText env.cwd p = .ok s.write) :
    (load p).runOn env h = (.ok s, h) := by
  unfold load
  rw [Action.runOn_bind, Action.runOn_within, Action.runOn_readText, read]
  simp only [Failure.lift, Failure.within, Except.mapError, Action.runOn_within,
    Action.runOn_ofExcept, read_write]

theorem runOn_load_of_save (saved : (s.save p).runOn env h = (.ok (), h')) :
    (load p).runOn env h' = (.ok s, h') :=
  runOn_load_of_readText (Action.readText_of_writeString saved)

/-- Settings can only be loaded from a file. -/
theorem readFile_of_load (loaded : (load p).runOn env h = (.ok s, h')) :
    ∃ bytes, h.files.readFile env.cwd p = .ok bytes := by
  unfold load at loaded
  obtain ⟨text, h₁, hread, -⟩ := Action.runOn_bind_ok loaded
  replace hread := Action.runOn_within_ok.1 hread
  rw [Action.runOn_readText] at hread
  cases htext : h.files.readText env.cwd p with
  | error f =>
    rw [htext] at hread
    cases hread
  | ok t => exact FileTree.readFile_of_readText htext

end ToolchainSettings

/-! ### Overrides -/

/-- Each option that is given replaces the old value, the compiler in the form in which it
    is kept, and each other option keeps it. -/
structure ToolchainSettings.Override (keep : Path → Path) (old given new : ToolchainSettings) :
    Prop where
  cc : ∀ cc, given.cc = some cc → new.cc = some (keep cc)
  oldCC : given.cc = none → new.cc = old.cc
  cflags : given.cflags ≠ [] → new.cflags = given.cflags
  oldCflags : given.cflags = [] → new.cflags = old.cflags
  ldflags : given.ldflags ≠ [] → new.ldflags = given.ldflags
  oldLdflags : given.ldflags = [] → new.ldflags = old.ldflags

theorem ToolchainSettings.override_merge (keep : Path → Path) (old given : ToolchainSettings) :
    Override keep old given (old.merge { given with cc := given.cc.map keep }) where
  cc cc hcc := by
    rw [merge, hcc]
    rfl
  oldCC hcc := by
    rw [merge, hcc]
    rfl
  cflags h := by
    show (if given.cflags.isEmpty then old.cflags else given.cflags) = given.cflags
    rw [if_neg (by simpa using h)]
  oldCflags h := by
    rw [merge, h]
    rfl
  ldflags h := by
    show (if given.ldflags.isEmpty then old.ldflags else given.ldflags) = given.ldflags
    rw [if_neg (by simpa using h)]
  oldLdflags h := by
    rw [merge, h]
    rfl

theorem ToolchainSettings.eq_empty {s : ToolchainSettings} (h : s.hasOverrides = false) : s = {} := by
  obtain ⟨cc, cflags, ldflags⟩ := s
  simp only [hasOverrides, Bool.or_eq_false_iff, Option.isSome_eq_false_iff, Option.isNone_iff_eq_none,
    Bool.not_eq_false', List.isEmpty_iff] at h
  obtain ⟨⟨rfl, rfl⟩, rfl⟩ := h
  rfl

theorem ToolchainSettings.hasOverrides_merge (s t : ToolchainSettings) :
    (s.merge t).hasOverrides = (s.hasOverrides || t.hasOverrides) := by
  obtain ⟨cc, cflags, ldflags⟩ := s
  obtain ⟨cc', cflags', ldflags'⟩ := t
  cases cc <;> cases cc' <;> cases cflags <;> cases cflags' <;> cases ldflags <;> cases ldflags' <;> rfl

namespace CommandLine

open FileTree

variable {c : Caller} {env : Environment} {h h' : Host} {w : Workspace}
  {old given : ToolchainSettings}

/-- The form in which a compiler is kept. -/
def keptForm (c : Caller) (root : Path) (env : Environment) (h : Host) (cc : Path) : Path :=
  if cc.hasDirectory then storedForm root (compilerMeant h.files env.cwd c cc) else cc

/-- Settings that are given, the compiler as it is kept. -/
def kept (c : Caller) (root : Path) (env : Environment) (h : Host) (given : ToolchainSettings) :
    ToolchainSettings :=
  { given with cc := given.cc.map (keptForm c root env h) }

/-- An override merges what is given into the settings that are there, and saves that. -/
theorem runOn_override (project : (c.findManifest >>= Workspace.load).runOn env h = (.ok w, h))
    (settings : (ToolchainSettings.load w.toolchainConfigPath).runOn env h = (.ok old, h)) :
    (runOverrideToolchain c given).runOn env h =
      if (old.merge (kept c w.root env h given)).hasOverrides then
        ((old.merge (kept c w.root env h given)).save w.toolchainConfigPath >>= fun _ =>
          status ("       Wrote " ++ w.toolchainConfigPath.text)).runOn env h
      else (.error (.of .nothingToOverride), h) := by
  obtain ⟨bytes, hread⟩ := ToolchainSettings.readFile_of_load settings
  have hthere := pathExists_of_readFile hread
  have hcc : (given.cc.mapM (storedCompiler c w.root)).runOn env h =
      (.ok (kept c w.root env h given).cc, h) := by
    unfold kept
    cases given.cc with
    | none => rfl
    | some cc =>
      rw [Option.mapM_some, map_eq_pure_bind, Action.runOn_bind, runOn_storedCompiler]
      rfl
  unfold runOverrideToolchain
  rw [← bind_assoc, Action.runOn_bind, project]
  simp only [Action.runOn_bind, Action.runOn_pathExists, hthere, if_true, settings, hcc]
  change (if (!(old.merge (kept c w.root env h given)).hasOverrides) = true then _ else _ :
    Action Unit).runOn env h = _
  rw [Action.runOn_ite]
  cases (old.merge (kept c w.root env h given)).hasOverrides with
  | true => exact Action.runOn_bind _ _ _ _
  | false => rfl

/-- **Settings are loaded as they were saved.**  Where any text can be written, any
    settings are saved, and the next load gives just these.  So settings that are there and
    can be written are loaded after an override as they were with the options replaced that
    it gives.  Such an override only fails where no option is set before it nor given by it. -/
theorem settings_survive_disk (env : Environment) (h : Host) :
    (∀ p text h', (Action.writeString p text).runOn env h = (.ok (), h') →
      ∀ s : ToolchainSettings, ∃ saved, (s.save p).runOn env h = (.ok (), saved) ∧
        (ToolchainSettings.load p).runOn env saved = (.ok s, saved)) ∧
    ∀ (c : Caller) (w : Workspace) (old given : ToolchainSettings),
      (c.findManifest >>= Workspace.load).runOn env h = (.ok w, h) →
      (ToolchainSettings.load w.toolchainConfigPath).runOn env h = (.ok old, h) →
      env.refuses (w.toolchainConfigPath.locate env.cwd) = none →
      ∃ r after keep new, (runOverrideToolchain c given).runOn env h = (r, after) ∧
        (ToolchainSettings.load w.toolchainConfigPath).runOn env after = (.ok new, after) ∧
        (∀ cc, (storedCompiler c w.root cc).runOn env h = (.ok (keep cc), h)) ∧
        ToolchainSettings.Override keep old given new ∧
        (r = .ok () ∨ r = .error (.of .nothingToOverride) ∧ after = h ∧ new = {}) := by
  constructor
  · intro p text h' ok s
    obtain ⟨saved, hsave⟩ := Action.runOn_writeString_any ok s.write
    exact ⟨saved, hsave, ToolchainSettings.runOn_load_of_save hsave⟩
  · intro c w old given project settings taken
    have hrun := @runOn_override c env h w old given project settings
    have hkeep := fun cc => runOn_storedCompiler c w.root cc env h
    have hnew := ToolchainSettings.override_merge (keptForm c w.root env h) old given
    cases hset : (old.merge (kept c w.root env h given)).hasOverrides with
    | true =>
      obtain ⟨bytes, hread⟩ := ToolchainSettings.readFile_of_load settings
      have hname : PlainName "toolchain.toml" := by constructor <;> decide
      obtain ⟨saved, hsave⟩ := Action.runOn_writeString_of_readFile hname hread taken
        (old.merge (kept c w.root env h given)).write
      have htext := Action.readText_of_writeString hsave
      rw [hset, if_pos rfl, Action.runOn_bind, ToolchainSettings.save, show
        (Action.writeString w.toolchainConfigPath _).runOn env h = (.ok (), saved) from hsave] at hrun
      exact ⟨_, _, _, _, hrun, ToolchainSettings.runOn_load_of_readText htext, hkeep, hnew, .inl rfl⟩
    | false =>
      have hboth := hset
      rw [ToolchainSettings.hasOverrides_merge, Bool.or_eq_false_iff] at hboth
      have hold := ToolchainSettings.eq_empty hboth.1
      have hempty := ToolchainSettings.eq_empty hset
      rw [hset, if_neg Bool.false_ne_true] at hrun
      refine ⟨_, h, _, _, hrun, ?_, hkeep, hnew, .inr ⟨rfl, rfl, hempty⟩⟩
      rw [settings]
      exact congrArg (fun s => (Except.ok s, h)) (hold.trans hempty.symm)

end CommandLine

namespace Sample

/-- Options with quotes and line ends in them. -/
def settings : ToolchainSettings where
  cflags := ["", "-DQUOTE='\"\\'", "-DLINES=a\r\nb"]
  ldflags := ["'''\n"]

/-- A project with these options as its overrides. -/
def overridden : Host where
  files := (unfinished.set ["p", ".october"] .dir).set ["p", ".october", "toolchain.toml"]
    (.file settings.write.toUTF8 false)

theorem load_workspace {l : Location} {h : Host} (near : NearestManifest h.files ⟨"/p"⟩ ⟨l.text⟩)
    (read : h.files.readFile l ⟨"/p/October.toml"⟩ = .ok manifestText.toUTF8) :
    ((environmentAt l).caller.findManifest >>= Workspace.load).runOn (environmentAt l) h =
      (.ok { manifest }, h) := by
  have hnear : NearestManifest h.files ⟨"/p"⟩ ⟨(environmentAt l).cwd.text⟩ := near
  obtain ⟨hfind, -⟩ := hnear.runOn_findManifest
  have hload : ((Manifest.load ⟨"/p/October.toml"⟩).runOn (environmentAt l) h).1 = .ok manifest :=
    congrArg Prod.fst (load_manifest read)
  have hchild : (⟨"/p"⟩ : Path).child Manifest.fileName = ⟨"/p/October.toml"⟩ := by decide
  rw [Action.runOn_bind, hfind, hchild]
  exact Workspace.runOn_load hload

end Sample

/-- An override of the compiler and of one list leaves the other list as it was, with its
    quotes and line ends. -/
theorem CommandLine.settings_survive_disk_quoted :
    (∃ saved, (Sample.settings.save ⟨"/t.toml"⟩).runOn (Sample.environmentAt ["p"]) Sample.overridden =
        (.ok (), saved) ∧
      (ToolchainSettings.load ⟨"/t.toml"⟩).runOn (Sample.environmentAt ["p"]) saved =
        (.ok Sample.settings, saved)) ∧
    ∃ after, (runOverrideToolchain (Sample.environmentAt ["p"]).caller
        { cc := some ⟨"clang"⟩, ldflags := ["-lm"] }).runOn (Sample.environmentAt ["p"])
          Sample.overridden = (.ok (), after) ∧
      (ToolchainSettings.load ⟨"/p/.october/toolchain.toml"⟩).runOn (Sample.environmentAt ["p"]) after =
        (.ok { Sample.settings with cc := some ⟨"clang"⟩, ldflags := ["-lm"] }, after) := by
  have hpath : ({ manifest := Sample.manifest } : Workspace).toolchainConfigPath =
      ⟨"/p/.october/toolchain.toml"⟩ :=
    show ((⟨"/p"⟩ : Path).child ".october").child "toolchain.toml" = _ by decide
  have hproject := Sample.load_workspace (l := ["p"]) (h := Sample.overridden) (Sample.near_root rfl) rfl
  have hload : (ToolchainSettings.load ⟨"/p/.october/toolchain.toml"⟩).runOn
      (Sample.environmentAt ["p"]) Sample.overridden = (.ok Sample.settings, Sample.overridden) :=
    ToolchainSettings.runOn_load_of_readText (FileTree.readText_of_readFile rfl)
  obtain ⟨hsaved, hoverride⟩ :=
    settings_survive_disk (Sample.environmentAt ["p"]) Sample.overridden
  refine ⟨hsaved ⟨"/t.toml"⟩ "" _ rfl Sample.settings, ?_⟩
  obtain ⟨r, after, keep, new, hrun, hnew, hkeep, hover, hr⟩ := hoverride _ _ Sample.settings
    { cc := some ⟨"clang"⟩, ldflags := ["-lm"] } hproject (hpath ▸ hload) rfl
  have hclang : keep ⟨"clang"⟩ = ⟨"clang"⟩ := by
    have hbare : (⟨"clang"⟩ : Path).hasDirectory = false := by decide
    have hstored := hkeep ⟨"clang"⟩
    rw [runOn_storedCompiler, hbare, Prod.mk.injEq, Except.ok.injEq] at hstored
    exact hstored.1.symm
  have hcc := hover.cc ⟨"clang"⟩ rfl
  have hcflags := hover.oldCflags rfl
  have hldflags := hover.ldflags (List.cons_ne_nil _ _)
  rcases hr with rfl | ⟨-, -, rfl⟩
  · obtain ⟨cc, cflags, ldflags⟩ := new
    cases hcc
    cases hcflags
    cases hldflags
    rw [hclang, hpath] at hnew
    exact ⟨after, hrun, hnew⟩
  · cases hcc

end GrammarBuild
