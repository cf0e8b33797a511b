import GrammarBuild.Proofs.Elsewhere
import GrammarBuild.Proofs.LetterCase

/-
  GrammarBuild/Proofs/CompilerChoice.lean
  =======================================
  **Which compiler is taken** — the candidates are a list, and the first one that leads to
  a program is taken (`runOn_detect`); those before it are skipped.  What becomes of it is
  told by its name and, where the name does not say enough, by what it answers when it is
  asked for its version (`FamilyOf`); a compiler called `cl` needs a linker (`LinkerFor`).

  That question is the only process that is started, and it is not put to a compiler whose
  name says that it is GCC (`detect_follows_priority`).
-/

namespace GrammarBuild

theorem Host.onlyTold_log (h : Host) (level : Level) (text : String) :
    h.OnlyTold { h with events := h.events ++ [.log level text] } :=
  ⟨rfl, Host.started_log h level text⟩

namespace Toolchain

open GrammarBuild.Action

variable {s : ToolchainSettings} {look : Search} {env : Environment} {t : FileTree} {h h' : Host}
  {cc : Path}

/-! ### The candidates -/

/-- What the usual names lead to. -/
def usualCandidates (look : Search) (env : Environment) (t : FileTree) : List (Option Path) :=
  [look env t ⟨"cc"⟩, look env t ⟨"gcc"⟩, look env t ⟨"clang"⟩, look env t ⟨"cl"⟩]

/-- The candidates for the compiler in their order, each with what it leads to: the one in
    the settings, which may be a file itself, the one in `CC`, and the usual ones. -/
def candidates (look : Search) (s : ToolchainSettings) (env : Environment) (t : FileTree) :
    List (Option Path) :=
  (s.cc.bind fun cc => if t.isFile env.cwd cc then some cc else look env t cc) ::
    (env.cc.bind fun cc => look env t ⟨cc⟩) :: usualCandidates look env t

/-- The first candidate that leads to anything leads to this. -/
def FirstFound (cs : List (Option Path)) (cc : Path) : Prop :=
  ∃ before after, cs = before ++ some cc :: after ∧ ∀ c ∈ before, c = none

/-- No candidate leads to anything. -/
def NoneFound (cs : List (Option Path)) : Prop := ∀ c ∈ cs, c = none

theorem findSome?_eq_some_iff (cs : List (Option Path)) :
    cs.findSome? id = some cc ↔ FirstFound cs cc := by
  rw [List.findSome?_eq_some_iff]
  constructor
  · rintro ⟨before, _, after, hcs, rfl, hbefore⟩
    exact ⟨before, after, hcs, hbefore⟩
  · rintro ⟨before, after, hcs, hbefore⟩
    exact ⟨before, some cc, after, hcs, rfl, hbefore⟩

theorem findSome?_eq_none_iff (cs : List (Option Path)) : cs.findSome? id = none ↔ NoneFound cs :=
  List.findSome?_eq_none_iff

theorem FirstFound.unique {cs : List (Option Path)} {cc' : Path} (hf : FirstFound cs cc)
    (hf' : FirstFound cs cc') : cc = cc' :=
  Option.some.inj (((findSome?_eq_some_iff cs).2 hf).symm.trans ((findSome?_eq_some_iff cs).2 hf'))

/-- The first program of some names. -/
theorem runOn_firstOf (look : Search) (names : List String) (env : Environment) (h : Host) :
    (firstOf names (searching look)).runOn env h =
      (.ok ((names.map fun name => look env h.files ⟨name⟩).findSome? id), h) := by
  induction names with
  | nil => rfl
  | cons name names ih =>
    rw [firstOf, runOn_bind, runOn_searching, List.map_cons, List.findSome?_cons]
    cases look env h.files ⟨name⟩ with
    | some p => rfl
    | none => exact ih

/-- What `CC` names, or else a usual compiler. -/
theorem findCompiler?_told (look : Search) (env : Environment) (h : Host) :
    ∃ h', h.OnlyTold h' ∧ (findCompiler? (searching look)).runOn env h =
      (.ok (((env.cc.bind fun cc => look env h.files ⟨cc⟩) ::
        usualCandidates look env h.files).findSome? id), h') := by
  have husual (h : Host) := runOn_firstOf look ["cc", "gcc", "clang", "cl"] env h
  unfold findCompiler?
  rw [runOn_bind, runOn_read]
  dsimp only
  cases hcc : env.cc with
  | none => exact ⟨h, ⟨rfl, rfl⟩, husual h⟩
  | some cc =>
    simp only [runOn_bind, runOn_searching]
    rw [Option.bind_some, List.findSome?_cons]
    cases look env h.files ⟨cc⟩ with
    | some p => exact ⟨h, ⟨rfl, rfl⟩, rfl⟩
    | none =>
      simp only [runOn_bind, runOn_log]
      exact ⟨_, h.onlyTold_log _ _, husual _⟩

/-- **The first candidate that is found is taken**; before that nothing happens but that the
    user is told of it. -/
theorem runOn_detect (look : Search) (s : ToolchainSettings) (env : Environment) (h : Host) :
    ∃ h', h.OnlyTold h' ∧ (detect s (searching look)).runOn env h =
      match (candidates look s env h.files).findSome? id with
      | some cc => (ofCompiler cc (searching look)).runOn env h'
      | none => (.error (.of .noCompiler), h') := by
  -- what is done where the settings lead nowhere, on a host that was told so
  have hother (h₁ : Host) (told : h.OnlyTold h₁) : ∃ h', h.OnlyTold h' ∧
      (do match ← findCompiler? (searching look) with
          | some cc => ofCompiler cc (searching look)
          | none => Action.fail .noCompiler : Action Toolchain).runOn env h₁ =
        match (candidates look s env h.files).tail.findSome? id with
        | some cc => (ofCompiler cc (searching look)).runOn env h'
        | none => (.error (.of .noCompiler), h') := by
    obtain ⟨h', told', hrun⟩ := findCompiler?_told look env h₁
    refine ⟨h', told.trans told', ?_⟩
    rw [runOn_bind, hrun, told.files, candidates, List.tail_cons]
    dsimp only
    split
    · rfl
    · rfl
  unfold detect
  cases hcc : s.cc with
  | none =>
    rw [candidates, hcc]
    exact hother h ⟨rfl, rfl⟩
  | some cc =>
    simp only [runOn_bind, runOn_configured?_searching]
    rw [candidates, hcc, Option.bind_some, List.findSome?_cons, id]
    split
    · rename_i found hfound
      rw [hfound]
      simp only [runOn_bind, runOn_log, runOn_pure]
      exact ⟨_, h.onlyTold_log _ _, rfl⟩
    · rename_i hfound
      rw [hfound]
      obtain ⟨h', told, hrun⟩ := hother _
        (h.onlyTold_log .warn ("configured C compiler not found: " ++ cc.text))
      exact ⟨h', told, hrun⟩

/-! ### The toolchain of a compiler -/

/-- A compiler's name, in any case of the letters and with any ending, is `cl`. -/
def CalledCl (cc : Path) : Prop := ∃ stem, cc.fileStem? = some stem ∧ stem ∈ ["cl", "cL", "Cl", "CL"]

theorem lowerAscii_eq_cl_iff (stem : String) :
    Text.lowerAscii stem = "cl" ↔ stem ∈ ["cl", "cL", "Cl", "CL"] := by
  constructor
  · intro h
    have hchars : stem.toList.map Char.toLower = ['c', 'l'] := by
      have hlist := congrArg String.toList h
      rwa [Text.lowerAscii, String.toList_ofList] at hlist
    obtain ⟨a, rest, hstem, ha, hrest⟩ := List.map_eq_cons_iff.1 hchars
    obtain ⟨b, rest, rfl, hb, hnil⟩ := List.map_eq_cons_iff.1 hrest
    rw [List.map_eq_nil_iff.1 hnil] at hstem
    have hofList : stem = String.ofList [a, b] := by rw [← hstem, String.ofList_toList]
    rw [hofList]
    rcases (Text.toLower_eq_iff (by decide)).1 ha with rfl | rfl
    · rcases (Text.toLower_eq_iff (by decide)).1 hb with rfl | rfl
      · decide
      · decide
    · rcases (Text.toLower_eq_iff (by decide)).1 hb with rfl | rfl
      · decide
      · decide
  · intro h
    simp only [List.mem_cons, List.not_mem_nil, or_false] at h
    rcases h with rfl | rfl | rfl | rfl
    · decide
    · decide
    · decide
    · decide

theorem isMsvc_iff (cc : Path) : isMsvc cc = true ↔ CalledCl cc := by
  rw [isMsvc, beq_iff_eq, Option.map_eq_some_iff]
  exact exists_congr fun stem => and_congr_right fun _ => lowerAscii_eq_cl_iff stem

/-- The linker for a compiler that is called `cl`: `link.exe` beside it, whatever that is,
    and otherwise what `link` leads to on the search path. -/
inductive LinkerFor (look : Search) (env : Environment) (t : FileTree) (cc : Path) :
    Path → Prop where
  | beside {dir : Path} (up : cc.parent? = some dir)
    (there : t.pathExists env.cwd (dir.child "link.exe") = true) :
    LinkerFor look env t cc (dir.child "link.exe")
  | found {link : Path}
    (missing : ∀ dir, cc.parent? = some dir → t.pathExists env.cwd (dir.child "link.exe") = false)
    (found : look env t ⟨"link"⟩ = some link) : LinkerFor look env t cc link

theorem runOn_linkerFor? (look : Search) (cc : Path) (env : Environment) (h : Host) :
    ∃ r, (linkerFor? cc (searching look)).runOn env h = (.ok r, h) ∧
      ∀ link, r = some link ↔ LinkerFor look env h.files cc link := by
  have hlook (missing : ∀ dir, cc.parent? = some dir →
      h.files.pathExists env.cwd (dir.child "link.exe") = false) (link : Path) :
      look env h.files ⟨"link"⟩ = some link ↔ LinkerFor look env h.files cc link := by
    constructor
    · exact .found missing
    · intro hlink
      cases hlink with
      | @beside dir up there =>
        rw [missing dir up] at there
        cases there
      | found _ found => exact found
  unfold linkerFor?
  cases hup : cc.parent? with
  | none =>
    exact ⟨_, rfl, hlook fun dir hdir => by
      rw [hup] at hdir
      cases hdir⟩
  | some dir =>
    simp only [Option.map_some, runOn_bind, runOn_pathExists]
    cases hthere : h.files.pathExists env.cwd (dir.child "link.exe") with
    | true =>
      refine ⟨_, rfl, fun link => ?_⟩
      constructor
      · intro hlink
        cases hlink
        exact .beside hup hthere
      · intro hlink
        cases hlink with
        | beside up _ =>
          rw [hup] at up
          cases up
          rfl
        | found missing _ =>
          rw [missing dir hup] at hthere
          cases hthere
    | false =>
      refine ⟨_, rfl, hlook fun dir' hdir' => ?_⟩
      rw [hup] at hdir'
      cases hdir'
      exact hthere

/-- A word is in the file name of a compiler, in any case of the letters.  No letter beyond
    ASCII comes to one of `gcc`, `clang` or `apple` in lower case. -/
def Names (cc : Path) (word : String) : Prop :=
  word.toList <:+: (Text.lowerAscii (cc.fileName?.getD "")).toList

/-- What a version in lower case says of the family. -/
inductive VersionOf (version : String) : Family → Prop where
  | appleClang (apple : "apple".toList <:+: version.toList) (clang : "clang".toList <:+: version.toList) :
    VersionOf version .appleClang
  | clang (apple : ¬ "apple".toList <:+: version.toList) (clang : "clang".toList <:+: version.toList) :
    VersionOf version .clang
  | gcc (clang : ¬ "clang".toList <:+: version.toList) : VersionOf version .gcc

/-- The family of a compiler: by its name if that says GCC, otherwise by the version that it
    tells, and again by its name if it cannot be started. -/
inductive FamilyOf (env : Environment) (t : FileTree) (cc : Path) : Family → Prop where
  | named (gcc : Names cc "gcc") : FamilyOf env t cc .gcc
  | asked {done : Completed} {family : Family} (gcc : ¬ Names cc "gcc")
    (started : (env.run t ⟨versionCommand cc, none⟩).1 = .ok done)
    (version : VersionOf (Text.lowerAscii done.stdout) family) : FamilyOf env t cc family
  | clang {fault : HostFault} (gcc : ¬ Names cc "gcc")
    (unstarted : (env.run t ⟨versionCommand cc, none⟩).1 = .error fault) (clang : Names cc "clang") :
    FamilyOf env t cc .clang
  | other {fault : HostFault} (gcc : ¬ Names cc "gcc")
    (unstarted : (env.run t ⟨versionCommand cc, none⟩).1 = .error fault)
    (clang : ¬ Names cc "clang") : FamilyOf env t cc .gcc

theorem versionOf_iff (version : String) (family : Family) :
    familyOfVersion version = family ↔ VersionOf version family := by
  simp only [familyOfVersion, Bool.and_eq_true, Text.contains_iff]
  constructor
  · rintro rfl
    split
    · rename_i hboth
      exact .appleClang hboth.1 hboth.2
    · rename_i hboth
      split
      · rename_i hclang
        exact .clang (fun happle => hboth ⟨happle, hclang⟩) hclang
      · rename_i hclang
        exact .gcc hclang
  · intro h
    cases h with
    | appleClang happle hclang => rw [if_pos ⟨happle, hclang⟩]
    | clang happle hclang => rw [if_neg fun hboth => happle hboth.1, if_pos hclang]
    | gcc hclang => rw [if_neg fun hboth => hclang hboth.2, if_neg hclang]

/-- A compiler that is asked for its version: its name says too little. -/
def AsksVersion (cc : Path) : Prop := ¬ CalledCl cc ∧ ¬ Names cc "gcc"

/-- A compiler whose name says that it is GCC is asked nothing. -/
theorem runOn_familyOf_named (env : Environment) (h : Host) (gcc : Names cc "gcc") :
    (familyOf cc).runOn env h = (.ok .gcc, h) := by
  unfold familyOf
  rw [runOn_ite, if_pos ((Text.contains_iff _ _).2 gcc)]
  rfl

/-- Any other compiler is asked for its version. -/
theorem runOn_familyOf_asked (env : Environment) (h : Host) (gcc : ¬ Names cc "gcc") :
    ∃ family, (familyOf cc).runOn env h = (.ok family,
        { h with events := h.events ++ [.started ⟨versionCommand cc, none⟩],
                 files := (env.run h.files ⟨versionCommand cc, none⟩).2 }) ∧
      ∀ f, family = f ↔ FamilyOf env h.files cc f := by
  unfold familyOf
  rw [runOn_ite, if_neg fun hgcc => gcc ((Text.contains_iff _ _).1 hgcc), runOn_bind, runOn_attempt,
    runOn_exec]
  dsimp only
  cases hrun : (env.run h.files ⟨versionCommand cc, none⟩).1 with
  | ok done =>
    refine ⟨_, rfl, fun f => (versionOf_iff _ f).trans ⟨.asked gcc hrun, fun hf => ?_⟩⟩
    cases hf with
    | named hgcc => exact absurd hgcc gcc
    | asked _ started version =>
      rw [hrun] at started
      cases started
      exact version
    | clang _ unstarted =>
      rw [hrun] at unstarted
      cases unstarted
    | other _ unstarted =>
      rw [hrun] at unstarted
      cases unstarted
  | error fault =>
    refine ⟨_, rfl, fun f => ?_⟩
    constructor
    · rintro rfl
      split
      · rename_i hclang
        exact .clang gcc hrun ((Text.contains_iff _ _).1 hclang)
      · rename_i hclang
        exact .other gcc hrun fun hnames => hclang ((Text.contains_iff _ _).2 hnames)
    · intro hf
      cases hf with
      | named hgcc => exact absurd hgcc gcc
      | asked _ started =>
        rw [hrun] at started
        cases started
      | clang _ _ hclang => exact if_pos ((Text.contains_iff _ _).2 hclang)
      | other _ _ hclang => exact if_neg fun h => hclang ((Text.contains_iff _ _).1 h)

/-- What comes of a compiler. -/
inductive Becomes (look : Search) (env : Environment) (t : FileTree) (cc : Path) :
    Except Failure Toolchain → Prop where
  | msvc {link : Path} (called : CalledCl cc) (linker : LinkerFor look env t cc link) :
    Becomes look env t cc (.ok (.msvc cc link))
  | noLinker (called : CalledCl cc) (linker : ∀ link, ¬ LinkerFor look env t cc link) :
    Becomes look env t cc (.error (.of (.noLinker cc)))
  | gnu {family : Family} (called : ¬ CalledCl cc) (known : FamilyOf env t cc family) :
    Becomes look env t cc (.ok (.gnu cc family))

/-- A compiler that is called `cl` needs a linker and is asked nothing. -/
theorem runOn_ofCompiler_called (called : CalledCl cc) (look : Search) (env : Environment) (h : Host) :
    ∃ r, (ofCompiler cc (searching look)).runOn env h = (r, h) ∧
      ∀ r', r = r' ↔ Becomes look env h.files cc r' := by
  obtain ⟨found, hrun, hlinker⟩ := runOn_linkerFor? look cc env h
  unfold ofCompiler
  rw [runOn_ite, if_pos ((isMsvc_iff cc).2 called), runOn_bind, hrun]
  cases found with
  | none =>
    have hnone : ∀ link, ¬ LinkerFor look env h.files cc link := fun link hlink =>
      nomatch (hlinker link).2 hlink
    refine ⟨_, rfl, fun r' => ⟨?_, fun hr => ?_⟩⟩
    · rintro rfl
      exact .noLinker called hnone
    · cases hr with
      | msvc _ linker => exact absurd linker (hnone _)
      | noLinker => rfl
      | gnu hnot => exact absurd called hnot
  | some link =>
    have hlink : LinkerFor look env h.files cc link := (hlinker link).1 rfl
    refine ⟨_, rfl, fun r' => ⟨?_, fun hr => ?_⟩⟩
    · rintro rfl
      exact .msvc called hlink
    · cases hr with
      | msvc _ linker =>
        cases (hlinker _).2 linker
        rfl
      | noLinker _ hnone => exact absurd hlink (hnone link)
      | gnu hnot => exact absurd called hnot

/-- Any other compiler takes GCC's options, and its family is found out. -/
theorem runOn_ofCompiler_gnu (called : ¬ CalledCl cc) (look : Search) {env : Environment}
    {h h' : Host} {family : Family} (known : (familyOf cc).runOn env h = (.ok family, h'))
    (exact : ∀ f, family = f ↔ FamilyOf env h.files cc f) :
    ∃ h'', h'.OnlyTold h'' ∧
      (ofCompiler cc (searching look)).runOn env h = (.ok (.gnu cc family), h'') ∧
      ∀ r', .ok (.gnu cc family) = r' ↔ Becomes look env h.files cc r' := by
  unfold ofCompiler
  rw [runOn_ite, if_neg fun hmsvc => called ((isMsvc_iff cc).1 hmsvc), runOn_bind, known]
  refine ⟨_, h'.onlyTold_log _ _, rfl, fun r' => ⟨?_, fun hr => ?_⟩⟩
  · rintro rfl
    exact .gnu called ((exact family).1 rfl)
  · cases hr with
    | msvc hcl => exact absurd hcl called
    | noLinker hcl => exact absurd hcl called
    | gnu _ hfamily => rw [(exact _).2 hfamily]

/-- What becomes of a compiler, and that it is asked at most for its version. -/
theorem runOn_ofCompiler (look : Search) (cc : Path) (env : Environment) (h : Host) :
    ∃ r h', (ofCompiler cc (searching look)).runOn env h = (r, h') ∧
      (∀ r', r = r' ↔ Becomes look env h.files cc r') ∧
      (¬ AsksVersion cc → h.OnlyTold h') ∧
      (AsksVersion cc → h'.started = h.started ++ [⟨versionCommand cc, none⟩] ∧
        h'.files = (env.run h.files ⟨versionCommand cc, none⟩).2) := by
  by_cases hcl : CalledCl cc
  · obtain ⟨r, hrun, hbecomes⟩ := runOn_ofCompiler_called hcl look env h
    exact ⟨r, h, hrun, hbecomes, fun _ => ⟨rfl, rfl⟩, fun hasks => absurd hcl hasks.1⟩
  by_cases hgcc : Names cc "gcc"
  · have hexact : ∀ f, Family.gcc = f ↔ FamilyOf env h.files cc f := by
      intro f
      constructor
      · rintro rfl
        exact .named hgcc
      · intro hf
        cases hf with
        | named => rfl
        | asked hnot => exact absurd hgcc hnot
        | clang hnot => exact absurd hgcc hnot
        | other => rfl
    obtain ⟨h', told, hrun, hbecomes⟩ :=
      runOn_ofCompiler_gnu hcl look (runOn_familyOf_named env h hgcc) hexact
    exact ⟨_, h', hrun, hbecomes, fun _ => told, fun hasks => absurd hgcc hasks.2⟩
  · obtain ⟨family, hknown, hexact⟩ := runOn_familyOf_asked env h hgcc
    obtain ⟨h', told, hrun, hbecomes⟩ := runOn_ofCompiler_gnu hcl look hknown hexact
    refine ⟨_, h', hrun, hbecomes, fun hnot => absurd ⟨hcl, hgcc⟩ hnot, fun _ => ⟨?_, told.files⟩⟩
    rw [told.started, Host.started, List.filterMap_append]
    rfl

/-! ### What is detected -/

/-- **The toolchain is that of the first candidate that is found**, in whatever way programs
    are looked for.  It is MSVC's exactly if the compiler is called `cl`; detection fails
    exactly if nothing is found or the compiler is called `cl` and has no linker.  No process
    is started but the one that asks a compiler for its version, and that only where its name
    says neither `cl` nor GCC. -/
theorem detect_follows_priority (look : Search) (s : ToolchainSettings) (env : Environment) (h : Host) :
    (∀ e, ((detect s (searching look)).runOn env h).1 = .error e ↔
      NoneFound (candidates look s env h.files) ∧ e = .of .noCompiler ∨
      ∃ cc, FirstFound (candidates look s env h.files) cc ∧ CalledCl cc ∧
        (∀ link, ¬ LinkerFor look env h.files cc link) ∧ e = .of (.noLinker cc)) ∧
    (∀ cc link, ((detect s (searching look)).runOn env h).1 = .ok (.msvc cc link) ↔
      FirstFound (candidates look s env h.files) cc ∧ CalledCl cc ∧
        LinkerFor look env h.files cc link) ∧
    (∀ cc family, ((detect s (searching look)).runOn env h).1 = .ok (.gnu cc family) ↔
      FirstFound (candidates look s env h.files) cc ∧ ¬ CalledCl cc ∧
        FamilyOf env h.files cc family) ∧
    (∀ cc, FirstFound (candidates look s env h.files) cc → AsksVersion cc →
      ((detect s (searching look)).runOn env h).2.started = h.started ++ [⟨versionCommand cc, none⟩] ∧
      ((detect s (searching look)).runOn env h).2.files = (env.run h.files ⟨versionCommand cc, none⟩).2) ∧
    ((∀ cc, FirstFound (candidates look s env h.files) cc → ¬ AsksVersion cc) →
      h.OnlyTold ((detect s (searching look)).runOn env h).2) := by
  obtain ⟨h₁, told, hrun⟩ := runOn_detect look s env h
  cases hfound : (candidates look s env h.files).findSome? id with
  | none =>
    have hnone := (findSome?_eq_none_iff _).1 hfound
    have hno (cc : Path) : ¬ FirstFound (candidates look s env h.files) cc := by
      intro hfirst
      rw [(findSome?_eq_some_iff _).2 hfirst] at hfound
      cases hfound
    rw [hfound] at hrun
    rw [hrun]
    refine ⟨fun e => ?_, fun cc link => ?_, fun cc family => ?_, ?_, fun _ => told⟩
    · constructor
      · intro he
        cases he
        exact .inl ⟨hnone, rfl⟩
      · rintro (⟨-, rfl⟩ | ⟨cc, hfirst, -⟩)
        · rfl
        · exact absurd hfirst (hno cc)
    · exact iff_of_false nofun fun hr => hno cc hr.1
    · exact iff_of_false nofun fun hr => hno cc hr.1
    · exact fun cc hfirst => absurd hfirst (hno cc)
  | some cc =>
    have hfirst := (findSome?_eq_some_iff _).1 hfound
    have hsome : ¬ NoneFound (candidates look s env h.files) := by
      intro hnone
      rw [(findSome?_eq_none_iff _).2 hnone] at hfound
      cases hfound
    obtain ⟨r, h₂, hcompiler, hbecomes, hquiet, hasked⟩ := runOn_ofCompiler look cc env h₁
    rw [hfound] at hrun
    rw [hrun]
    dsimp only
    rw [hcompiler]
    rw [told.files] at hbecomes hasked
    refine ⟨fun e => (hbecomes _).trans ⟨fun hr => ?_, ?_⟩, fun cc' link => (hbecomes _).trans ⟨fun hr => ?_, ?_⟩,
      fun cc' family => (hbecomes _).trans ⟨fun hr => ?_, ?_⟩, fun cc' hfirst' hasks => ?_,
      fun hnot => told.trans (hquiet (hnot cc hfirst))⟩
    · cases hr with
      | noLinker called linker => exact .inr ⟨cc, hfirst, called, linker, rfl⟩
    · rintro (⟨hnone, -⟩ | ⟨cc', hfirst', called, linker, rfl⟩)
      · exact absurd hnone hsome
      · obtain rfl := hfirst.unique hfirst'
        exact .noLinker called linker
    · cases hr with
      | msvc called linker => exact ⟨hfirst, called, linker⟩
    · rintro ⟨hfirst', called, linker⟩
      obtain rfl := hfirst.unique hfirst'
      exact .msvc called linker
    · cases hr with
      | gnu called known => exact ⟨hfirst, called, known⟩
    · rintro ⟨hfirst', called, known⟩
      obtain rfl := hfirst.unique hfirst'
      exact .gnu called known
    · obtain rfl := hfirst.unique hfirst'
      rw [← told.started]
      exact hasked hasks

end Toolchain

end GrammarBuild
