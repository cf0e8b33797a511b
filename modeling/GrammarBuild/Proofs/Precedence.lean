import GrammarBuild.Proofs.DistinctKeys
import GrammarBuild.Proofs.Elsewhere

/-
  GrammarBuild/Proofs/Precedence.lean
  ===================================
  **The project's settings come before the user's** — what the two files of settings come
  to, key by key (`settings_layered`): the project's value, else the user's, else the
  default.  A file that is missing or cannot be read as settings sets nothing.

  One case is not as the rest: of `emit_compile_commands`, `cflags` and `ldflags` only the
  value is kept, and not whether it was set.  A project that sets one of them to its
  default does not get it against a user's file (`settings_default_lost`).
-/

namespace GrammarBuild

namespace Toml

/-- The value of a record's field: under its name in a table, at its place in an array. -/
def Value.member? (name : String) (place : Nat) : Value → Option Value
  | .table _ es => Entries.get? es name
  | .array vs => vs[place]?
  | .tables ts => (itemsOf ts)[place]?
  | _ => none

namespace Decoder

variable {σ α β : Type}

/-- Reading the field leaves `get` as it is. -/
def RecordField.Spares (f : RecordField σ) (get : σ → β) : Prop :=
  ∀ ⦃v s s'⦄, f.read v s = .ok s' → get s' = get s

theorem read_field {name : String} {decode : Decoder α} {keep : α → σ → σ} {hasDefault : Bool}
    {v : Value} {s s' : σ} (h : (field name decode keep hasDefault).read v s = .ok s') :
    ∃ x, decode v = .ok x ∧ s' = keep x s := by
  unfold field at h
  dsimp only at h
  cases hv : decode v with
  | error e =>
    rw [hv] at h
    cases h
  | ok x =>
    rw [hv] at h
    cases h
    exact ⟨x, rfl, rfl⟩

theorem spares_field {name : String} {decode : Decoder α} {keep : α → σ → σ} {hasDefault : Bool}
    {get : σ → β} (same : ∀ x s, get (keep x s) = get s) :
    (field name decode keep hasDefault).Spares get := by
  intro v s s' h
  obtain ⟨x, -, rfl⟩ := read_field h
  exact same x s

/-- Among the fields, the one with this name and place decides what `get` is: `put` of what
    was decoded. -/
inductive Keeps (name : String) (decode : Decoder α) (get : σ → β) (put : α → β) :
    (place : Nat) → List (RecordField σ) → Prop where
  | here {keep : α → σ → σ} {hasDefault : Bool} {fs : List (RecordField σ)}
    (kept : ∀ x s, get (keep x s) = put x) (others : ∀ g ∈ fs, g.name ≠ name ∧ g.Spares get) :
    Keeps name decode get put 0 (field name decode keep hasDefault :: fs)
  | there {place : Nat} {g : RecordField σ} {fs : List (RecordField σ)}
    (other : g.name ≠ name ∧ g.Spares get) (rest : Keeps name decode get put place fs) :
    Keeps name decode get put (place + 1) (g :: fs)

/-- What comes of a field: its value if there is one, and otherwise what was there. -/
def Took (decode : Decoder α) (put : α → β) (found : Option Value) (before after : β) : Prop :=
  match found with
  | some v => ∃ x, decode v = .ok x ∧ after = put x
  | none => after = before

variable {name : String} {decode : Decoder α} {get : σ → β} {put : α → β} {place : Nat}
  {fields : List (RecordField σ)} {start s : σ}

theorem Took.elim {found : Option Value} {before after : β}
    (h : Took decode put found before after) :
    after = (found.bind fun v => (decode v).toOption).elim before put := by
  cases found with
  | none => exact h
  | some v =>
    obtain ⟨x, hx, rfl⟩ := h
    rw [Option.bind_some, hx]
    rfl

theorem took_of_read {keep : α → σ → σ} {hasDefault : Bool} (kept : ∀ x s, get (keep x s) = put x)
    {v : Value} (h : (field name decode keep hasDefault).read v start = .ok s) :
    Took decode put (some v) (get start) (get s) := by
  obtain ⟨x, hx, rfl⟩ := read_field h
  exact ⟨x, hx, kept x start⟩

/-! ### Tables -/

theorem Keeps.spares (k : Keeps name decode get put place fields) {g : RecordField σ}
    (hg : g ∈ fields) (other : g.name ≠ name) : g.Spares get := by
  induction k with
  | here kept others =>
    rcases List.mem_cons.1 hg with rfl | hg
    · exact absurd rfl other
    · exact (others g hg).2
  | there first rest ih =>
    rcases List.mem_cons.1 hg with rfl | hg
    · exact first.2
    · exact ih hg

theorem Keeps.find? (k : Keeps name decode get put place fields) :
    ∃ (keep : α → σ → σ) (hasDefault : Bool),
      (fields.find? fun f => f.name == name) = some (field name decode keep hasDefault) ∧
        ∀ x s, get (keep x s) = put x := by
  induction k with
  | @here keep hasDefault fs kept others =>
    refine ⟨keep, hasDefault, ?_, kept⟩
    rw [List.find?_cons_of_pos]
    exact beq_self_eq_true name
  | there other rest ih =>
    obtain ⟨keep, hasDefault, hfind, kept⟩ := ih
    refine ⟨keep, hasDefault, ?_, kept⟩
    rw [List.find?_cons_of_neg (by simpa using other.1), hfind]

theorem collect_cons (fields : List (RecordField σ)) (s : σ) (key : String) (v : Value)
    (es : Entries) : Decoder.collect fields s ((key, v) :: es) =
      (match fields.find? fun f => f.name == key with
        | some f => f.read v s
        | none => .ok s) >>= fun s' => Decoder.collect fields s' es := rfl

theorem Keeps.collect (k : Keeps name decode get put place fields) {es : Entries}
    (keys : (es.map Prod.fst).Nodup) (h : Decoder.collect fields start es = .ok s) :
    Took decode put (es.get? name) (get start) (get s) := by
  induction es generalizing start with
  | nil =>
    cases h
    exact rfl
  | cons e es ih =>
    obtain ⟨key, v⟩ := e
    obtain ⟨hnew, keys⟩ := List.nodup_cons.1 keys
    rw [collect_cons] at h
    obtain ⟨s₁, hfirst, hrest⟩ := bind_eq_ok_iff.1 h
    have hlater := ih keys hrest
    by_cases hkey : key = name
    · -- no later entry has the key again
      subst hkey
      obtain ⟨keep, _, hfind, kept⟩ := k.find?
      rw [hfind] at hfirst
      rw [Entries.get?_eq_none.2 hnew] at hlater
      have hget : Entries.get? ((key, v) :: es) key = some v := by simp [Entries.get?]
      rw [hget, show get s = get s₁ from hlater]
      exact took_of_read kept hfirst
    · have hget : Entries.get? ((key, v) :: es) name = Entries.get? es name := by
        simp [Entries.get?, hkey]
      have hsame : get s₁ = get start := by
        split at hfirst
        · rename_i f hfind
          have hname : f.name = key := by simpa using List.find?_some hfind
          exact k.spares (List.mem_of_find?_eq_some hfind) (hname ▸ hkey) hfirst
        · cases hfirst
          rfl
      rw [hget, ← hsame]
      exact hlater

/-! ### Arrays -/

theorem collectItems_spared {expected : String} {i : Nat} {vs : List Value}
    (spared : ∀ g ∈ fields, g.Spares get)
    (h : collectItems expected i fields vs start = .ok s) : get s = get start := by
  induction fields generalizing i vs start with
  | nil =>
    cases vs with
    | nil => cases h; rfl
    | cons v vs => cases h; rfl
  | cons f fs ih =>
    obtain ⟨hf, hfs⟩ := List.forall_mem_cons.1 spared
    cases vs with
    | nil =>
      unfold collectItems at h
      split at h
      · exact ih hfs h
      · cases h
    | cons v vs =>
      unfold collectItems at h
      obtain ⟨s₁, hfirst, hrest⟩ := bind_eq_ok_iff.1 h
      rw [ih hfs hrest, hf hfirst]

theorem Keeps.collectItems (k : Keeps name decode get put place fields) {expected : String}
    {i : Nat} {vs : List Value} (h : Decoder.collectItems expected i fields vs start = .ok s) :
    Took decode put vs[place]? (get start) (get s) := by
  induction k generalizing i vs start with
  | here kept others =>
    have hspared := fun g hg => (others g hg).2
    cases vs with
    | nil =>
      unfold Decoder.collectItems at h
      split at h
      · exact collectItems_spared hspared h
      · cases h
    | cons v vs =>
      obtain ⟨s₁, hfirst, hrest⟩ := bind_eq_ok_iff.1 h
      rw [collectItems_spared hspared hrest]
      exact took_of_read kept hfirst
  | there other rest ih =>
    cases vs with
    | nil =>
      unfold Decoder.collectItems at h
      split at h
      · have hnone := ih h
        simpa using hnone
      · cases h
    | cons v vs =>
      obtain ⟨s₁, hfirst, hrest⟩ := bind_eq_ok_iff.1 h
      rw [← other.2 hfirst, List.getElem?_cons_succ]
      exact ih hrest

/-- Where no table gives a key twice, a record holds under `get` what its value says. -/
theorem Keeps.record (k : Keeps name decode get put place fields) {title : String} {v : Value}
    (u : v.Unambiguous) (h : Decoder.record title fields start v = .ok s) :
    Took decode put (v.member? name place) (get start) (get s) := by
  cases v with
  | table origin es => exact k.collect (Entries.of_table u).keys h
  | array vs => exact k.collectItems h
  | tables ts => exact k.collectItems h
  | datetime t =>
    cases h
    exact rfl
  | string t => cases h
  | integer n => cases h
  | float x => cases h
  | boolean b => cases h

end Decoder

end Toml

open Toml Decoder

/-! ### One file -/

/-- What a settings file says: nothing if it is missing, cannot be read, or does not hold
    settings. -/
def settingsEntries {σ : Type} (read : String → Except DocumentFault σ) (t : FileTree)
    (cwd : Location) (p : Path) : Entries :=
  match t.readText cwd p with
  | .ok text =>
    match read text with
    | .ok _ => (Toml.read? text).getD []
    | .error _ => []
  | .error _ => []

theorem runOn_orWarn_entries {σ : Type} {read : String → Except DocumentFault σ} {default : σ}
    {ofEntries : Entries → σ} (unset : ofEntries [] = default)
    (said : ∀ text s, read text = .ok s → s = ofEntries ((Toml.read? text).getD []))
    (reading parsing : Activity) (p : Path) (env : Environment) (h : Host) :
    ∃ h', (orWarn p default (do
        let text ← Action.within reading (Action.readText p)
        Action.within parsing (Action.ofExcept (Failure.lift .document (read text))))).runOn env h =
      (.ok (ofEntries (settingsEntries read h.files env.cwd p)), h') ∧ h.OnlyTold h' := by
  obtain ⟨h', hrun, htold⟩ := runOn_orWarn_read read default reading parsing p env h
  refine ⟨h', ?_, htold⟩
  rw [hrun, settingsEntries]
  cases h.files.readText env.cwd p with
  | error f => exact congrArg (fun s => (Except.ok s, h')) unset.symm
  | ok text =>
    cases hs : read text with
    | error f => simp only [hs, unset]
    | ok s => simp only [hs, ← said text s hs]

/-- Settings that were read from a text are collected from its entries. -/
theorem collect_of_read {σ : Type} {title text : String} {decode : Decoder σ} {default s : σ}
    (h : (match Toml.read? text with
      | none => Except.error DocumentFault.malformed
      | some es => (collect [field title decode fun x _ => x] default es).mapError .schema) =
      .ok s) :
    ∃ es, Toml.read? text = some es ∧ es.Unambiguous ∧
      collect [field title decode fun x _ => x] default es = .ok s := by
  cases hread : Toml.read? text with
  | none =>
    rw [hread] at h
    cases h
  | some es =>
    rw [hread] at h
    refine ⟨es, rfl, read?_unambiguous hread, ?_⟩
    cases hcollect : collect [field title decode fun x _ => x] default es with
    | error e =>
      simp only [hcollect] at h
      cases h
    | ok s' =>
      simp only [hcollect] at h
      cases h
      rfl

/-- A key of a settings file. -/
structure SettingKey (α : Type) where
  /-- The section that the key belongs to. -/
  table : String
  name : String
  /-- The place of the key in its section. -/
  place : Nat
  decode : Decoder α

namespace SettingKey

variable {α : Type}

/-- The value that a key is set to. -/
def setIn (k : SettingKey α) (es : Entries) : Option α :=
  ((es.get? k.table).bind (Value.member? k.name k.place)).bind fun v => (k.decode v).toOption

/-- The project's value, else the user's, else the default. -/
def layered (k : SettingKey α) (default : α) (user project : Entries) : α :=
  ((k.setIn project).or (k.setIn user)).getD default

/-- The same, but that a project which sets the default counts as one that sets nothing. -/
def layeredOverDefault [DecidableEq α] (k : SettingKey α) (default : α)
    (user project : Entries) : α :=
  if k.setIn project = some default then k.layered default user []
  else k.layered default user project

/-- Settings hold what their section says under a key. -/
theorem kept {σ β : Type} {k : SettingKey α} {fields : List (RecordField σ)} {title : String}
    {start s : σ} {get : σ → β} {put : α → β} {es : Entries}
    (keeps : Keeps k.name k.decode get put k.place fields) (u : es.Unambiguous)
    (h : collect [field k.table (record title fields start) fun x _ => x] start es = .ok s) :
    get s = (k.setIn es).elim (get start) put := by
  have hkeeps : Keeps k.table (record title fields start) id id 0
      [field k.table (record title fields start) fun x _ => x] :=
    .here (fun _ _ => rfl) fun _ h => (List.not_mem_nil h).elim
  have hsection := hkeeps.collect u.keys h
  unfold setIn
  cases hget : es.get? k.table with
  | none =>
    rw [hget] at hsection
    cases hsection
    rfl
  | some v =>
    rw [hget] at hsection
    obtain ⟨s', hrecord, rfl⟩ := hsection
    exact (keeps.record (u.value hget) hrecord).elim

/-- A key without a default. -/
theorem kept_option {σ : Type} {k : SettingKey α} {fields : List (RecordField σ)}
    {title : String} {start s : σ} {get : σ → Option α} {es : Entries}
    (keeps : Keeps k.name k.decode get some k.place fields) (unset : get start = none)
    (u : es.Unambiguous)
    (h : collect [field k.table (record title fields start) fun x _ => x] start es = .ok s) :
    get s = k.setIn es := by
  rw [kept keeps u h, unset]
  cases k.setIn es with
  | none => rfl
  | some x => rfl

/-- A key with a default. -/
theorem kept_value {σ : Type} {k : SettingKey α} {fields : List (RecordField σ)}
    {title : String} {start s : σ} {get : σ → α} {default : α} {es : Entries}
    (keeps : Keeps k.name k.decode get id k.place fields) (unset : get start = default)
    (u : es.Unambiguous)
    (h : collect [field k.table (record title fields start) fun x _ => x] start es = .ok s) :
    get s = (k.setIn es).getD default := by
  rw [kept keeps u h, unset]
  cases k.setIn es with
  | none => rfl
  | some x => rfl

end SettingKey

/-! ### Builds -/

namespace BuildSettings

def jobsKey : SettingKey Nat := ⟨"build", "jobs", 0, count⟩

def emitKey : SettingKey Bool := ⟨"build", "emit_compile_commands", 1, boolean⟩

def profileKey : SettingKey String := ⟨"build", "profile", 2, text⟩

def ofEntries (es : Entries) : BuildSettings where
  jobs := jobsKey.setIn es
  emitCompileCommands := (emitKey.setIn es).getD false
  profile := profileKey.setIn es

theorem keeps_jobs : Keeps "jobs" count (·.jobs) some 0 fields := by
  refine .here (fun _ _ => rfl) (List.forall_mem_cons.2 ⟨⟨by decide, ?_⟩, ?_⟩)
  · exact spares_field fun _ _ => rfl
  · exact List.forall_mem_singleton.2 ⟨by decide, spares_field fun _ _ => rfl⟩

theorem keeps_emit :
    Keeps "emit_compile_commands" boolean (·.emitCompileCommands) id 1 fields := by
  refine .there ⟨by decide, spares_field fun _ _ => rfl⟩ (.here (fun _ _ => rfl) ?_)
  exact List.forall_mem_singleton.2 ⟨by decide, spares_field fun _ _ => rfl⟩

theorem keeps_profile : Keeps "profile" text (·.profile) some 2 fields := by
  refine .there ⟨by decide, spares_field fun _ _ => rfl⟩ ?_
  refine .there ⟨by decide, spares_field fun _ _ => rfl⟩ ?_
  exact .here (fun _ _ => rfl) fun _ h => (List.not_mem_nil h).elim

theorem eq_ofEntries {text : String} {s : BuildSettings} (h : read text = .ok s) :
    s = ofEntries ((Toml.read? text).getD []) := by
  obtain ⟨es, hread, u, hcollect⟩ := collect_of_read h
  have hjobs : s.jobs = jobsKey.setIn es := SettingKey.kept_option keeps_jobs rfl u hcollect
  have hemit : s.emitCompileCommands = (emitKey.setIn es).getD false :=
    SettingKey.kept_value keeps_emit rfl u hcollect
  have hprofile : s.profile = profileKey.setIn es :=
    SettingKey.kept_option keeps_profile rfl u hcollect
  obtain ⟨jobs, emit, profile⟩ := s
  dsimp only at hjobs hemit hprofile
  rw [hread, hjobs, hemit, hprofile]
  rfl

/-- The settings of a user's and a project's entries. -/
structure Layered (user project : Entries) (s : BuildSettings) : Prop where
  jobs : s.jobs = (jobsKey.setIn project).or (jobsKey.setIn user)
  profile : s.profile = (profileKey.setIn project).or (profileKey.setIn user)
  emit : s.emitCompileCommands = emitKey.layeredOverDefault false user project

theorem layered_merge (user project : Entries) :
    Layered user project ((({} : BuildSettings).merge (ofEntries user)).merge (ofEntries project)) where
  jobs := by
    show (jobsKey.setIn project).or ((jobsKey.setIn user).or none) = _
    rw [Option.or_none]
  profile := by
    show (profileKey.setIn project).or ((profileKey.setIn user).or none) = _
    rw [Option.or_none]
  emit := by
    show (false || (emitKey.setIn user).getD false || (emitKey.setIn project).getD false) = _
    have hnothing : emitKey.setIn [] = none := rfl
    rw [Bool.false_or, SettingKey.layeredOverDefault, SettingKey.layered, SettingKey.layered,
      hnothing, Option.none_or]
    rcases emitKey.setIn project with _ | _ | _
    · simp
    · simp
    · simp

theorem runOn_loadBoth_layered (user project : Path) (env : Environment) (h : Host) :
    ∃ s h', (loadBoth user project).runOn env h = (.ok s, h') ∧ h.OnlyTold h' ∧
      s.Layered (settingsEntries read h.files env.cwd user)
        (settingsEntries read h.files env.cwd project) := by
  have hload (p : Path) (h : Host) : ∃ h', (orWarn p {} (load p)).runOn env h =
      (.ok (ofEntries (settingsEntries read h.files env.cwd p)), h') ∧ h.OnlyTold h' :=
    runOn_orWarn_entries rfl (fun _ _ => eq_ofEntries) (.readingConfig p) (.parsingConfig p) p env h
  obtain ⟨h', hrun, htold⟩ := runOn_both_told _ (hload user h) fun h₁ htold =>
    htold.files ▸ hload project h₁
  exact ⟨_, h', hrun, htold, layered_merge _ _⟩

end BuildSettings

/-! ### Compilers -/

namespace ToolchainSettings

def ccKey : SettingKey Path := ⟨"toolchain", "cc", 0, fun v => (text "path string" v).map Path.mk⟩

def cflagsKey : SettingKey (List String) := ⟨"toolchain", "cflags", 1, texts⟩

def ldflagsKey : SettingKey (List String) := ⟨"toolchain", "ldflags", 2, texts⟩

def ofEntries (es : Entries) : ToolchainSettings where
  cc := ccKey.setIn es
  cflags := (cflagsKey.setIn es).getD []
  ldflags := (ldflagsKey.setIn es).getD []

theorem keeps_cc : Keeps "cc" ccKey.decode (·.cc) some 0 fields := by
  refine .here (fun _ _ => rfl) (List.forall_mem_cons.2 ⟨⟨by decide, ?_⟩, ?_⟩)
  · exact spares_field fun _ _ => rfl
  · exact List.forall_mem_singleton.2 ⟨by decide, spares_field fun _ _ => rfl⟩

theorem keeps_cflags : Keeps "cflags" texts (·.cflags) id 1 fields := by
  refine .there ⟨by decide, spares_field fun _ _ => rfl⟩ (.here (fun _ _ => rfl) ?_)
  exact List.forall_mem_singleton.2 ⟨by decide, spares_field fun _ _ => rfl⟩

theorem keeps_ldflags : Keeps "ldflags" texts (·.ldflags) id 2 fields := by
  refine .there ⟨by decide, spares_field fun _ _ => rfl⟩ ?_
  refine .there ⟨by decide, spares_field fun _ _ => rfl⟩ ?_
  exact .here (fun _ _ => rfl) fun _ h => (List.not_mem_nil h).elim

theorem eq_ofEntries {text : String} {s : ToolchainSettings} (h : read text = .ok s) :
    s = ofEntries ((Toml.read? text).getD []) := by
  obtain ⟨es, hread, u, hcollect⟩ := collect_of_read h
  have hcc : s.cc = ccKey.setIn es := SettingKey.kept_option keeps_cc rfl u hcollect
  have hcflags : s.cflags = (cflagsKey.setIn es).getD [] :=
    SettingKey.kept_value keeps_cflags rfl u hcollect
  have hldflags : s.ldflags = (ldflagsKey.setIn es).getD [] :=
    SettingKey.kept_value keeps_ldflags rfl u hcollect
  obtain ⟨cc, cflags, ldflags⟩ := s
  dsimp only at hcc hcflags hldflags
  rw [hread, hcc, hcflags, hldflags]
  rfl

/-- The settings of a user's and a project's entries. -/
structure Layered (user project : Entries) (s : ToolchainSettings) : Prop where
  cc : s.cc = (ccKey.setIn project).or (ccKey.setIn user)
  cflags : s.cflags = cflagsKey.layeredOverDefault [] user project
  ldflags : s.ldflags = ldflagsKey.layeredOverDefault [] user project

/-- A list of flags that is empty is not taken over. -/
theorem flags_layered {k : SettingKey (List String)} (hnothing : k.setIn [] = none)
    (user project : Entries) :
    (if ((k.setIn project).getD []).isEmpty then
      if ((k.setIn user).getD []).isEmpty then [] else (k.setIn user).getD []
    else (k.setIn project).getD []) = k.layeredOverDefault [] user project := by
  have huser (fs : List String) : (if fs.isEmpty then [] else fs) = fs := by
    cases fs with
    | nil => rfl
    | cons f fs => rfl
  rw [huser, SettingKey.layeredOverDefault, SettingKey.layered, SettingKey.layered, hnothing,
    Option.none_or]
  rcases k.setIn project with _ | _ | ⟨f, fs⟩
  · simp
  · simp
  · simp

theorem layered_merge (user project : Entries) :
    Layered user project
      ((({} : ToolchainSettings).merge (ofEntries user)).merge (ofEntries project)) where
  cc := by
    show (ccKey.setIn project).or ((ccKey.setIn user).or none) = _
    rw [Option.or_none]
  cflags := flags_layered rfl user project
  ldflags := flags_layered rfl user project

theorem runOn_loadBoth_layered (user project : Path) (env : Environment) (h : Host) :
    ∃ s h', (loadBoth user project).runOn env h = (.ok s, h') ∧ h.OnlyTold h' ∧
      s.Layered (settingsEntries read h.files env.cwd user)
        (settingsEntries read h.files env.cwd project) := by
  have hload (p : Path) (h : Host) : ∃ h', (orWarn p {} (load p)).runOn env h =
      (.ok (ofEntries (settingsEntries read h.files env.cwd p)), h') ∧ h.OnlyTold h' :=
    runOn_orWarn_entries rfl (fun _ _ => eq_ofEntries) (.readingToolchainConfig p)
      (.parsingToolchainConfig p) p env h
  obtain ⟨h', hrun, htold⟩ := runOn_both_told _ (hload user h) fun h₁ htold =>
    htold.files ▸ hload project h₁
  exact ⟨_, h', hrun, htold, layered_merge _ _⟩

end ToolchainSettings

/-! ### Both files -/

/-- Whatever the files are, both kinds of settings come out of them by precedence, and
    nothing happens but that a broken file is complained about. -/
theorem settings_layered (user project : Path) (env : Environment) (h : Host) :
    (∃ s h', (BuildSettings.loadBoth user project).runOn env h = (.ok s, h') ∧ h.OnlyTold h' ∧
      s.Layered (settingsEntries BuildSettings.read h.files env.cwd user)
        (settingsEntries BuildSettings.read h.files env.cwd project)) ∧
    ∃ s h', (ToolchainSettings.loadBoth user project).runOn env h = (.ok s, h') ∧ h.OnlyTold h' ∧
      s.Layered (settingsEntries ToolchainSettings.read h.files env.cwd user)
        (settingsEntries ToolchainSettings.read h.files env.cwd project) :=
  ⟨BuildSettings.runOn_loadBoth_layered user project env h,
    ToolchainSettings.runOn_loadBoth_layered user project env h⟩

namespace Sample

/-- The user's settings want the compile commands and a flag. -/
def userTexts : String × String :=
  ("[build]\nemit_compile_commands = true\n", "[toolchain]\ncflags = ['-O2']\n")

/-- The project's settings want neither. -/
def projectTexts : String × String :=
  ("[build]\nemit_compile_commands = false\n", "[toolchain]\ncflags = []\n")

/-- Both settings of a user and of a project. -/
def disagreeing : FileTree :=
  [(["p"], .dir), (["home"], .dir), (["home", "config.toml"], .file userTexts.1.toUTF8 false),
    (["home", "toolchain.toml"], .file userTexts.2.toUTF8 false), (["p", ".october"], .dir),
    (["p", ".october", "config.toml"], .file projectTexts.1.toUTF8 false),
    (["p", ".october", "toolchain.toml"], .file projectTexts.2.toUTF8 false)].foldl
    (fun t e => t.set e.1 e.2) ∅

theorem settingsEntries_disagreeing {σ : Type} {read : String → Except DocumentFault σ} {p : Path}
    {text : String} {s : σ} {es : Entries}
    (there : disagreeing.readFile [] p = .ok text.toUTF8) (hread : read text = .ok s)
    (hes : Toml.read? text = some es) : settingsEntries read disagreeing [] p = es := by
  simp only [settingsEntries, FileTree.readText_of_readFile there, hread, hes, Option.getD_some]

theorem entries_userTexts :
    settingsEntries BuildSettings.read disagreeing [] ⟨"/home/config.toml"⟩ =
        [("build", .table .header [("emit_compile_commands", .boolean true)])] ∧
      settingsEntries ToolchainSettings.read disagreeing [] ⟨"/home/toolchain.toml"⟩ =
        [("toolchain", .table .header [("cflags", .array [.string "-O2"])])] := by
  constructor
  · exact settingsEntries_disagreeing rfl rfl rfl
  · exact settingsEntries_disagreeing rfl rfl rfl

theorem entries_projectTexts :
    settingsEntries BuildSettings.read disagreeing [] ⟨"/p/.october/config.toml"⟩ =
        [("build", .table .header [("emit_compile_commands", .boolean false)])] ∧
      settingsEntries ToolchainSettings.read disagreeing [] ⟨"/p/.october/toolchain.toml"⟩ =
        [("toolchain", .table .header [("cflags", .array [])])] := by
  constructor
  · exact settingsEntries_disagreeing rfl rfl rfl
  · exact settingsEntries_disagreeing rfl rfl rfl

end Sample

/-- A project sets `emit_compile_commands` to `false` and `cflags` to no flags, and gets what
    the user's files set. -/
theorem settings_default_lost :
    ∃ (s : BuildSettings) (t : ToolchainSettings) (h₁ h₂ : Host),
      (BuildSettings.loadBoth ⟨"/home/config.toml"⟩ ⟨"/p/.october/config.toml"⟩).runOn
        default { files := Sample.disagreeing } = (.ok s, h₁) ∧
      (ToolchainSettings.loadBoth ⟨"/home/toolchain.toml"⟩ ⟨"/p/.october/toolchain.toml"⟩).runOn
        default { files := Sample.disagreeing } = (.ok t, h₂) ∧
      BuildSettings.emitKey.setIn (settingsEntries BuildSettings.read Sample.disagreeing []
        ⟨"/p/.october/config.toml"⟩) = some false ∧ s.emitCompileCommands = true ∧
      ToolchainSettings.cflagsKey.setIn (settingsEntries ToolchainSettings.read Sample.disagreeing []
        ⟨"/p/.october/toolchain.toml"⟩) = some [] ∧ t.cflags = ["-O2"] := by
  obtain ⟨s, h₁, hs, -, hbuild⟩ := BuildSettings.runOn_loadBoth_layered ⟨"/home/config.toml"⟩
    ⟨"/p/.october/config.toml"⟩ default { files := Sample.disagreeing }
  obtain ⟨t, h₂, ht, -, htoolchain⟩ := ToolchainSettings.runOn_loadBoth_layered
    ⟨"/home/toolchain.toml"⟩ ⟨"/p/.october/toolchain.toml"⟩ default
    { files := Sample.disagreeing }
  have hfiles : ({ files := Sample.disagreeing } : Host).files = Sample.disagreeing := rfl
  have hcwd : (default : Environment).cwd = [] := rfl
  have hemit := hbuild.emit
  have hcflags := htoolchain.cflags
  rw [hfiles, hcwd, Sample.entries_userTexts.1, Sample.entries_projectTexts.1] at hemit
  rw [hfiles, hcwd, Sample.entries_userTexts.2, Sample.entries_projectTexts.2] at hcflags
  rw [Sample.entries_projectTexts.1, Sample.entries_projectTexts.2]
  exact ⟨s, t, h₁, h₂, hs, ht, rfl, hemit, rfl, hcflags⟩

end GrammarBuild
