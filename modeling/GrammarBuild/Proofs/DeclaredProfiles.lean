import GrammarBuild.Proofs.Declarations
import GrammarBuild.Proofs.Precedence

/-
  GrammarBuild/Proofs/DeclaredProfiles.lean
  =========================================
  **Profiles as a document declares them** — a manifest has the profiles `debug` and
  `release` and those that its document has a section for.  Each of them is the built-in
  profile of its name with the fields exchanged that its own section gives, and no other
  section matters (`Manifest.profiles_declared`).

  A section is found by its name.  Since no document gives a key twice, what is read of the
  sections holds for each name what is read of its one section (`filter_of_entries`), and the
  fields of the section are put over those of the base one by one (`Profile.Overlays`).
-/

namespace GrammarBuild

open Toml Decoder

/-! ### Sorted keys -/

namespace Table

theorem mem_keys_iff {α β : Type} [Ord α] [Std.LawfulEqOrd α] {t : Table α β} {k : α} :
    k ∈ t.keys ↔ (t.get? k).isSome = true := by
  have hlookup (es : List (α × β)) : k ∈ es.map Prod.fst ↔ (lookup k es).isSome = true := by
    induction es with
    | nil => simp [lookup]
    | cons e es ih =>
      rw [List.map_cons, List.mem_cons, ih, lookup]
      by_cases hk : k = e.1
      · simp [hk]
      · have hne : compare k e.1 ≠ .eq := fun h => hk (Std.LawfulEqOrd.eq_of_compare h)
        simp [hk, hne]
  exact hlookup t.entries

theorem keys_ascending {β : Type} (t : Table String β) : t.keys.Pairwise (· < ·) := by
  rw [keys, List.pairwise_map]
  exact t.sorted.imp compareOfLessAndEq_eq_lt.1

end Table

/-! ### The sections of a document -/

/-- The sections of a document that declare profiles, by their names. -/
def Toml.Entries.profileSections (es : Entries) : Entries :=
  match es.get? "profile" with
  | some (.table _ sections) => sections
  | _ => []

variable {es sections : Entries} {name text : String} {dir : Path} {m : Manifest} {d : Declaration}

/-- A document has a profile that is built in and any that it has a section for. -/
def Toml.Entries.HasProfile (es : Entries) (name : String) : Prop :=
  name = "debug" ∨ name = "release" ∨ (es.profileSections.get? name).isSome = true

theorem Toml.Entries.Unambiguous.profileSections (u : es.Unambiguous) :
    es.profileSections.Unambiguous := by
  unfold Entries.profileSections
  split
  · rename_i hget
    exact Entries.of_table (u.value hget)
  · exact Entries.unambiguous_nil

/-- What is read of the entries of a table under a name: what the one entry holds, if there
    is one. -/
theorem filter_of_entries {α : Type} {item : Decoder α} {origin : Origin}
    {os : List (String × α)} (keys : (sections.map Prod.fst).Nodup)
    (h : entries item (.table origin sections) = .ok os) (name : String) :
    (sections.get? name = none ∧ os.filter (fun o => o.1 == name) = []) ∨
      ∃ v x, sections.get? name = some v ∧ item v = .ok x ∧
        os.filter (fun o => o.1 == name) = [(name, x)] := by
  simp only [entries] at h
  induction sections generalizing os with
  | nil =>
    cases h
    exact .inl ⟨rfl, rfl⟩
  | cons e sections ih =>
    obtain ⟨key, v⟩ := e
    obtain ⟨hnew, keys⟩ := List.nodup_cons.1 keys
    rw [List.mapM_cons] at h
    obtain ⟨o, ho, h⟩ := bind_eq_ok_iff.1 h
    obtain ⟨os', hos, h⟩ := bind_eq_ok_iff.1 h
    cases h
    cases hv : item v with
    | error e =>
      rw [hv] at ho
      cases ho
    | ok x =>
      rw [hv] at ho
      cases ho
      by_cases hkey : key = name
      · -- the name is not taken again by a later entry
        subst hkey
        rcases ih keys hos with ⟨-, hrest⟩ | ⟨w, -, hget, -⟩
        · exact .inr ⟨v, x, by simp [Entries.get?], hv, by simp [hrest]⟩
        · rw [Entries.get?_eq_none.2 hnew] at hget
          cases hget
      · have hget : Entries.get? ((key, v) :: sections) name = Entries.get? sections name := by
          simp [Entries.get?, hkey]
        rw [hget, List.filter_cons_of_neg (by simpa using hkey)]
        exact ih keys hos

/-! ### One section -/

namespace Toml.Decoder

variable {α β : Type} {decode : Decoder α} {put : α → β} {found : Option Value}

theorem Took.unique {before after after' : β} (h : Took decode put found before after)
    (h' : Took decode put found before after') : after = after' := h.elim.trans h'.elim.symm

/-- A field that may be given, over what holds if it is not. -/
theorem Took.getD {given : Option α} (h : Took decode some found none given) (base : α) :
    Took decode id found base (given.getD base) := by
  cases found with
  | none =>
    cases h
    rfl
  | some v =>
    obtain ⟨x, hx, rfl⟩ := h
    exact ⟨x, hx, rfl⟩

end Toml.Decoder

namespace ProfileOverride

theorem keeps_optLevel : Keeps "opt_level" level (·.optLevel) some 0 fields := by
  refine .here (fun _ _ => rfl) (List.forall_mem_cons.2 ⟨⟨by decide, ?_⟩, ?_⟩)
  · exact spares_field fun _ _ => rfl
  · exact List.forall_mem_singleton.2 ⟨by decide, spares_field fun _ _ => rfl⟩

theorem keeps_debug : Keeps "debug" boolean (·.debug) some 1 fields := by
  refine .there ⟨by decide, spares_field fun _ _ => rfl⟩ (.here (fun _ _ => rfl) ?_)
  exact List.forall_mem_singleton.2 ⟨by decide, spares_field fun _ _ => rfl⟩

theorem keeps_cflags : Keeps "cflags" texts (·.cflags) some 2 fields := by
  refine .there ⟨by decide, spares_field fun _ _ => rfl⟩ ?_
  refine .there ⟨by decide, spares_field fun _ _ => rfl⟩ ?_
  exact .here (fun _ _ => rfl) fun _ h => (List.not_mem_nil h).elim

end ProfileOverride

namespace Profile

/-- A profile is another one with those fields exchanged that a section, if there is one,
    gives. -/
structure Overlays (p base : Profile) (said : Option Value) : Prop where
  optLevel : Took ProfileOverride.level id (said.bind (Value.member? "opt_level" 0)) base.optLevel
    p.optLevel
  debug : Took boolean id (said.bind (Value.member? "debug" 1)) base.debug p.debug
  cflags : Took texts id (said.bind (Value.member? "cflags" 2)) base.cflags p.cflags

theorem Overlays.unique {p q base : Profile} {said : Option Value} (hp : p.Overlays base said)
    (hq : q.Overlays base said) : p = q := by
  obtain ⟨level, debug, cflags⟩ := p
  obtain ⟨level', debug', cflags'⟩ := q
  obtain rfl : level = level' := hp.optLevel.unique hq.optLevel
  obtain rfl : debug = debug' := hp.debug.unique hq.debug
  obtain rfl : cflags = cflags' := hp.cflags.unique hq.cflags
  rfl

theorem overlays_none (base : Profile) : base.Overlays base none := ⟨rfl, rfl, rfl⟩

theorem overlays_override {v : Value} {o : ProfileOverride} (u : v.Unambiguous)
    (h : ProfileOverride.decode v = .ok o) (base : Profile) :
    (base.override o).Overlays base (some v) where
  optLevel := (ProfileOverride.keeps_optLevel.record u h).getD base.optLevel
  debug := (ProfileOverride.keeps_debug.record u h).getD base.debug
  cflags := (ProfileOverride.keeps_cflags.record u h).getD base.cflags

end Profile

/-! ### All sections -/

/-- What a document makes of the name of a profile: nothing, or the profile that its section
    makes of the built-in one. -/
inductive Toml.Entries.Declares (es : Entries) (name : String) : Option Profile → Prop where
  | missing (missing : ¬ es.HasProfile name) : Declares es name none
  | found {p : Profile} (there : es.HasProfile name)
    (overlays : p.Overlays ((Profile.builtin? name).getD .debugDefault)
      (es.profileSections.get? name)) : Declares es name (some p)

namespace Toml.Entries.Declares

variable {es' : Entries} {x y : Option Profile}

theorem isSome_iff (h : es.Declares name x) : x.isSome = true ↔ es.HasProfile name := by
  cases h with
  | missing missing => exact iff_of_false Bool.false_ne_true missing
  | found there => exact iff_of_true rfl there

/-- Only the section of the name matters. -/
theorem congr (h : es.Declares name x) (h' : es'.Declares name y)
    (same : es'.profileSections.get? name = es.profileSections.get? name) : y = x := by
  have hthere : es'.HasProfile name ↔ es.HasProfile name := by
    rw [HasProfile, HasProfile, same]
  cases h with
  | missing missing =>
    cases h' with
    | missing => rfl
    | found there => exact absurd (hthere.1 there) missing
  | found there overlays =>
    cases h' with
    | missing missing => exact absurd (hthere.2 there) missing
    | found _ overlays' =>
      rw [same] at overlays'
      rw [overlays'.unique overlays]

end Toml.Entries.Declares

/-- What a declaration says of profiles is read of the sections of its document. -/
theorem Declaration.profiles_of_read (h : Declaration.read text = .ok d) :
    ∃ es, Toml.read? text = some es ∧ es.Unambiguous ∧
      Took (entries ProfileOverride.decode) id (es.get? "profile") [] d.profiles := by
  have hkeeps : Keeps "profile" (entries ProfileOverride.decode) Draft.profiles id 2 fields := by
    refine .there ⟨by decide, spares_field fun _ _ => rfl⟩ ?_
    refine .there ⟨by decide, spares_field fun _ _ => rfl⟩ ?_
    exact .here (fun _ _ => rfl) fun _ h => (List.not_mem_nil h).elim
  unfold Declaration.read at h
  cases hread : Toml.read? text with
  | none =>
    rw [hread] at h
    cases h
  | some es =>
    rw [hread] at h
    have u := read?_unambiguous hread
    cases hd : ofEntries es with
    | error e =>
      simp only [hd] at h
      cases h
    | ok d' =>
      simp only [hd] at h
      cases h
      obtain ⟨draft, hdraft, hrest⟩ := bind_eq_ok_iff.1 hd
      obtain ⟨package, -, hrest⟩ := bind_eq_ok_iff.1 hrest
      cases hrest
      exact ⟨es, rfl, u, hkeeps.collect u.keys hdraft⟩

/-- Where a document has no section for a profile, nothing is read for it, and otherwise what
    the section holds. -/
theorem Declaration.filter_profiles {os : List (String × ProfileOverride)} (u : es.Unambiguous)
    (took : Took (entries ProfileOverride.decode) id (es.get? "profile") [] os) (name : String) :
    (es.profileSections.get? name = none ∧ os.filter (fun o => o.1 == name) = []) ∨
      ∃ v o, es.profileSections.get? name = some v ∧ ProfileOverride.decode v = .ok o ∧
        os.filter (fun o => o.1 == name) = [(name, o)] := by
  unfold Entries.profileSections
  cases hget : es.get? "profile" with
  | none =>
    rw [hget] at took
    cases took
    exact .inl ⟨rfl, rfl⟩
  | some v =>
    rw [hget] at took
    obtain ⟨os', hos, rfl⟩ := took
    cases v with
    | table origin sections => exact filter_of_entries (Entries.of_table (u.value hget)).keys hos name
    | datetime s => cases hos
    | string s => cases hos
    | integer n => cases hos
    | float x => cases hos
    | boolean b => cases hos
    | array vs => cases hos
    | tables ts => cases hos

namespace Manifest

/-- The profiles of a manifest that was parsed are those of a declaration that was read. -/
theorem profiles_of_parse (h : parse text dir = .ok m) :
    ∃ d, Declaration.read text = .ok d ∧ m.profiles = profilesOf d.profiles := by
  obtain ⟨d, hd⟩ : ∃ d, Declaration.read text = .ok d := by
    unfold parse at h
    cases hd : Declaration.read text with
    | error e =>
      rw [hd] at h
      cases h
    | ok d => exact ⟨d, rfl⟩
  rw [parse_of_read hd] at h
  obtain ⟨-, accepts⟩ | ⟨e, -, refuses⟩ := ofDeclaration_cases d dir
  · rw [accepts] at h
    cases h
    exact ⟨d, hd, rfl⟩
  · rw [refuses] at h
    cases h

/-- What is looked up among the profiles is what the document makes of the name. -/
theorem declares_profilesOf {os : List (String × ProfileOverride)} (u : es.Unambiguous)
    (took : Took (entries ProfileOverride.decode) id (es.get? "profile") [] os) (name : String) :
    es.Declares name ((profilesOf os).get? name) := by
  rw [get?_profilesOf]
  rcases Declaration.filter_profiles u took name with ⟨hget, hos⟩ | ⟨v, o, hget, ho, hos⟩
  · rw [hos]
    have hbuiltin (p : Profile) (there : es.HasProfile name) (h : Profile.builtin? name = some p) :
        es.Declares name (some p) := by
      refine .found there ?_
      rw [h, hget]
      exact Profile.overlays_none p
    by_cases hdebug : name = "debug"
    · subst hdebug
      exact hbuiltin _ (.inl rfl) rfl
    · by_cases hrelease : name = "release"
      · subst hrelease
        exact hbuiltin _ (.inr (.inl rfl)) rfl
      · rw [if_neg hdebug, if_neg hrelease]
        exact .missing (by simp [Entries.HasProfile, hdebug, hrelease, hget])
  · rw [hos]
    refine .found (.inr (.inr (by rw [hget]; rfl))) ?_
    rw [hget]
    exact Profile.overlays_override (u.profileSections.value hget) ho _

theorem declares_of_parse (h : parse text dir = .ok m) :
    ∃ es, Toml.read? text = some es ∧ ∀ name, es.Declares name (m.profiles.get? name) := by
  obtain ⟨d, hd, hprofiles⟩ := profiles_of_parse h
  obtain ⟨es, hread, u, took⟩ := Declaration.profiles_of_read hd
  rw [hprofiles]
  exact ⟨es, hread, declares_profilesOf u took⟩

/-! ### The look-up -/

theorem profile_eq_ok_iff {p : Profile} : m.profile name = .ok p ↔ m.profiles.get? name = some p := by
  unfold profile
  cases m.profiles.get? name with
  | none => simp
  | some q => simp

theorem profile_error {e : Failure} (h : m.profile name = .error e) :
    e = .of (.unknownProfile name m.profiles.keys) := by
  unfold profile at h
  cases hget : m.profiles.get? name with
  | none =>
    rw [hget] at h
    cases h
    rfl
  | some p =>
    rw [hget] at h
    cases h

/-- **A manifest has the profiles that its document declares.**  A name leads to a profile
    exactly if it is `debug`, `release` or has a section; the profile has what its own
    section gives, field by field, and else what the built-in profile of its name has, so
    that two documents with the same section for a name agree on its profile.  For any other
    name the failure tells the names that are there, each once and in order. -/
theorem profiles_declared (h : parse text dir = .ok m) :
    ∃ es, Toml.read? text = some es ∧ ∀ name,
      ((∃ p, m.profile name = .ok p) ↔ es.HasProfile name) ∧
      (∀ p, m.profile name = .ok p →
        p.Overlays ((Profile.builtin? name).getD .debugDefault) (es.profileSections.get? name)) ∧
      (∀ e, m.profile name = .error e → ∃ names, names.Pairwise (· < ·) ∧
        (∀ n, n ∈ names ↔ es.HasProfile n) ∧ e.message =
          "unknown profile `" ++ name ++ "`\navailable profiles: " ++ String.intercalate ", " names) ∧
      ∀ text' dir' m' es', parse text' dir' = .ok m' → Toml.read? text' = some es' →
        es'.profileSections.get? name = es.profileSections.get? name →
          ∀ p, m.profile name = .ok p → m'.profile name = .ok p := by
  obtain ⟨es, hread, declares⟩ := declares_of_parse h
  refine ⟨es, hread, fun name => ⟨?_, ?_, ?_, ?_⟩⟩
  · simp only [profile_eq_ok_iff]
    rw [← Option.isSome_iff_exists, (declares name).isSome_iff]
  · intro p hp
    have hname := declares name
    rw [profile_eq_ok_iff.1 hp] at hname
    cases hname with
    | found _ overlays => exact overlays
  · intro e he
    obtain rfl := profile_error he
    refine ⟨m.profiles.keys, m.profiles.keys_ascending, fun n => ?_, rfl⟩
    rw [Table.mem_keys_iff, (declares n).isSome_iff]
  · intro text' dir' m' es' h' hread' same p hp
    obtain ⟨es'', hread'', declares'⟩ := declares_of_parse h'
    obtain rfl : es' = es'' := Option.some.inj (hread'.symm.trans hread'')
    rw [profile_eq_ok_iff] at hp ⊢
    rw [(declares name).congr (declares' name) same, hp]

end Manifest

namespace Sample

def profilesManifest : Manifest :=
  { manifest with
    targets := [targetA]
    profiles := Manifest.profilesOf
      [("release", { optLevel := some "3" }), ("size", { optLevel := some "s", debug := some false })] }

/-- A section for a built-in profile and one for a profile that is not built in. -/
def profilesLines : List Toml.PlainLine :=
  profilesManifest.package.lines ++ targetA.lines ++
    [.tableIn "profile" "release", .pair "opt_level" (.text "3"),
     .tableIn "profile" "size", .pair "opt_level" (.text "s"),
     .pair "debug" (.written "false".toList (.boolean false) ⟨fun _ => rfl, fun _ => rfl⟩)]

def profilesText : String := Toml.PlainLine.text profilesLines

def profilesEntries : Entries :=
  [("package", .table .header [("name", .string "x"), ("version", .string "0.1.0")]),
    ("extension", .tables [[("name", .string "a"), ("sources", .array [.string "a.c"]),
      ("include_dirs", .array [.string "inc"])]]),
    ("profile", .table .implied [("release", .table .header [("opt_level", .string "3")]),
      ("size", .table .header [("opt_level", .string "s"), ("debug", .boolean false)])])]

theorem readable_profilesLines : ∀ l ∈ profilesLines, l.Readable := by decide

theorem read_profilesText : Toml.read? profilesText = some profilesEntries :=
  Toml.PlainLine.read?_text readable_profilesLines

theorem parse_profilesText : Manifest.parse profilesText ⟨"/p"⟩ = .ok profilesManifest := by
  have hread : Declaration.read profilesText = .ok ⟨profilesManifest.package, [targetA],
      [("release", { optLevel := some "3" }),
        ("size", { optLevel := some "s", debug := some false })]⟩ :=
    Declaration.read_text readable_profilesLines rfl rfl
  rw [Manifest.parse_of_read hread]
  rfl

end Sample

/-- The profile `size` has the flags of the debug profile, for which its section gives none;
    of `bench` it is told that there are others, `size` among them. -/
theorem Manifest.profiles_declared_size :
    Manifest.parse Sample.profilesText ⟨"/p"⟩ = .ok Sample.profilesManifest ∧
      Sample.profilesManifest.profile "size" = .ok ⟨"s", false, []⟩ ∧
      ∃ e names, Sample.profilesManifest.profile "bench" = .error e ∧ "size" ∈ names ∧
        e.message = "unknown profile `" ++ "bench" ++ "`\navailable profiles: " ++
          String.intercalate ", " names := by
  obtain ⟨es, hread, declared⟩ := Manifest.profiles_declared Sample.parse_profilesText
  obtain rfl : Sample.profilesEntries = es :=
    Option.some.inj (Sample.read_profilesText.symm.trans hread)
  have hsize : Sample.profilesEntries.HasProfile "size" := .inr (.inr rfl)
  refine ⟨Sample.parse_profilesText, ?_, ?_⟩
  · obtain ⟨p, hp⟩ := (declared "size").1.2 hsize
    have hsection : (⟨"s", false, []⟩ : Profile).Overlays .debugDefault
        (Sample.profilesEntries.profileSections.get? "size") :=
      ⟨⟨_, rfl, rfl⟩, ⟨_, rfl, rfl⟩, rfl⟩
    rw [hp, ((declared "size").2.1 p hp).unique hsection]
  · cases hbench : Sample.profilesManifest.profile "bench" with
    | ok p =>
      have hnone : ¬ Sample.profilesEntries.HasProfile "bench" := by
        rintro (h | h | h)
        · simp at h
        · simp at h
        · cases h
      exact absurd ((declared "bench").1.1 ⟨p, hbench⟩) hnone
    | error e =>
      obtain ⟨names, -, hnames, message⟩ := (declared "bench").2.2.1 e hbench
      exact ⟨e, names, rfl, (hnames "size").2 hsize, message⟩

end GrammarBuild
