import GrammarBuild.Proofs.Actions
import GrammarBuild.Proofs.DottedNames
import GrammarBuild.Version

/-
  GrammarBuild/Proofs/Versions.lean
  =================================
  **Which texts are semantic versions** — `Version.Spells` is the grammar: three decimal
  numbers of 64 bits without leading zeros, then a pre-release and build metadata, both of
  them segments joined by dots.  Reading gives a version for exactly the texts that spell
  one, and gives that version (`read_eq_ok_iff`).

  The reader takes parts off the front of a text; each of its steps is described by what it
  takes off and by what the rest may begin with (`number_eq_ok_iff`,
  `optionalSegments_eq_ok_iff`).
-/

namespace GrammarBuild.Version

/-! ### The grammar -/

/-- What digits stand for after digits that stand for `value`. -/
def valueFrom (value : Nat) (ds : List Char) : Nat :=
  ds.foldl (fun n c => 10 * n + (c.toNat - '0'.toNat)) value

/-- A number in decimal: a single zero, or digits that do not begin with one.  It has 64
    bits. -/
structure SpellsNumber (n : Nat) (ds : List Char) : Prop where
  notEmpty : ds ≠ []
  digits : ∀ c ∈ ds, c.isDigit = true
  noLeadingZero : ds.head? = some '0' → ds = ['0']
  value : n = valueFrom 0 ds
  small : n < UInt64.size

/-- A segment of build metadata, `[0-9A-Za-z-]+`. -/
structure BuildSegment (w : List Char) : Prop where
  notEmpty : w ≠ []
  chars : ∀ c ∈ w, c.isAlphanum = true ∨ c = '-'

/-- A segment of a pre-release, which is no number with zeros in front. -/
structure PreReleaseSegment (w : List Char) : Prop extends BuildSegment w where
  noLeadingZero : w.head? = some '0' → (∀ c ∈ w, c.isDigit = true) → w = ['0']

/-- Nothing, or a mark and segments joined by dots. -/
inductive SpellsSegments (mark : Char) (P : List Char → Prop) : String → List Char → Prop where
  | absent : SpellsSegments mark P "" []
  | present {body : List Char} (h : Dotted P body) :
    SpellsSegments mark P (String.ofList body) (mark :: body)

/-- The text of a version. -/
inductive Spells (v : Version) : List Char → Prop where
  | intro {major minor patch preRelease build : List Char} (hmajor : SpellsNumber v.major major)
    (hminor : SpellsNumber v.minor minor) (hpatch : SpellsNumber v.patch patch)
    (hpreRelease : SpellsSegments '-' PreReleaseSegment v.preRelease preRelease)
    (hbuild : SpellsSegments '+' BuildSegment v.build build) :
    Spells v (major ++ '.' :: (minor ++ '.' :: (patch ++ (preRelease ++ build))))

/-! ### Numbers -/

/-- A text that does not go on with a digit. -/
def NoDigit (s : List Char) : Prop := ∀ c, s.head? = some c → c.isDigit = false

@[simp]
theorem valueFrom_nil (value : Nat) : valueFrom value [] = value := rfl

theorem valueFrom_cons (value : Nat) (c : Char) (ds : List Char) :
    valueFrom value (c :: ds) = valueFrom (10 * value + (c.toNat - '0'.toNat)) ds :=
  List.foldl_cons ..

theorem le_valueFrom (value : Nat) (ds : List Char) : value ≤ valueFrom value ds := by
  induction ds generalizing value with
  | nil => exact Nat.le_refl value
  | cons c ds ih =>
    rw [valueFrom_cons]
    exact Nat.le_trans (by omega) (ih _)

/-- Where a text goes on with a digit, that digit is taken. -/
theorem exists_cons_of_digit {c : Char} {s ds r : List Char} (hc : c.isDigit = true)
    (hs : c :: s = ds ++ r) (hr : NoDigit r) : ∃ ds', ds = c :: ds' ∧ s = ds' ++ r := by
  cases ds with
  | nil =>
    rw [List.nil_append] at hs
    rw [hr c (by rw [← hs]; rfl)] at hc
    cases hc
  | cons d ds =>
    rw [List.cons_append, List.cons.injEq] at hs
    exact ⟨ds, by rw [hs.1], hs.2⟩

/-- After a first digit: no more digits after a zero, else as many as 64 bits hold. -/
theorem number_started (part : VersionPart) {value : Nat} (n : Nat) (s r : List Char)
    (hsmall : value < UInt64.size) :
    number part true value s = .ok (n, r) ↔
      ∃ ds, s = ds ++ r ∧ (∀ c ∈ ds, c.isDigit = true) ∧ NoDigit r ∧ (value = 0 → ds = []) ∧
        n = valueFrom value ds ∧ n < UInt64.size := by
  induction s generalizing value with
  | nil =>
    unfold number
    constructor
    · intro h
      cases h
      exact ⟨[], rfl, by simp, by simp [NoDigit], fun _ => rfl, rfl, hsmall⟩
    · rintro ⟨ds, hs, -, -, -, rfl, -⟩
      obtain ⟨rfl, rfl⟩ := List.append_eq_nil_iff.1 hs.symm
      rfl
  | cons c s ih =>
    unfold number
    cases hc : c.isDigit with
    | false =>
      simp only [Bool.false_eq_true, if_false, if_true]
      constructor
      · intro h
        cases h
        refine ⟨[], rfl, by simp, ?_, fun _ => rfl, rfl, hsmall⟩
        intro d hd
        cases hd
        exact hc
      · rintro ⟨ds, hs, hdigits, -, -, rfl, -⟩
        cases ds with
        | nil => rw [List.nil_append] at hs; rw [hs]; rfl
        | cons d ds =>
          rw [List.cons_append, List.cons.injEq] at hs
          rw [hs.1, hdigits d List.mem_cons_self] at hc
          cases hc
    | true =>
      simp only [if_true, true_and]
      by_cases hzero : value = 0
      · rw [if_pos hzero]
        constructor
        · intro h
          cases h
        · rintro ⟨ds, hs, -, hr, hnil, -, -⟩
          obtain ⟨ds', rfl, -⟩ := exists_cons_of_digit hc hs hr
          cases hnil hzero
      rw [if_neg hzero]
      by_cases hlarge : UInt64.size ≤ 10 * value + (c.toNat - '0'.toNat)
      · rw [if_pos hlarge]
        constructor
        · intro h
          cases h
        · rintro ⟨ds, hs, -, hr, -, hn, hsize⟩
          obtain ⟨ds', rfl, -⟩ := exists_cons_of_digit hc hs hr
          rw [valueFrom_cons] at hn
          have hle := le_valueFrom (10 * value + (c.toNat - '0'.toNat)) ds'
          omega
      · rw [if_neg hlarge, ih (by omega)]
        constructor
        · rintro ⟨ds, rfl, hdigits, hr, -, hn, hsize⟩
          exact ⟨c :: ds, rfl, List.forall_mem_cons.2 ⟨hc, hdigits⟩, hr,
            fun h => absurd h hzero, hn, hsize⟩
        · rintro ⟨ds, hs, hdigits, hr, -, hn, hsize⟩
          obtain ⟨ds', rfl, hs'⟩ := exists_cons_of_digit hc hs hr
          refine ⟨ds', hs', (List.forall_mem_cons.1 hdigits).2, hr, fun h => ?_, hn, hsize⟩
          omega

/-- The value of a digit, and which digit is zero. -/
theorem digit_value {c : Char} (hc : c.isDigit = true) :
    c.toNat - '0'.toNat < 10 ∧ (c.toNat - '0'.toNat = 0 ↔ c = '0') := by
  have hle : '0'.toNat ≤ c.toNat ∧ c.toNat ≤ '9'.toNat := by
    simp only [Char.isDigit, Bool.and_eq_true, decide_eq_true_eq] at hc
    exact hc
  have hzero : '0'.toNat = 48 := rfl
  have hnine : '9'.toNat = 57 := rfl
  refine ⟨by omega, fun h => ?_, fun h => by rw [h, Nat.sub_self]⟩
  exact Char.toNat_inj.1 (by omega)

/-- A first digit and those that may follow it. -/
theorem spellsNumber_cons {n : Nat} {c : Char} {ds : List Char} :
    SpellsNumber n (c :: ds) ↔ c.isDigit = true ∧ (∀ d ∈ ds, d.isDigit = true) ∧
      (c.toNat - '0'.toNat = 0 → ds = []) ∧ n = valueFrom (c.toNat - '0'.toNat) ds ∧
      n < UInt64.size := by
  have hvalue : valueFrom 0 (c :: ds) = valueFrom (c.toNat - '0'.toNat) ds := by
    rw [valueFrom_cons, Nat.mul_zero, Nat.zero_add]
  constructor
  · rintro ⟨-, digits, noLeadingZero, value, small⟩
    obtain ⟨hc, hds⟩ := List.forall_mem_cons.1 digits
    refine ⟨hc, hds, fun h => ?_, value.trans hvalue, small⟩
    have hwhole := noLeadingZero (congrArg some ((digit_value hc).2.1 h))
    exact (List.cons.inj hwhole).2
  · rintro ⟨hc, hds, hzero, value, small⟩
    refine ⟨List.cons_ne_nil c ds, List.forall_mem_cons.2 ⟨hc, hds⟩, fun h => ?_,
      value.trans hvalue.symm, small⟩
    obtain rfl : c = '0' := Option.some.inj h
    rw [hzero rfl]

/-- The number in front of a text is all of its digits. -/
theorem number_eq_ok_iff (part : VersionPart) (n : Nat) (s r : List Char) :
    number part false 0 s = .ok (n, r) ↔ ∃ ds, s = ds ++ r ∧ SpellsNumber n ds ∧ NoDigit r := by
  cases s with
  | nil =>
    unfold number
    constructor
    · intro h
      cases h
    · rintro ⟨ds, hs, spells, -⟩
      exact absurd (List.append_eq_nil_iff.1 hs.symm).1 spells.notEmpty
  | cons c s =>
    unfold number
    cases hc : c.isDigit with
    | false =>
      simp only [Bool.false_eq_true, if_false]
      constructor
      · intro h
        cases h
      · rintro ⟨ds, hs, spells, -⟩
        obtain ⟨d, ds, rfl⟩ := List.exists_cons_of_ne_nil spells.notEmpty
        obtain ⟨rfl, -⟩ := List.cons.inj hs
        rw [(spellsNumber_cons.1 spells).1] at hc
        cases hc
    | true =>
      have hsmall : c.toNat - '0'.toNat < UInt64.size :=
        Nat.lt_of_lt_of_le (digit_value hc).1 (by decide)
      simp only [if_true, Bool.false_eq_true, false_and, if_false, Nat.mul_zero, Nat.zero_add]
      rw [if_neg (Nat.not_le.2 hsmall), number_started part n s r hsmall]
      constructor
      · rintro ⟨ds, rfl, hdigits, hr, hzero, value, small⟩
        exact ⟨c :: ds, rfl, spellsNumber_cons.2 ⟨hc, hdigits, hzero, value, small⟩, hr⟩
      · rintro ⟨ds, hs, spells, hr⟩
        obtain ⟨d, ds, rfl⟩ := List.exists_cons_of_ne_nil spells.notEmpty
        obtain ⟨rfl, hs'⟩ := List.cons.inj hs
        obtain ⟨-, hdigits, hzero, value, small⟩ := spellsNumber_cons.1 spells
        exact ⟨ds, hs', hdigits, hr, hzero, value, small⟩

/-! ### Segments -/

/-- What segments and their dots are made of. -/
def IsInside (c : Char) : Prop := (isSegmentChar c || c == '.') = true

/-- A text that does not go on with a segment. -/
def NoInside (s : List Char) : Prop := ∀ c, s.head? = some c → ¬ IsInside c

theorem isSegmentChar_iff (c : Char) : isSegmentChar c = true ↔ c.isAlphanum = true ∨ c = '-' := by
  rw [isSegmentChar, Bool.or_eq_true, beq_iff_eq]

theorem BuildSegment.dotless {w : List Char} (h : BuildSegment w) : '.' ∉ w := by
  intro hdot
  rcases h.chars _ hdot with hc | hc
  · exact absurd hc (by decide)
  · exact absurd hc (by decide)

theorem BuildSegment.inside {w : List Char} (h : BuildSegment w) : ∀ c ∈ w, IsInside c := by
  intro c hc
  rw [IsInside, (isSegmentChar_iff c).2 (h.chars c hc), Bool.true_or]

/-- The segments of a part are those in which the check finds no fault. -/
structure SegmentsOf (part : VersionPart) (P : List Char → Prop) : Prop where
  build : ∀ w, P w → BuildSegment w
  accepted : ∀ w, BuildSegment w → (segmentFault? part w = none ↔ P w)

theorem segmentsOf_build : SegmentsOf .build BuildSegment where
  build _ h := h
  accepted w h := by
    obtain ⟨c, r, rfl⟩ := List.exists_cons_of_ne_nil h.notEmpty
    simp [segmentFault?, h]

theorem segmentsOf_preRelease : SegmentsOf .preRelease PreReleaseSegment where
  build _ h := h.toBuildSegment
  accepted w h := by
    obtain ⟨c, r, rfl⟩ := List.exists_cons_of_ne_nil h.notEmpty
    have hfault : segmentFault? .preRelease (c :: r) = none ↔
        ¬ (c = '0' ∧ r ≠ [] ∧ ∀ d ∈ r, d.isDigit = true) := by
      simp [segmentFault?, List.all_eq_true]
    rw [hfault]
    constructor
    · intro hno
      refine ⟨h, fun hhead hdigits => ?_⟩
      obtain rfl : c = '0' := Option.some.inj hhead
      by_cases hr : r = []
      · rw [hr]
      · exact absurd ⟨rfl, hr, (List.forall_mem_cons.1 hdigits).2⟩ hno
    · rintro ⟨-, hzero⟩ ⟨rfl, hr, hdigits⟩
      have hwhole := hzero rfl (List.forall_mem_cons.2 ⟨by decide, hdigits⟩)
      exact hr (List.cons.inj hwhole).2

theorem IsInside.of_ne_dot {c : Char} (h : IsInside c) (hdot : c ≠ '.') :
    c.isAlphanum = true ∨ c = '-' := by
  rw [IsInside, Bool.or_eq_true, beq_iff_eq, isSegmentChar_iff] at h
  exact h.resolve_right hdot

/-- No piece of a text cut at its separators holds one, and all it holds is in the text. -/
theorem mem_splitOn_inside {s w : List Char} (hs : ∀ c ∈ s, IsInside c)
    (hw : w ∈ List.splitOn '.' s) : ∀ c ∈ w, c.isAlphanum = true ∨ c = '-' := by
  induction s using cut_induction '.' with
  | whole u hu =>
    rw [List.splitOn_eq_singleton hu, List.mem_singleton] at hw
    subst hw
    exact fun c hc => (hs c hc).of_ne_dot fun h => hu (h ▸ hc)
  | cut u r hu ih =>
    rw [List.splitOn_append_cons_self, List.splitOn_eq_singleton hu, List.singleton_append,
      List.mem_cons] at hw
    rcases hw with rfl | hw
    · exact fun c hc => (hs c (List.mem_append_left _ hc)).of_ne_dot fun h => hu (h ▸ hc)
    · exact ih (fun c hc => hs c (List.mem_append_right _ (List.mem_cons_of_mem _ hc))) hw

/-- Where a text stops being of one kind. -/
theorem cut_while {p : Char → Bool} {front rest : List Char} (hfront : ∀ c ∈ front, p c = true)
    (hrest : ∀ c, rest.head? = some c → p c = false) :
    (front ++ rest).takeWhile p = front ∧ (front ++ rest).dropWhile p = rest := by
  rw [List.takeWhile_append_of_pos hfront, List.dropWhile_append_of_pos hfront]
  cases rest with
  | nil => exact ⟨List.append_nil front, rfl⟩
  | cons c rest =>
    have hc := hrest c rfl
    rw [List.takeWhile_cons_of_neg (by rw [hc]; exact Bool.false_ne_true),
      List.dropWhile_cons_of_neg (by rw [hc]; exact Bool.false_ne_true)]
    exact ⟨List.append_nil front, rfl⟩

variable {part : VersionPart} {P : List Char → Prop}

/-- No fault is found in segments of the part's kind joined by dots. -/
theorem SegmentsOf.noFault_iff (of : SegmentsOf part P) {body : List Char}
    (hbody : ∀ c ∈ body, IsInside c) :
    (List.splitOn '.' body).findSome? (segmentFault? part) = none ↔ Dotted P body := by
  rw [List.findSome?_eq_none_iff, dotted_iff (fun w hw => (of.build w hw).dotless)]
  have hpiece (w) (hw : w ∈ List.splitOn '.' body) : segmentFault? part w = none ↔ P w := by
    by_cases hne : w = []
    · subst hne
      refine iff_of_false (by simp [segmentFault?]) (fun h => (of.build [] h).notEmpty rfl)
    · exact of.accepted w ⟨hne, mem_splitOn_inside hbody hw⟩
  exact forall₂_congr hpiece

theorem SegmentsOf.inside (of : SegmentsOf part P) {body : List Char} (h : Dotted P body) :
    ∀ c ∈ body, IsInside c := by
  induction h with
  | single hw => exact (of.build _ hw).inside
  | dot hw _ ih =>
    intro c hc
    rcases List.mem_append.1 hc with hc | hc
    · exact (of.build _ hw).inside c hc
    · rcases List.mem_cons.1 hc with rfl | hc
      · rfl
      · exact ih c hc

/-- Segments are taken off a text as far as its characters allow. -/
theorem SegmentsOf.segments_eq_ok_iff (of : SegmentsOf part P) (text : String) (s r : List Char) :
    segments part s = .ok (text, r) ↔
      ∃ body, s = body ++ r ∧ Dotted P body ∧ text = String.ofList body ∧ NoInside r := by
  have hinside : ∀ c ∈ s.takeWhile fun c => isSegmentChar c || c == '.', IsInside c :=
    fun c hc => List.all_eq_true.1 List.all_takeWhile c hc
  unfold segments
  constructor
  · intro h
    simp only at h
    split at h
    · cases h
    · rename_i hnone
      cases h
      refine ⟨_, List.takeWhile_append_dropWhile.symm, (of.noFault_iff hinside).1 hnone, rfl, ?_⟩
      intro c hc
      have hstop := List.head?_dropWhile_not (fun c => isSegmentChar c || c == '.') s
      rw [hc] at hstop
      simpa [IsInside] using hstop
  · rintro ⟨body, rfl, hbody, rfl, hr⟩
    have hin := of.inside hbody
    obtain ⟨htake, hdrop⟩ := cut_while (p := fun c => isSegmentChar c || c == '.') hin
      (fun c hc => Bool.eq_false_iff.2 (hr c hc))
    simp only
    rw [htake, hdrop, (of.noFault_iff hin).2 hbody]

/-- Where optional segments end: without their mark, or where no segment goes on. -/
def EndsAt (mark : Char) : List Char → List Char → Prop
  | [], r => r.head? ≠ some mark
  | _ :: _, r => NoInside r

theorem SegmentsOf.optionalSegments_eq_ok_iff (of : SegmentsOf part P) (mark : Char)
    (last : VersionPart) (text : String) (s r : List Char) :
    (∃ last', optionalSegments mark part last s = .ok (text, last', r)) ↔
      ∃ front, s = front ++ r ∧ SpellsSegments mark P text front ∧ EndsAt mark front r := by
  constructor
  · rintro ⟨last', h⟩
    unfold optionalSegments at h
    split at h
    · rename_i c s
      split at h
      · rename_i hmark
        cases hseg : segments part s with
        | error e => rw [hseg] at h; cases h
        | ok found =>
          rw [hseg] at h
          cases h
          obtain ⟨body, rfl, hbody, htext, hr⟩ := (of.segments_eq_ok_iff ..).1 hseg
          rw [hmark, htext]
          exact ⟨mark :: body, rfl, .present hbody, hr⟩
      · rename_i hmark
        cases h
        exact ⟨[], rfl, .absent, fun hc => hmark (Option.some.inj hc)⟩
    · cases h
      exact ⟨[], rfl, .absent, fun hc => nomatch hc⟩
  · rintro ⟨front, rfl, spells, ends⟩
    cases spells with
    | absent =>
      refine ⟨last, ?_⟩
      rw [List.nil_append]
      unfold optionalSegments
      cases r with
      | nil => rfl
      | cons c r =>
        have hmark : c ≠ mark := fun h => ends (congrArg some h)
        simp only [hmark, if_false]
        rfl
    | @present body hbody =>
      have hseg := (of.segments_eq_ok_iff (String.ofList body) (body ++ r) r).2
        ⟨body, rfl, hbody, rfl, ends⟩
      refine ⟨part, ?_⟩
      rw [List.cons_append, optionalSegments, if_pos rfl, hseg]
      rfl

/-! ### Versions -/

theorem dot_eq_ok_iff (part : VersionPart) (s r : List Char) : dot part s = .ok r ↔ s = '.' :: r := by
  unfold dot
  constructor
  · intro h
    split at h
    · cases h
      rfl
    · cases h
    · cases h
  · rintro rfl
    rfl

theorem noDigit_cons {c : Char} (hc : c.isDigit = false) (s : List Char) : NoDigit (c :: s) := by
  intro d hd
  cases hd
  exact hc

/-- What follows the three numbers does not begin with a digit. -/
theorem noDigit_segments {P Q : List Char → Prop} {s t : String} {preRelease build : List Char}
    (hpreRelease : SpellsSegments '-' P s preRelease) (hbuild : SpellsSegments '+' Q t build) :
    NoDigit (preRelease ++ build) := by
  cases hpreRelease with
  | present => exact noDigit_cons rfl _
  | absent =>
    cases hbuild with
    | present => exact noDigit_cons rfl _
    | absent => intro c hc; cases hc

/-- Where a pre-release ends there is build metadata or nothing. -/
theorem endsAt_preRelease {P Q : List Char → Prop} {s t : String} {preRelease build : List Char}
    (hpreRelease : SpellsSegments '-' P s preRelease) (hbuild : SpellsSegments '+' Q t build) :
    EndsAt '-' preRelease build := by
  cases hpreRelease with
  | absent =>
    cases hbuild with
    | absent => exact fun h => nomatch h
    | present => exact fun h => absurd (Option.some.inj h) (by decide)
  | present =>
    cases hbuild with
    | absent => intro c hc; cases hc
    | present =>
      intro c hc
      cases hc
      exact Bool.false_ne_true

theorem endsAt_nil (mark : Char) (front : List Char) : EndsAt mark front [] := by
  cases front with
  | nil => exact fun h => nomatch h
  | cons c front => exact fun d hd => nomatch hd

/-- A text is read if all of its parts are, one behind the other, and nothing is left. -/
theorem readChars_eq_ok_iff_steps (s : List Char) (v : Version) :
    readChars s = .ok v ↔ ∃ s₁ s₂ s₃ s₄ s₅ s₆ last,
      number .major false 0 s = .ok (v.major, s₁) ∧ dot .major s₁ = .ok s₂ ∧
      number .minor false 0 s₂ = .ok (v.minor, s₃) ∧ dot .minor s₃ = .ok s₄ ∧
      number .patch false 0 s₄ = .ok (v.patch, s₅) ∧
      optionalSegments '-' .preRelease .patch s₅ = .ok (v.preRelease, last, s₆) ∧
      ∃ last', optionalSegments '+' .build last s₆ = .ok (v.build, last', []) := by
  cases s with
  | nil => exact iff_of_false (fun h => nomatch h) (fun ⟨_, _, _, _, _, _, _, h, _⟩ => nomatch h)
  | cons c s =>
    unfold readChars
    simp only [List.isEmpty_cons, Bool.false_eq_true, if_false, bind_eq_ok_iff, Prod.exists]
    constructor
    · rintro ⟨major, s₁, hmajor, s₂, hdot, minor, s₃, hminor, s₄, hdot', patch, s₅, hpatch,
        preRelease, last, s₆, hpreRelease, build, last', s₇, hbuild, hend⟩
      split at hend
      · cases hend
      · cases hend
        exact ⟨s₁, s₂, s₃, s₄, s₅, s₆, last, hmajor, hdot, hminor, hdot', hpatch, hpreRelease,
          last', hbuild⟩
    · rintro ⟨s₁, s₂, s₃, s₄, s₅, s₆, last, hmajor, hdot, hminor, hdot', hpatch, hpreRelease,
        last', hbuild⟩
      exact ⟨_, s₁, hmajor, s₂, hdot, _, s₃, hminor, s₄, hdot', _, s₅, hpatch, _, last, s₆,
        hpreRelease, _, last', [], hbuild, rfl⟩

/-- Reading gives a version for the texts that spell one, and this version. -/
theorem readChars_eq_ok_iff (s : List Char) (v : Version) : readChars s = .ok v ↔ Spells v s := by
  rw [readChars_eq_ok_iff_steps]
  constructor
  · rintro ⟨s₁, s₂, s₃, s₄, s₅, s₆, last, hmajor, hdot, hminor, hdot', hpatch, hpreRelease, hbuild⟩
    obtain ⟨major, rfl, spellsMajor, -⟩ := (number_eq_ok_iff ..).1 hmajor
    obtain rfl := (dot_eq_ok_iff ..).1 hdot
    obtain ⟨minor, rfl, spellsMinor, -⟩ := (number_eq_ok_iff ..).1 hminor
    obtain rfl := (dot_eq_ok_iff ..).1 hdot'
    obtain ⟨patch, rfl, spellsPatch, -⟩ := (number_eq_ok_iff ..).1 hpatch
    obtain ⟨preRelease, rfl, spellsPreRelease, -⟩ :=
      (segmentsOf_preRelease.optionalSegments_eq_ok_iff ..).1 ⟨last, hpreRelease⟩
    obtain ⟨build, rfl, spellsBuild, -⟩ :=
      (segmentsOf_build.optionalSegments_eq_ok_iff ..).1 hbuild
    rw [List.append_nil]
    exact .intro spellsMajor spellsMinor spellsPatch spellsPreRelease spellsBuild
  · rintro ⟨hmajor, hminor, hpatch, hpreRelease, hbuild⟩
    obtain ⟨last, hpreRelease'⟩ :=
      (segmentsOf_preRelease.optionalSegments_eq_ok_iff '-' .patch _ _ _).2
        ⟨_, rfl, hpreRelease, endsAt_preRelease hpreRelease hbuild⟩
    have hbuild' := (segmentsOf_build.optionalSegments_eq_ok_iff '+' last _ _ _).2
      ⟨_, (List.append_nil _).symm, hbuild, endsAt_nil '+' _⟩
    exact ⟨_, _, _, _, _, _, last,
      (number_eq_ok_iff ..).2 ⟨_, rfl, hmajor, noDigit_cons rfl _⟩, rfl,
      (number_eq_ok_iff ..).2 ⟨_, rfl, hminor, noDigit_cons rfl _⟩, rfl,
      (number_eq_ok_iff ..).2 ⟨_, rfl, hpatch, noDigit_segments hpreRelease hbuild⟩,
      hpreRelease', hbuild'⟩

/-- A version is read from exactly the texts that spell it. -/
theorem read_eq_ok_iff (text : String) (v : Version) : read text = .ok v ↔ v.Spells text.toList :=
  readChars_eq_ok_iff text.toList v

end GrammarBuild.Version
