import GrammarBuild.Host.Action
import GrammarBuild.Project.Load

/-
  GrammarBuild/Proofs/Actions.lean
  ================================
  **What actions do, step by step** — for every way of making an action one equation
  that says with which result and on which host it ends.  Rewriting with them carries
  an action out on a host that is not known.
-/

namespace GrammarBuild

/-- What a result is made of that came from two steps. -/
theorem bind_eq_ok_iff {ε α β : Type} {x : Except ε α} {f : α → Except ε β} {b : β} :
    (x >>= f) = .ok b ↔ ∃ a, x = .ok a ∧ f a = .ok b := by
  cases x with
  | error e => exact iff_of_false (fun h => nomatch h) (fun ⟨a, ha, _⟩ => nomatch ha)
  | ok a => exact ⟨fun h => ⟨a, rfl, h⟩, fun ⟨a', ha, h⟩ => by cases ha; exact h⟩

theorem isOk_iff {α ε : Type} {r : Except ε α} : r.isOk = true ↔ ∃ a, r = .ok a := by
  cases r with
  | ok a => exact iff_of_true rfl ⟨a, rfl⟩
  | error e => simp [Except.isOk, Except.toBool]

namespace Action

variable {α β : Type} (env : Environment) (h : Host)

/-! ### Putting actions together -/

@[simp]
theorem runOn_pure (a : α) : (pure a : Action α).runOn env h = (.ok a, h) := rfl

/-- The second action starts from the host that the first one leaves, and not at all if
    the first one fails. -/
@[simp]
theorem runOn_bind (x : Action α) (f : α → Action β) :
    (x >>= f).runOn env h =
      match x.runOn env h with
      | (.ok a, h') => (f a).runOn env h'
      | (.error e, h') => (.error e, h') := by
  simp only [runOn, bind, ReaderT.bind, ExceptT.bind, ExceptT.run, ExceptT.mk, StateT.bind]
  rcases x env h with ⟨r, h'⟩
  cases r with
  | ok a => rfl
  | error e => rfl

/-- What an action does after a step that comes out well. -/
theorem runOn_bind_of_ok {env : Environment} {h h₁ : Host} {x : Action α} {f : α → Action β} {a : α}
    (hx : x.runOn env h = (.ok a, h₁)) : (x >>= f).runOn env h = (f a).runOn env h₁ := by
  rw [runOn_bind, hx]

@[simp]
theorem runOn_read : (read : Action Environment).runOn env h = (.ok env, h) := rfl

@[simp]
theorem runOn_throw (e : Failure) : (throw e : Action α).runOn env h = (.error e, h) := rfl

@[simp]
theorem runOn_fail (cause : Cause) : (fail cause : Action α).runOn env h = (.error (.of cause), h) :=
  rfl

@[simp]
theorem runOn_ofExcept (r : Except Failure α) : (ofExcept r).runOn env h = (r, h) := rfl

@[simp]
theorem runOn_ofFault (r : Except HostFault α) :
    (ofFault r).runOn env h = (Failure.lift .host r, h) := rfl

@[simp]
theorem runOn_within (a : Activity) (x : Action α) :
    (within a x).runOn env h = (Failure.within a (x.runOn env h).1, (x.runOn env h).2) := rfl

@[simp]
theorem runOn_attempt (x : Action α) :
    (attempt x).runOn env h = (.ok (x.runOn env h).1, (x.runOn env h).2) := rfl

@[simp]
theorem runOn_ite (p : Prop) [Decidable p] (x y : Action α) :
    (if p then x else y).runOn env h = if p then x.runOn env h else y.runOn env h := by
  split
  · rfl
  · rfl

/-- Actions one after the other that come out well. -/
theorem runOn_bind_ok {env : Environment} {h h₂ : Host} {x : Action α} {f : α → Action β} {b : β}
    (ok : (x >>= f).runOn env h = (.ok b, h₂)) :
    ∃ a h₁, x.runOn env h = (.ok a, h₁) ∧ (f a).runOn env h₁ = (.ok b, h₂) := by
  rw [runOn_bind] at ok
  rcases hx : x.runOn env h with ⟨r, h₁⟩
  rw [hx] at ok
  cases r with
  | error e => cases ok
  | ok a => exact ⟨a, h₁, rfl, ok⟩

/-- Actions one after the other fail where the first one fails or the second one does. -/
theorem runOn_bind_error {env : Environment} {h h' : Host} {e : Failure} {x : Action α} {f : α → Action β}
    (bad : (x >>= f).runOn env h = (.error e, h')) :
    x.runOn env h = (.error e, h') ∨
      ∃ a h₁, x.runOn env h = (.ok a, h₁) ∧ (f a).runOn env h₁ = (.error e, h') := by
  rw [runOn_bind] at bad
  rcases hx : x.runOn env h with ⟨r, h₁⟩
  rw [hx] at bad
  cases r with
  | error e₁ =>
    cases bad
    exact .inl rfl
  | ok a => exact .inr ⟨a, h₁, rfl, bad⟩

/-- Where an action comes out well, it does so in any activity, and the other way round. -/
theorem runOn_within_ok {a : Activity} {x : Action α} {b : α} {env : Environment} {h h' : Host} :
    (within a x).runOn env h = (.ok b, h') ↔ x.runOn env h = (.ok b, h') := by
  rw [runOn_within]
  rcases x.runOn env h with ⟨r, h₁⟩
  cases r with
  | error e => exact ⟨nofun, nofun⟩
  | ok a => exact Iff.rfl

/-! ### Actions that change nothing -/

variable {env h}

/-- Actions that give `r`, then what `g` says, and leave the host alone. -/
theorem runOn_bind_same {x : Action α} {f : α → Action β} {r : Except Failure α}
    {g : α → Except Failure β} (hx : x.runOn env h = (r, h))
    (hf : ∀ a, (f a).runOn env h = (g a, h)) : (x >>= f).runOn env h = (r >>= g, h) := by
  rw [runOn_bind, hx]
  cases r with
  | ok a => exact hf a
  | error e => rfl

/-- A fold of such actions, its states seen through `m`. -/
theorem runOn_foldlM_same {γ : Type} {m : γ → β} {f : β → α → Action β}
    {g : γ → α → Except Failure γ}
    (hf : ∀ c a, (f (m c) a).runOn env h = ((g c a).map m, h)) (l : List α) (c : γ) :
    (l.foldlM f (m c)).runOn env h = ((l.foldlM g c).map m, h) := by
  induction l generalizing c with
  | nil => rfl
  | cons a l ih =>
    rw [List.foldlM_cons, List.foldlM_cons, runOn_bind, hf]
    cases g c a with
    | error e => rfl
    | ok c' => exact ih c'

variable (env h)

/-! ### The host -/

@[simp]
theorem runOn_modify (f : Host → Host) : (modify f : Action Unit).runOn env h = (.ok (), f h) := rfl

@[simp]
theorem runOn_tell (e : Event) :
    (tell e).runOn env h = (.ok (), { h with events := h.events ++ [e] }) := rfl

@[simp]
theorem runOn_log (level : Level) (text : String) :
    (log level text).runOn env h = (.ok (), { h with events := h.events ++ [.log level text] }) := rfl

@[simp]
theorem runOn_look (f : FileTree → Location → α) :
    (look f).runOn env h = (.ok (f h.files env.cwd), h) := rfl

@[simp]
theorem runOn_pathExists (p : Path) :
    (pathExists p).runOn env h = (.ok (h.files.pathExists env.cwd p), h) := rfl

@[simp]
theorem runOn_isDir (p : Path) :
    (isDir p).runOn env h = (.ok (h.files.isDir env.cwd p), h) := rfl

@[simp]
theorem runOn_readText (p : Path) :
    (readText p).runOn env h = (Failure.lift .host (h.files.readText env.cwd p), h) := rfl

/-- A change that fails leaves the files alone. -/
@[simp]
theorem runOn_change (f : FileTree → Location → Except HostFault FileTree) :
    (change f).runOn env h =
      match f h.files env.cwd with
      | .ok t => (.ok (), { h with files := t })
      | .error e => (.error (.of (.host e)), h) := by
  simp only [runOn, change, ExceptT.run, ExceptT.mk, bind, StateT.bind, get, getThe,
    MonadStateOf.get, StateT.get, pure]
  cases f h.files env.cwd with
  | ok t => rfl
  | error e => rfl

@[simp]
theorem runOn_changeWith (f : FileTree → Location → Except HostFault Unit × FileTree) :
    (changeWith f).runOn env h =
      (Failure.lift .host (f h.files env.cwd).1, { h with files := (f h.files env.cwd).2 }) := rfl

/-! ### Processes -/

/-- A process counts as started also where it turns out that it cannot be started. -/
@[simp]
theorem runOn_exec (c : Command) (dir : Option Path) :
    (exec c dir).runOn env h =
      (Failure.within (.spawning c.program) (Failure.lift .host (env.run h.files ⟨c, dir⟩).1),
        { h with events := h.events ++ [.started ⟨c, dir⟩], files := (env.run h.files ⟨c, dir⟩).2 }) :=
  rfl

end Action

/-- A manifest that can be read is parsed for the directory that holds it. -/
theorem Manifest.runOn_load {p : Path} {env : Environment} {h : Host} {text : String}
    (read : h.files.readText env.cwd p = .ok text) :
    (Manifest.load p).runOn env h =
      (Failure.within (.parsingManifest p) (parse text
        ((p.absoluteFrom ⟨env.cwd.text⟩).parent?.getD (p.absoluteFrom ⟨env.cwd.text⟩))), h) := by
  unfold Manifest.load
  rw [Action.runOn_bind, Action.runOn_within, Action.runOn_readText, read]
  rfl

end GrammarBuild
