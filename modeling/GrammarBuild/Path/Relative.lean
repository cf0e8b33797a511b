import GrammarBuild.Path.Basic

/-
  GrammarBuild/Path/Relative.lean
  ===============================
  **The way from one directory to a path** — `Path.relativeTo base p` is `p` as it
  is written when one stands in `base`.  Common leading components fall away, each
  further component of the base is left by one `..`, and the rest of the path
  follows.  A `..` left in the base cannot be undone, so there is no relative form
  then and the path stays as it is.
-/

namespace GrammarBuild.Path

/-- The components that lead from `base` to `path`.  `started` holds once a
    component was written; from then on equal components no longer cancel. -/
def route : (started : Bool) → (path base : List Component) → Option (List Component)
  | _, [], [] => some []
  | _, a :: as, [] => some (a :: as)
  | _, [], _ :: bs => (route true [] bs).map (Component.up :: ·)
  | started, a :: as, b :: bs =>
    if started = false ∧ a = b then route false as bs
    else match b with
      | .here => (route true as bs).map (a :: ·)
      | .up => none
      | _ => some (Component.up :: (List.replicate bs.length Component.up ++ (a :: as)))

/-- `p` as seen from `base`; `p` itself where only one of the two is absolute or
    where no relative form exists. -/
def relativeTo (base p : Path) : Path :=
  if p.isAbsolute != base.isAbsolute then p
  else match route false p.components base.components with
    | some cs => ofComponents ⟨""⟩ cs
    | none => p

end GrammarBuild.Path
