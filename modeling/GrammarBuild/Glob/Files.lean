import GrammarBuild.Glob.Pattern
import GrammarBuild.Host.Action

/-
  GrammarBuild/Glob/Files.lean
  ============================
  **Files that match a pattern** — a pattern is cut at its slashes and matched
  directory by directory.  A part without wildcards is looked up; a part with
  wildcards is matched against the names in the directory; `**` is matched by the
  directory itself and by everything below it.

  `FileTree.globFiles` gives the regular files that match any of some patterns,
  sorted as paths and without repetitions.
-/

namespace GrammarBuild

namespace Glob

/-- A path on the way, and whether it leads to a directory. -/
structure Found where
  path : Path
  isDir : Bool

def found (t : FileTree) (cwd : Location) (p : Path) : Found := ⟨p, t.isDir cwd p⟩

def isHere (p : Path) : Bool := p.components == [.here]

/-- The path of a name seen from a path on the way. -/
def next (p : Path) (name : String) : Path := if isHere p then ⟨name⟩ else p.child name

/-- What there is in a directory. -/
def children (t : FileTree) (cwd : Location) (p : Path) : List Found :=
  match t.resolve cwd p with
  | .ok l => (t.names l).map fun n => found t cwd (next p n)
  | .error _ => []

/-- The special names that a pattern with a leading dot may match. -/
def specialNames (p : Pattern) : List String :=
  if p.head? = some (.char '.') then ["..", "."].filter p.matchesName else []

mutual

/-- What the parts of a pattern match below a path.  `fuel` bounds the number of
    steps along the path. -/
def below (t : FileTree) (cwd : Location) : (fuel : Nat) → List Pattern → Found → List Found
  | 0, _, _ => []
  | _, [], _ => []
  | fuel + 1, p :: ps, here =>
    match p.literal? with
    | some name =>
      let there := found t cwd (next here.path name)
      let isThere :=
        if name = "." ∨ name = ".." then here.isDir else t.pathExists cwd there.path
      if isThere then past t cwd fuel ps there else []
    | none =>
      if here.isDir then
        (specialNames p).flatMap (fun n => past t cwd fuel ps (found t cwd (here.path.child n)))
          ++ (children t cwd here.path).flatMap (candidate t cwd fuel (p :: ps))
      else []

/-- A path that a part has matched: a result if no part is left. -/
def past (t : FileTree) (cwd : Location) : (fuel : Nat) → List Pattern → Found → List Found
  | 0, _, _ => []
  | _, [], there => [there]
  | fuel + 1, ps, there => below t cwd fuel ps there

/-- What the parts match at or below a path in a directory. -/
def candidate (t : FileTree) (cwd : Location) :
    (fuel : Nat) → List Pattern → Found → List Found
  | 0, _, _ => []
  | _, [], _ => []
  | fuel + 1, p :: ps, here =>
    if p.isDirs then
      let rest := ps.dropWhile Pattern.isDirs
      let deeper := if here.isDir then below t cwd fuel (p :: rest) here else []
      if rest.isEmpty then (if here.isDir then here :: deeper else [])
      else named t cwd fuel rest here ++ deeper
    else named t cwd fuel (p :: ps) here

/-- What the parts match when the first of them is matched against a path's name. -/
def named (t : FileTree) (cwd : Location) : (fuel : Nat) → List Pattern → Found → List Found
  | 0, _, _ => []
  | _, [], _ => []
  | fuel + 1, p :: ps, here =>
    match here.path.fileName? with
    | some name => if p.matchesName name then past t cwd fuel ps here else []
    | none => []

end

/-- The parts between slashes; a slash at the end adds none. -/
def partsOf (s : List Char) : List (List Char) :=
  let parts := List.splitOn '/' s
  if parts.getLast? = some [] then parts.dropLast else parts

/-- All paths that match a pattern.  One that ends in a slash matches directories
    only. -/
def paths (t : FileTree) (cwd : Location) (pattern : String) :
    Except Pattern.Fault (List Path) := do
  let s := pattern.toList
  let _ ← Pattern.read s
  let (start, rest) := match s with
    | '/' :: _ => ("/", s.dropWhile (· = '/'))
    | _ => (".", s)
  let parts ← (partsOf rest).mapM Pattern.read
  let parts := if rest.isEmpty then parts ++ [[]] else parts
  let fuel := 4 * (parts.length + 1) * (t.toList.length + 2)
  let all := below t cwd fuel parts (found t cwd ⟨start⟩)
  pure ((if s.getLast? = some '/' then all.filter Found.isDir else all).map Found.path)

/-- A sorted list with one path of each run that compares equal. -/
def dropRepeated : List Path → List Path
  | p :: q :: r => if compare p q = .eq then dropRepeated (p :: r) else p :: dropRepeated (q :: r)
  | ps => ps
termination_by ps => ps.length

/-- The files below `base` that match any of the patterns. -/
def files (t : FileTree) (cwd : Location) (base : Path) (patterns : List String) :
    Except Failure (List Path) := do
  let all ← patterns.mapM fun pattern =>
    Failure.within (.matching pattern)
      (Failure.lift (fun (i, f) => .pattern i f) (paths t cwd (base.child pattern).text))
  let found := all.flatten.filter (t.isFile cwd)
  pure (dropRepeated (found.mergeSort fun p q => compare p q != .gt))

end Glob

/-- The files below `base` that match any of the patterns. -/
def Action.globFiles (base : Path) (patterns : List String) : Action (List Path) := do
  Action.ofExcept (← Action.look fun t cwd => Glob.files t cwd base patterns)

end GrammarBuild
