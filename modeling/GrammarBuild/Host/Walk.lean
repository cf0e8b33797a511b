import GrammarBuild.Host.Fault
import GrammarBuild.Host.FileTree
import GrammarBuild.Path.Basic

/-
  GrammarBuild/Host/Walk.lean
  ===========================
  **Finding files by path** — the host takes a path apart at its slashes and goes from
  directory to directory, starting at the root or at the working directory.

  Here, unlike in `Path.components`, a `.` and a slash at the end of a path count:
  what stands before them must be a directory.

  A walk carries the trees it came through (`Standpoint`), so each of its steps is one
  look-up; `walk_eq_foldlM` says that it goes from location to location.
-/

namespace GrammarBuild.FileTree

/-- The longest name and the longest path that the host takes, in bytes. -/
def nameLimit : Nat := 255
def pathLimit : Nat := 4095

/-- The names between a path's slashes. -/
def stepsOf (p : Path) : List String :=
  ((List.splitOn '/' p.text.toList).filter (· ≠ [])).map String.ofList

def endsInSlash (p : Path) : Bool := p.text.toList.getLast? == some '/'

/-- Whether the host takes the text as a path at all. -/
def checkText (p : Path) : Except HostFault Unit :=
  if p.text.toList.contains '\x00' then .error .zeroInName
  else if p.text.isEmpty then .error .notFound
  else if pathLimit < p.text.utf8ByteSize then .error .nameTooLong
  else .ok ()

/-- One step from a location, which must be a directory, to one that exists. -/
def stepFrom (t : FileTree) (l : Location) (name : String) : Except HostFault Location :=
  if !t.isDirAt l then .error .notDirectory
  else if name = "." then .ok l
  else if name = ".." then .ok l.dropLast
  else if nameLimit < name.utf8ByteSize then .error .nameTooLong
  else
    match t.node? (l ++ [name]) with
    | some _ => .ok (l ++ [name])
    | none => .error .notFound

/-! ### Standpoints -/

/-- Where a walk stands: the tree below, and on the way back to the root each name with
    the tree that it was found in. -/
structure Standpoint where
  below : FileTree
  back : List (String × FileTree)

namespace Standpoint

/-- One name further, whether anything is there or not. -/
def enter (s : Standpoint) (name : String) : Standpoint :=
  ⟨s.below.branch name, (name, s.below) :: s.back⟩

/-- One name back.  There is nothing above the root. -/
def leave : Standpoint → Standpoint
  | ⟨t, []⟩ => ⟨t, []⟩
  | ⟨_, (_, t) :: back⟩ => ⟨t, back⟩

/-- The standpoint at a location. -/
def ofLocation (t : FileTree) (l : Location) : Standpoint := l.foldl enter ⟨t, []⟩

def location (s : Standpoint) : Location := (s.back.map Prod.fst).reverse

def isDir (s : Standpoint) : Bool := s.back.isEmpty || s.below.here.any Node.isDir

/-- One step of a walk, by the rules of `stepFrom`. -/
def step (s : Standpoint) (name : String) : Except HostFault Standpoint :=
  if !s.isDir then .error .notDirectory
  else if name = "." then .ok s
  else if name = ".." then .ok s.leave
  else if nameLimit < name.utf8ByteSize then .error .nameTooLong
  else if (s.enter name).below.here.isSome then .ok (s.enter name)
  else .error .notFound

theorem ofLocation_append_singleton (t : FileTree) (l : Location) (name : String) :
    ofLocation t (l ++ [name]) = (ofLocation t l).enter name := by
  simp [ofLocation]

theorem location_enter (s : Standpoint) (name : String) :
    (s.enter name).location = s.location ++ [name] := by
  simp [location, enter]

/-- The standpoint at a location is there. -/
@[simp]
theorem location_ofLocation (t : FileTree) (l : Location) : (ofLocation t l).location = l := by
  have go (s : Standpoint) : (l.foldl enter s).location = s.location ++ l := by
    induction l generalizing s with
    | nil => simp
    | cons name l ih => simp [ih, location_enter]
  simpa [location, ofLocation] using go ⟨t, []⟩

/-- Below the standpoint at a location is the tree below that location. -/
@[simp]
theorem below_ofLocation (t : FileTree) (l : Location) : (ofLocation t l).below = t.subtree l := by
  have go (s : Standpoint) : (l.foldl enter s).below = s.below.subtree l := by
    induction l generalizing s with
    | nil => rfl
    | cons name l ih => exact ih (s.enter name)
  exact go ⟨t, []⟩

theorem leave_ofLocation (t : FileTree) (l : Location) :
    (ofLocation t l).leave = ofLocation t l.dropLast := by
  rcases List.eq_nil_or_concat l with rfl | ⟨l, name, rfl⟩
  · rfl
  · rw [List.concat_eq_append, ofLocation_append_singleton, List.dropLast_concat]
    rfl

theorem isDir_ofLocation (t : FileTree) (l : Location) : (ofLocation t l).isDir = t.isDirAt l := by
  have hb : (ofLocation t l).back.isEmpty = l.isEmpty := by
    have := congrArg List.isEmpty (location_ofLocation t l)
    simpa [location] using this
  cases l with
  | nil => rfl
  | cons name l =>
    simp only [isDir, hb, List.isEmpty_cons, Bool.false_or, below_ofLocation, isDirAt, node?]
    cases (t.subtree (name :: l)).here <;> simp

/-- A step of a standpoint is the step of its location. -/
theorem step_ofLocation (t : FileTree) (l : Location) (name : String) :
    (ofLocation t l).step name = (t.stepFrom l name).map (ofLocation t) := by
  have hn : t.node? (l ++ [name]) = ((ofLocation t l).enter name).below.here := by
    rw [← ofLocation_append_singleton, below_ofLocation]
    simp [node?]
  unfold step stepFrom
  rw [isDir_ofLocation, leave_ofLocation, hn, ← ofLocation_append_singleton]
  split
  · rfl
  split
  · rfl
  split
  · rfl
  split
  · rfl
  · cases (ofLocation t (l ++ [name])).below.here <;> rfl

end Standpoint

/-- Step after step. -/
def walk (t : FileTree) (l : Location) (steps : List String) : Except HostFault Location :=
  (steps.foldlM Standpoint.step (Standpoint.ofLocation t l)).map Standpoint.location

/-- A walk takes its steps from location to location. -/
theorem walk_eq_foldlM (t : FileTree) (l : Location) (steps : List String) :
    t.walk l steps = steps.foldlM t.stepFrom l := by
  unfold walk
  induction steps generalizing l with
  | nil => simp [Except.map, pure, Except.pure]
  | cons name steps ih =>
    simp only [List.foldlM_cons, Standpoint.step_ofLocation]
    cases h : t.stepFrom l name with
    | error f => rfl
    | ok l' => exact ih l'

/-- Where a walk along a path begins. -/
def startOf (cwd : Location) (p : Path) : Location := if p.isAbsolute then [] else cwd

/-- The location of what a path leads to. -/
def resolve (t : FileTree) (cwd : Location) (p : Path) : Except HostFault Location := do
  checkText p
  t.walk (startOf cwd p) (stepsOf p ++ (if endsInSlash p then ["."] else []))

/-- What a path leads to. -/
def at? (t : FileTree) (cwd : Location) (p : Path) : Option Node :=
  match t.resolve cwd p with
  | .ok l => t.node? l
  | .error _ => none

/-- Whether a path leads to anything. -/
def pathExists (t : FileTree) (cwd : Location) (p : Path) : Bool := (t.at? cwd p).isSome

/-- Whether a path leads to a regular file. -/
def isFile (t : FileTree) (cwd : Location) (p : Path) : Bool :=
  ((t.at? cwd p).map Node.isFile).getD false

/-- Whether a path leads to a directory. -/
def isDir (t : FileTree) (cwd : Location) (p : Path) : Bool :=
  ((t.at? cwd p).map Node.isDir).getD false

/-- The absolute path without detours to what a path leads to. -/
def canonical (t : FileTree) (cwd : Location) (p : Path) : Except HostFault Path :=
  (t.resolve cwd p).map fun l => ⟨Location.text l⟩

end GrammarBuild.FileTree
