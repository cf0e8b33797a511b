import GrammarBuild.Host.Walk

/-
  GrammarBuild/Process/Search.lean
  ================================
  **Looking for programs** — a bare name is looked for in the directories of the
  search path, anything else is taken as a path.

  Two questions are answered.  `which?` asks whether a program can be run, before
  anything is done with it; `firstThatStarts` is what happens when it is run.
-/

namespace GrammarBuild

/-- The directories of a search path. -/
def searchDirs (searchPath : Option String) : List Path :=
  match searchPath with
  | some s => (List.splitOn ':' s.toList).map fun d => ⟨String.ofList d⟩
  | none => []

namespace FileTree

/-- Whether a path leads to a regular file that may be run. -/
def canRun (t : FileTree) (cwd : Location) (p : Path) : Bool :=
  ((t.at? cwd p).map Node.isExecutable).getD false

/-- Where a name with a directory in it points, seen from the working directory. -/
def fromWorkingDir (cwd : Location) (name : Path) : Path :=
  if name.isAbsolute then name
  else Path.ofComponents ⟨cwd.text⟩ (name.components.dropWhile (· = .here))

/-- The path of a program that can be run. -/
def which? (t : FileTree) (cwd : Location) (searchPath : Option String) (name : Path) :
    Option Path :=
  let candidates :=
    if 1 < name.components.length then [fromWorkingDir cwd name]
    else (searchDirs searchPath).map fun d => d.join name
  candidates.find? (t.canRun cwd)

/-- The location of a file that may be run. -/
def openProgram (t : FileTree) (dir : Location) (p : Path) : Except HostFault Location := do
  let l ← t.resolve dir p
  if ((t.node? l).map Node.isExecutable).getD false then pure l else throw .accessDenied

end FileTree

/-! ### Starting a program -/

/-- Whether the next directory is tried after a program could not be started. -/
def HostFault.goesOn : HostFault → Bool
  | notFound | notDirectory | accessDenied => true
  | _ => false

/-- The first of some paths that can be started.  If there is none, one that was denied
    is the reason, or else the last one that failed. -/
def firstThatStarts {α : Type} (start : Path → Except HostFault α) :
    (denied : Bool) → (reason : HostFault) → List Path → Except HostFault α
  | denied, reason, [] => .error (if denied then .accessDenied else reason)
  | denied, _, p :: ps =>
    match start p with
    | .ok x => .ok x
    | .error f =>
      if f.goesOn then firstThatStarts start (denied || f == .accessDenied) f ps else .error f

/-- The program of this name started, with a search if it is a bare name. -/
def startNamed {α : Type} (start : Path → Except HostFault α) (searchPath : Option String)
    (program : Path) : Except HostFault α :=
  if program.isEmpty then .error .notFound
  else if program.text.toList.contains '/' then start program
  else if FileTree.nameLimit < program.text.utf8ByteSize then .error .nameTooLong
  else
    firstThatStarts start false .notFound ((searchDirs searchPath).map fun d =>
      if d.isEmpty then program else ⟨d.text ++ "/" ++ program.text⟩)

end GrammarBuild
