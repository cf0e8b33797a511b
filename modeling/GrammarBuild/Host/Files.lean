import GrammarBuild.Host.Walk

/-
  GrammarBuild/Host/Files.lean
  ============================
  **Reading and changing files** — what the host does with a path that is read,
  written, created or removed, and with which fault it refuses.

  An operation that can fail half done (`writeUnless`, `createDirs`, `removeDir`) gives
  the tree it leaves together with its outcome.
-/

namespace GrammarBuild.FileTree

/-! ### Reading -/

/-- The location of a file that is opened to be read; directories can be opened. -/
def openRead (t : FileTree) (cwd : Location) (p : Path) : Except HostFault Node :=
  match t.resolve cwd p with
  | .ok l => match t.node? l with
    | some n => .ok n
    | none => .error .notFound
  | .error f => .error f

/-- The bytes of an opened file. -/
def bytesOf : Node → Except HostFault ByteArray
  | .dir => .error .isDirectory
  | .file bytes _ => .ok bytes

/-- The bytes of a file. -/
def readFile (t : FileTree) (cwd : Location) (p : Path) : Except HostFault ByteArray := do
  bytesOf (← t.openRead cwd p)

/-- The text of a file, which must be UTF-8. -/
def readText (t : FileTree) (cwd : Location) (p : Path) : Except HostFault String := do
  match String.fromUTF8? (← t.readFile cwd p) with
  | some s => pure s
  | none => throw .notText

/-! ### Writing -/

/-- The directory and the last name of a path.  The walk stops before the last step,
    which may still be `.` or `..`; there is none in the path of the root. -/
def parentOf (t : FileTree) (cwd : Location) (p : Path) :
    Except HostFault (Location × Option String) := do
  checkText p
  let steps := stepsOf p
  let l ← t.walk (startOf cwd p) steps.dropLast
  if !t.isDirAt l then throw .notDirectory
  pure (l, steps.getLast?)

def isDots (name : String) : Bool := name == "." || name == ".."

/-- The location that a file opened for writing has or gets. -/
def placeToWrite (t : FileTree) (cwd : Location) (p : Path) : Except HostFault Location := do
  match ← t.parentOf cwd p with
  | (_, none) => throw .isDirectory
  | (l, some name) =>
    if endsInSlash p || isDots name then throw .isDirectory
    if nameLimit < name.utf8ByteSize then throw .nameTooLong
    if t.isDirAt (l ++ [name]) then throw .isDirectory
    pure (l ++ [name])

/-- A file with these bytes; a file that is there may be run afterwards if it may be
    run before. -/
def writeAt (t : FileTree) (l : Location) (bytes : ByteArray) : FileTree :=
  t.set l (.file bytes ((t.node? l).map Node.isExecutable |>.getD false))

/-- A file written anew or for the first time, by a host that refuses no write. -/
def writeFile (t : FileTree) (cwd : Location) (p : Path) (bytes : ByteArray) :
    Except HostFault FileTree :=
  (t.placeToWrite cwd p).map fun l => t.writeAt l bytes

/-- A write that has a place and fails there all the same: the file is not opened, or it
    is opened, which empties it, and takes some bytes only. -/
structure Refusal where
  fault : HostFault
  /-- How many bytes the opened file takes. -/
  taken : Option Nat := none
deriving DecidableEq, Repr

/-- What a refused write leaves. -/
def writePart (t : FileTree) (l : Location) (bytes : ByteArray) : Option Nat → FileTree
  | none => t
  | some n => t.writeAt l (bytes.extract 0 n)

/-- A file written by a host that refuses writes at some places. -/
def writeUnless (t : FileTree) (refuses : Location → Option Refusal) (cwd : Location) (p : Path)
    (bytes : ByteArray) : Except HostFault Unit × FileTree :=
  match t.placeToWrite cwd p with
  | .error f => (.error f, t)
  | .ok l => match refuses l with
    | none => (.ok (), t.writeAt l bytes)
    | some r => (.error r.fault, t.writePart l bytes r.taken)

/-- A file given or denied the permission to be run. -/
def setExecutable (t : FileTree) (cwd : Location) (p : Path) (executable : Bool) :
    Except HostFault FileTree := do
  let l ← t.resolve cwd p
  match t.node? l with
  | some (.file bytes _) => pure (t.set l (.file bytes executable))
  | _ => pure t

/-! ### Creating directories -/

/-- One new directory in a directory that is there. -/
def createDir (t : FileTree) (cwd : Location) (p : Path) : Except HostFault FileTree := do
  match ← t.parentOf cwd p with
  | (_, none) => throw .alreadyExists
  | (l, some name) =>
    if isDots name then throw .alreadyExists
    if nameLimit < name.utf8ByteSize then throw .nameTooLong
    if (t.node? (l ++ [name])).isSome then throw .alreadyExists
    pure (t.set (l ++ [name]) .dir)

/-- A new directory after its parents were made; a directory that is there will do. -/
def createLast (t : FileTree) (cwd : Location) (p : Path) : Except HostFault Unit × FileTree :=
  match t.createDir cwd p with
  | .ok t => (.ok (), t)
  | .error f => if t.isDir cwd p then (.ok (), t) else (.error f, t)

/-- A directory and those of its parents that are missing. -/
def createDirs (t : FileTree) (cwd : Location) (p : Path) : Except HostFault Unit × FileTree :=
  if p.text.isEmpty then (.ok (), t)
  else
    match t.createDir cwd p with
    | .ok t => (.ok (), t)
    | .error .notFound =>
      match _h : p.parent? with
      | none => (.error .notFound, t)
      | some parent =>
        match createDirs t cwd parent with
        | (.ok (), t) => t.createLast cwd p
        | failed => failed
    | .error f => if t.isDir cwd p then (.ok (), t) else (.error f, t)
termination_by p.components.length
decreasing_by
  rw [Path.components_parent? _h, List.length_dropLast]
  have := List.length_pos_iff.2 (Path.components_ne_nil_of_parent? _h)
  omega

/-! ### Removing -/

/-- An empty directory removed.  The last step of the path must be its name. -/
def removeEmpty (t : FileTree) (cwd : Location) (p : Path) : Except HostFault FileTree := do
  match ← t.parentOf cwd p with
  | (_, none) => throw .invalidArgument
  | (l, some name) =>
    if name = "." then throw .invalidArgument
    if name = ".." then throw .notEmpty
    let l ← t.stepFrom l name
    if !t.isDirAt l then throw .notDirectory
    if !(t.names l).isEmpty then throw .notEmpty
    pure (t.remove l)

/-- A directory removed with everything in it.  Its contents go first, then the path is
    walked again: where a part of it went with the contents, the directory stays, and
    that is no failure. -/
def removeDir (t : FileTree) (cwd : Location) (p : Path) : Except HostFault Unit × FileTree :=
  match t.resolve cwd p with
  | .error f => (.error f, t)
  | .ok l =>
    if !t.isDirAt l then (.error .notDirectory, t)
    else
      let t := t.clear l
      match t.removeEmpty cwd p with
      | .ok t => (.ok (), t)
      | .error .notFound => (.ok (), t)
      | .error f => (.error f, t)

/-- A file removed. -/
def removeFile (t : FileTree) (cwd : Location) (p : Path) : Except HostFault FileTree := do
  let l ← t.resolve cwd p
  if t.isDirAt l then throw .isDirectory
  pure (t.remove l)

end GrammarBuild.FileTree
