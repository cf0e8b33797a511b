import GrammarBuild.CommandLine.Transcript
import GrammarBuild.Process.Script

/-
  GrammarBuild/Main.lean
  ======================
  **The program** — the files around the caller are read into a tree, the command line
  is answered on that tree, and what the answer changed is written back.

  The tree holds the project (or, outside of projects, the working directory), the
  user's settings and the programs on the search path.  Scripted tools are run; any
  other program is found, but cannot be started.
-/

namespace GrammarBuild.Terminal

/-- Programs larger than this are known by their names only. -/
def programLimit : UInt64 := 65536

/-- A file or directory by its directory and its name. -/
def entry (dir name : String) : IO.FS.DirEntry := ⟨dir, name⟩

def locationOf (path : String) : Location :=
  (Path.components ⟨path⟩).filterMap fun c =>
    match c with
    | .normal name => some name
    | _ => none

/-- The locations from the root to one of them, the root left out. -/
def around (l : Location) : List Location :=
  (List.range l.length).map fun n => l.take (n + 1)

/-- A tree in which a location is a directory. -/
def withDir (t : FileTree) (l : Location) : FileTree :=
  (around l).foldl (fun t d => if (t.node? d).isNone then t.set d .dir else t) t

/-! ### Reading files -/

/-- One file.  Files of a search path may be run, others only if they are scripts. -/
def loadFile (program : Bool) (t : FileTree) (dir name : String) : IO FileTree := do
  let p := (entry dir name).path
  let small := !program || (← p.metadata).byteSize ≤ programLimit
  let bytes ← if small then IO.FS.readBinFile p else pure ByteArray.empty
  let t := withDir t (locationOf dir)
  return t.set (locationOf dir ++ [name]) (.file bytes (program || (Script.ofBytes? bytes).isSome))

/-- Everything in and below a directory. -/
partial def loadAll (t : FileTree) (dir : String) : IO FileTree := do
  let mut t := withDir t (locationOf dir)
  for e in ← (entry dir ".").path.readDir do
    match (← (entry dir e.fileName).path.metadata).type with
    | .dir => t ← loadAll t (dir ++ "/" ++ e.fileName)
    | .file => t ← loadFile false t dir e.fileName
    | _ => pure ()
  return t

/-- The programs in a directory of the search path. -/
def loadPrograms (t : FileTree) (dir : String) : IO FileTree := do
  if !(← (entry dir ".").path.isDir) then return t
  (← (entry dir ".").path.readDir).foldlM (fun t e => do
    if (← (entry dir e.fileName).path.isDir) then return t
    loadFile true t dir e.fileName) t

/-- The nearest directory with a manifest, at or around a location. -/
def projectDir (l : Location) : IO Location := do
  for d in (around l).reverse do
    if ← (entry d.text Manifest.fileName).path.pathExists then return d
  return l

/-! ### Writing files back -/

/-- What a tree holds no longer is removed. -/
def removeOld (before after : FileTree) : IO Unit :=
  before.toList.forM fun (l, n) => do
    if (after.node? l).isNone then
      let p := (entry (Location.text l.dropLast) (l.getLast?.getD "")).path
      if ← p.pathExists then
        if n.isDir then IO.FS.removeDirAll p else IO.FS.removeFile p

/-- What a tree holds anew is written, directories before what is in them. -/
def writeNew (before after : FileTree) : IO Unit :=
  (after.toList.mergeSort fun a b => a.1.length ≤ b.1.length).forM fun (l, n) => do
    if before.node? l != some n then
      let p := (entry (Location.text l.dropLast) (l.getLast?.getD "")).path
      match n with
      | .dir => IO.FS.createDirAll p
      | .file bytes _ => IO.FS.writeBinFile p bytes

/-! ### The program -/

/-- Where the user's settings files are. -/
def configHome (cwd : String) : IO Path := do
  let absolute (s : Option String) : Option Path := (s.map Path.mk).filter Path.isAbsolute
  match absolute (← IO.getEnv "XDG_CONFIG_HOME"), absolute (← IO.getEnv "HOME") with
  | some p, _ => return p.child "october-build"
  | none, some home => return (home.child ".config").child "october-build"
  | none, none => return (Path.mk cwd).child ".october"

/-- One call of the program; the exit code. -/
def run (args : List String) : IO UInt32 := do
  let cwdText := (← IO.currentDir).toString
  let cwd := locationOf cwdText
  let searchPath ← IO.getEnv "PATH"
  let config ← configHome cwdText
  let env : Environment :=
    { cwd, cc := ← IO.getEnv "CC", searchPath, configHome := config
      run := Script.runner cwd searchPath none }
  let mut files ← (searchDirs searchPath).foldlM (fun t d => loadPrograms t d.text) {}
  if ← (entry config.text ".").path.isDir then files ← loadAll files config.text
  files ← loadAll files (Location.text (← projectDir cwd))
  files := withDir files cwd
  let (transcript, after) := CommandLine.call env files args
  removeOld files after
  writeNew files after
  (← IO.getStdout).putStr transcript.stdout
  (← IO.getStderr).putStr transcript.stderr
  return UInt32.ofNat transcript.code

end GrammarBuild.Terminal

def main (args : List String) : IO UInt32 := GrammarBuild.Terminal.run args
