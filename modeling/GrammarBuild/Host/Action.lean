import GrammarBuild.Build.Progress
import GrammarBuild.Failure
import GrammarBuild.Host.Files
import GrammarBuild.Process.Search
import GrammarBuild.Process.Basic

/-
  GrammarBuild/Host/Action.lean
  =============================
  **Actions** — computations that read and change files, run processes and tell what
  they do, and that may fail.  What an action changed before it failed stays changed.

  An action is a function: from the surroundings it runs in (`Environment`) and the
  host as it is (`Host`) to its result and the host afterwards.
-/

namespace GrammarBuild

/-- How much a line of the log matters. -/
inductive Level where
  | debug
  | info
  | warn
deriving DecidableEq, Repr

/-- What the tool tells while it works, in the order in which it tells it. -/
inductive Event where
  | log (level : Level) (text : String)
  /-- A process is started. -/
  | started (i : Invocation)
  /-- A line about the progress of the command. -/
  | status (text : String)
  | diagnostic (d : Diagnostic)
  /-- A line of the command's result. -/
  | output (text : String)
deriving DecidableEq, Repr

/-- The surroundings of an action. -/
structure Environment where
  /-- The working directory. -/
  cwd : Location
  /-- The user's choice of a compiler. -/
  cc : Option String
  /-- The directories in which programs are looked for. -/
  searchPath : Option String
  /-- Where the user's settings files are. -/
  configHome : Path
  run : Runner
  /-- Where the host takes no write, although there is a place for the file. -/
  refuses : Location → Option FileTree.Refusal := fun _ => none

/-- Surroundings in which nothing is set and no program can be run. -/
instance : Inhabited Environment where
  default :=
    { cwd := [], cc := none, searchPath := none, configHome := ⟨"/home"⟩
      run := fun t _ => (.error .notFound, t) }

/-- The host: its files, and what it was told since the command began. -/
structure Host where
  files : FileTree
  events : List Event := []
  progress : Progress := {}

/-- The processes that were started, in order. -/
def Host.started (h : Host) : List Invocation :=
  h.events.filterMap fun e => match e with
    | .started i => some i
    | _ => none

abbrev Action := ReaderT Environment (ExceptT Failure (StateM Host))

namespace Action

/-- An action carried out. -/
def runOn {α : Type} (x : Action α) (env : Environment) (h : Host) : Except Failure α × Host :=
  (x env).run h

/-- A failing action. -/
def fail {α : Type} (cause : Cause) : Action α := throw (Failure.of cause)

/-- The result of something that is no action. -/
def ofExcept {α : Type} (r : Except Failure α) : Action α := fun _ => ExceptT.mk (pure r)

/-- The result of a look at the host. -/
def ofFault {α : Type} (r : Except HostFault α) : Action α :=
  ofExcept (Failure.lift .host r)

/-- An action whose failure is seen from the activity in which it arose. -/
def within {α : Type} (a : Activity) (x : Action α) : Action α := fun env =>
  ExceptT.mk do return Failure.within a (← (x env).run)

/-- The outcome of an action, be it a failure or not. -/
def attempt {α : Type} (x : Action α) : Action (Except Failure α) := fun env =>
  ExceptT.mk do return .ok (← (x env).run)

/-! ### Telling -/

def tell (e : Event) : Action Unit := modify fun h => { h with events := h.events ++ [e] }

def log (level : Level) (text : String) : Action Unit := tell (.log level text)

/-! ### Files -/

/-- A look at the files from the working directory. -/
def look {α : Type} (f : FileTree → Location → α) : Action α := fun env =>
  ExceptT.mk do return .ok (f (← get).files env.cwd)

/-- A change of the files that may fail and leaves them alone then. -/
def change (f : FileTree → Location → Except HostFault FileTree) : Action Unit := fun env =>
  ExceptT.mk do
    let h ← get
    match f h.files env.cwd with
    | .ok t =>
      set { h with files := t }
      return .ok ()
    | .error e => return .error (.of (.host e))

/-- A change of the files that may fail half done. -/
def changeWith (f : FileTree → Location → Except HostFault Unit × FileTree) : Action Unit :=
  fun env => ExceptT.mk do
    let h ← get
    let (r, t) := f h.files env.cwd
    set { h with files := t }
    return Failure.lift .host r

def pathExists (p : Path) : Action Bool := look fun t cwd => t.pathExists cwd p

def isFile (p : Path) : Action Bool := look fun t cwd => t.isFile cwd p

def isDir (p : Path) : Action Bool := look fun t cwd => t.isDir cwd p

/-- The text of a file. -/
def readText (p : Path) : Action String := do
  ofFault (← look fun t cwd => t.readText cwd p)

/-- The absolute path without detours to what a path leads to. -/
def canonical (p : Path) : Action Path := do
  ofFault (← look fun t cwd => t.canonical cwd p)

/-- A file with this text. -/
def writeText (p : Path) (text : String) : Action Unit := fun env =>
  changeWith (fun t cwd => t.writeUnless env.refuses cwd p text.toUTF8) env

/-- A directory and its parents, if it is missing. -/
def ensureDir (p : Path) : Action Unit := do
  if !(← pathExists p) then
    within (.creatingDirectory p) (changeWith fun t cwd => t.createDirs cwd p)

/-- A file with this text in a directory that is made if it is missing. -/
def writeString (p : Path) (text : String) : Action Unit := do
  match p.parent? with
  | some parent => ensureDir parent
  | none => pure ()
  within (.writingFile p) (writeText p text)

/-- A directory with everything in it removed, if it is there. -/
def removeDirIfExists (p : Path) : Action Unit := do
  if ← pathExists p then
    within (.removingDirectory p) (changeWith fun t cwd => t.removeDir cwd p)

/-! ### Processes -/

/-- A way of looking for programs: what a name leads to. -/
abbrev Search := Environment → FileTree → Path → Option Path

/-- A program looked for in this way. -/
def searching (look : Search) (name : Path) : Action (Option Path) := fun env => do
  return look env (← get).files name

/-- The path of a program that can be run. -/
def which? : Path → Action (Option Path) :=
  searching fun env t name => t.which? env.cwd env.searchPath name

/-- A process run to its end. -/
def exec (c : Command) (dir : Option Path) : Action Completed :=
  within (.spawning c.program) fun env => ExceptT.mk do
    modify fun h => { h with events := h.events ++ [.started ⟨c, dir⟩] }
    let h ← get
    let (r, t) := env.run h.files ⟨c, dir⟩
    set { h with files := t }
    return Failure.lift .host r

/-- A process that must exit with 0. -/
def execAndCheck (c : Command) (dir : Option Path) : Action Completed := do
  let done ← exec c dir
  if !done.succeeded then fail (.exitStatus c.text done.code (Text.trimEnd done.stderr))
  return done

end Action

end GrammarBuild
