import GrammarBuild.Build.Options
import GrammarBuild.Settings.Basic

/-
  GrammarBuild/CommandLine/Arguments.lean
  =======================================
  **What the arguments ask for** — a command line is read from left to right: options,
  then a command, then the options and texts of that command (`Task.ofArguments`).

  What each command takes is a table (`Signature`); `scan` reads arguments by such a table
  and stops at the first that does not fit, or at a request for help.
-/

namespace GrammarBuild.CommandLine

/-- Why no task is carried out. -/
inductive Stop where
  | help
  | version
  | usage
deriving DecidableEq, Repr

/-- What a value may be. -/
inductive ValueKind where
  | text
  /-- Any text but the empty one. -/
  | path
  /-- A whole number of 64 bits. -/
  | number
  /-- One of some words. -/
  | oneOf (words : List String)
deriving DecidableEq, Repr

/-- An option: `--long`, `-short`. -/
structure Opt where
  long : String
  short : Option Char := none
  /-- The value it takes, if any. -/
  value : Option ValueKind := none
  /-- Whether it may be given more than once. -/
  many : Bool := false
  /-- Whether its value may begin with a dash. -/
  dashes : Bool := false
deriving DecidableEq, Repr

/-- What the arguments of one command may be. -/
structure Signature where
  options : List Opt
  /-- The texts it takes besides options. -/
  texts : List ValueKind := []
  commands : List String := []
  /-- Whether it tells the tool's version. -/
  version : Bool := false

/-- What was found among the arguments of one command. -/
structure Found where
  options : List (String × String) := []
  texts : List String := []
  /-- A command and the arguments after it. -/
  command : Option (String × List String) := none
deriving DecidableEq, Repr

/-! ### Values -/

/-- The number of 64 bits that a text spells; a plus sign may stand before it. -/
def number? (s : String) : Option Nat :=
  let digits := match s.toList with
    | '+' :: r => r
    | r => r
  if digits.isEmpty || !digits.all Char.isDigit then none
  else
    let n := digits.foldl (fun n c => 10 * n + (c.toNat - '0'.toNat)) 0
    if n < UInt64.size then some n else none

def ValueKind.admits (s : String) : ValueKind → Bool
  | text => true
  | path => !s.isEmpty
  | number => (number? s).isSome
  | oneOf words => words.contains s

/-- An argument that is an option and no value. -/
def looksLikeOption (s : String) : Bool := s.toList.head? == some '-' && s != "-"

namespace Found

/-- One more option.  Its value must be admitted, and unless it may be repeated it
    must be new. -/
def add (f : Found) (o : Opt) (value : String) : Except Stop Found :=
  if !(o.value.all (ValueKind.admits value)) then .error .usage
  else if !o.many && f.options.any (fun e => e.1 == o.long) then .error .usage
  else .ok { f with options := f.options ++ [(o.long, value)] }

/-- One more text. -/
def addText (f : Found) (sig : Signature) (s : String) : Except Stop Found :=
  match sig.texts[f.texts.length]? with
  | some kind => if kind.admits s then .ok { f with texts := f.texts ++ [s] } else .error .usage
  | none => .error .usage

def has (f : Found) (long : String) : Bool := f.options.any fun e => e.1 == long

/-- The values of an option. -/
def values (f : Found) (long : String) : List String :=
  (f.options.filter fun e => e.1 == long).map Prod.snd

def value? (f : Found) (long : String) : Option String := (f.values long).head?

end Found

/-! ### Reading arguments -/

/-- What an argument turns out to be. -/
inductive Reading where
  /-- It is dealt with. -/
  | done (f : Found)
  /-- It is an option whose value is the next argument. -/
  | awaits (f : Found) (o : Opt)

/-- An argument `--name` or `--name=value`. -/
def readLong (sig : Signature) (f : Found) (arg : List Char) : Except Stop Reading :=
  let name := String.ofList (arg.takeWhile (· ≠ '='))
  let given := match arg.dropWhile (· ≠ '=') with
    | _ :: v => some (String.ofList v)
    | [] => none
  match sig.options.find? fun o => o.long == name, given with
  | some o, some v => if o.value.isSome then return .done (← f.add o v) else .error .usage
  | some o, none => if o.value.isSome then .ok (.awaits f o) else return .done (← f.add o "")
  | none, none =>
    if name = "help" then .error .help
    else if name = "version" && sig.version then .error .version
    else .error .usage
  | none, some _ => .error .usage

/-- The letters of an argument `-abc`; what follows a letter that takes a value is that
    value. -/
def readShort (sig : Signature) : Found → List Char → Except Stop Reading
  | f, [] => .ok (.done f)
  | f, c :: r =>
    match sig.options.find? fun o => o.short == some c with
    | some o =>
      if o.value.isSome then
        match r with
        | [] => .ok (.awaits f o)
        | '=' :: v => return .done (← f.add o (String.ofList v))
        | v => return .done (← f.add o (String.ofList v))
      else do readShort sig (← f.add o "") r
    | none =>
      if c = 'h' then .error .help
      else if c = 'V' && sig.version then .error .version
      else .error .usage

/-- An argument that begins with a dash. -/
def readOption (sig : Signature) (f : Found) (arg : String) : Except Stop Reading :=
  match arg.toList with
  | _ :: '-' :: name => readLong sig f name
  | _ :: letters => readShort sig f letters
  | [] => .error .usage

/-- The arguments of one command. -/
def scan (sig : Signature) : Found → List String → Except Stop Found
  | f, [] => .ok f
  | f, arg :: rest =>
    if arg = "--" then rest.foldlM (fun f s => f.addText sig s) f
    else if looksLikeOption arg then
      match readOption sig f arg with
      | .error stop => .error stop
      | .ok (.done f) => scan sig f rest
      | .ok (.awaits f o) =>
        match rest with
        | [] => .error .usage
        | v :: rest =>
          if looksLikeOption v && !o.dashes then .error .usage
          else
            match f.add o v with
            | .error stop => .error stop
            | .ok f => scan sig f rest
    else if sig.commands.contains arg then .ok { f with command := some (arg, rest) }
    else if !sig.commands.isEmpty then .error .usage
    else
      match f.addText sig arg with
      | .error stop => .error stop
      | .ok f => scan sig f rest

/-! ### The commands -/

/-- What can be asked of the tool. -/
inductive Task where
  | init (name : Option String) (dir : Option Path)
  | build (o : BuildOptions)
  | flags (target : String) (compileOnly linkOnly : Bool) (o : BuildOptions)
  | header (targets : List String) (output : Option Path)
  | clean (all : Bool)
  | showToolchain
  | overrideToolchain (s : ToolchainSettings)
  | clearToolchain
  | completions (shell : String)
deriving DecidableEq, Repr

/-- A task and how to show what it does. -/
structure Order where
  verbose : Bool
  color : Bool
  task : Task
deriving DecidableEq, Repr

/-- Options that every command takes. -/
def everywhere : List Opt := [{ long := "verbose", short := some 'v' }, { long := "no-color" }]

def topSignature : Signature :=
  { options := everywhere
    commands := ["init", "build", "flags", "header", "clean", "toolchain", "completions", "help"]
    version := true }

def profileOptions : List Opt :=
  [{ long := "release", short := some 'r' }, { long := "profile", value := some .text }]

def targetOption : Opt := { long := "target", value := some .text, many := true }

def initSignature : Signature :=
  { options := everywhere ++ [{ long := "name", value := some .text }], texts := [.path] }

def buildSignature : Signature :=
  { options := everywhere ++ profileOptions ++
      [targetOption, { long := "emit-compile-commands" }, { long := "plan" },
       { long := "jobs", short := some 'j', value := some .number }] }

def flagsSignature : Signature :=
  { options := everywhere ++ profileOptions ++ [{ long := "compile" }, { long := "link" }]
    texts := [.text] }

def headerSignature : Signature :=
  { options := everywhere ++
      [targetOption, { long := "output", short := some 'o', value := some .path }] }

def cleanSignature : Signature := { options := everywhere ++ [{ long := "all" }] }

def toolchainSignature : Signature :=
  { options := everywhere, commands := ["show", "override", "help"] }

def showSignature : Signature := { options := everywhere }

def flagListOption (long : String) : Opt :=
  { long, value := some .text, many := true, dashes := true }

def overrideSignature : Signature :=
  { options := everywhere ++
      [{ long := "cc", value := some .path }, flagListOption "cflag", flagListOption "ldflag",
       { long := "clear" }] }

def completionsSignature : Signature :=
  { options := everywhere, texts := [.oneOf ["bash", "elvish", "fish", "powershell", "zsh"]] }

/-- The names of commands after `help`, each a command of the one before it. -/
def helpOn : (commands : List String) → List String → Stop
  | _, [] => .help
  | commands, c :: cs =>
    if commands.contains c then
      helpOn (if c = "toolchain" then toolchainSignature.commands else []) cs
    else .usage

/-- Two options of which only one may be given. -/
def exclude (f : Found) (a b : String) : Except Stop Unit :=
  if f.has a && f.has b then .error .usage else .ok ()

/-- The options that a build and the display of its commands share. -/
def profileOf (f : Found) : Except Stop BuildOptions := do
  exclude f "profile" "release"
  return { release := f.has "release", profile := f.value? "profile" }

def buildTask (f : Found) : Except Stop Task := do
  let o ← profileOf f
  return .build { o with
    targets := f.values "target", emitCompileCommands := f.has "emit-compile-commands"
    planOnly := f.has "plan", jobs := (f.value? "jobs").bind number? }

def flagsTask (f : Found) : Except Stop Task := do
  exclude f "compile" "link"
  let o ← profileOf f
  match f.texts with
  | target :: _ => return .flags target (f.has "compile") (f.has "link") o
  | [] => throw .usage

def overrideTask (f : Found) : Except Stop Task := do
  ["cc", "cflag", "ldflag"].forM (exclude f "clear")
  if f.has "clear" then return .clearToolchain
  return .overrideToolchain
    { cc := (f.value? "cc").map Path.mk, cflags := f.values "cflag", ldflags := f.values "ldflag" }

def completionsTask (f : Found) : Except Stop Task :=
  match f.texts with
  | shell :: _ => .ok (.completions shell)
  | [] => .error .usage

/-- The task of a command below `toolchain`, with what was found on the way. -/
def toolchainTask (args : List String) : Except Stop (List Found × Task) := do
  let f ← scan toolchainSignature {} args
  match f.command with
  | some ("override", args) =>
    let g ← scan overrideSignature {} args
    return ([f, g], ← overrideTask g)
  | some ("help", args) => throw (helpOn toolchainSignature.commands args)
  | some (_, args) => return ([f, ← scan showSignature {} args], .showToolchain)
  | none => return ([f], .showToolchain)

/-- The task of a command, with what was found on the way. -/
def taskOf (command : String) (args : List String) : Except Stop (List Found × Task) := do
  let one (sig : Signature) (task : Found → Except Stop Task) :
      Except Stop (List Found × Task) := do
    let f ← scan sig {} args
    return ([f], ← task f)
  match command with
  | "init" =>
    one initSignature fun f => .ok (.init (f.value? "name") (f.texts.head?.map Path.mk))
  | "build" => one buildSignature buildTask
  | "flags" => one flagsSignature flagsTask
  | "header" =>
    one headerSignature fun f =>
      .ok (.header (f.values "target") ((f.value? "output").map Path.mk))
  | "clean" => one cleanSignature fun f => .ok (.clean (f.has "all"))
  | "toolchain" => toolchainTask args
  | "completions" => one completionsSignature completionsTask
  | "help" => throw (helpOn topSignature.commands args)
  | _ => throw .usage

/-- What the arguments of the tool ask for. -/
def Order.ofArguments (args : List String) : Except Stop Order := do
  let f ← scan topSignature {} args
  match f.command with
  | none => throw .usage
  | some (command, args) =>
    let (found, task) ← taskOf command args
    let anywhere (long : String) : Bool := (f :: found).any (·.has long)
    return { verbose := anywhere "verbose", color := !anywhere "no-color", task }

end GrammarBuild.CommandLine
