/-
  GrammarBuild/Host/Fault.lean
  ============================
  **What the host refuses** — the reasons why a file operation or the start of a
  process fails, with the wording and number of each.
-/

namespace GrammarBuild

inductive HostFault where
  | notFound
  | argumentTooLong
  | notExecutableFormat
  | accessDenied
  | alreadyExists
  | notDirectory
  | isDirectory
  | invalidArgument
  | noSpace
  | readOnly
  | notEmpty
  | nameTooLong
  /-- A chain of programs, each run by the next, that is too long. -/
  | tooManyLinks
  /-- A file that should be text is not UTF-8. -/
  | notText
  /-- A name with a zero character, which no file can have. -/
  | zeroInName
  /-- A command with a zero character, which no process can be given. -/
  | zeroInCommand
deriving DecidableEq, Repr

namespace HostFault

/-- The number by which the host names the fault. -/
def number? : HostFault → Option Nat
  | notFound => some 2
  | argumentTooLong => some 7
  | notExecutableFormat => some 8
  | accessDenied => some 13
  | alreadyExists => some 17
  | notDirectory => some 20
  | isDirectory => some 21
  | invalidArgument => some 22
  | noSpace => some 28
  | readOnly => some 30
  | nameTooLong => some 36
  | notEmpty => some 39
  | tooManyLinks => some 40
  | notText => none
  | zeroInName => none
  | zeroInCommand => none

def wording : HostFault → String
  | notFound => "No such file or directory"
  | argumentTooLong => "Argument list too long"
  | notExecutableFormat => "Exec format error"
  | accessDenied => "Permission denied"
  | alreadyExists => "File exists"
  | notDirectory => "Not a directory"
  | isDirectory => "Is a directory"
  | invalidArgument => "Invalid argument"
  | noSpace => "No space left on device"
  | readOnly => "Read-only file system"
  | nameTooLong => "File name too long"
  | notEmpty => "Directory not empty"
  | tooManyLinks => "Too many levels of symbolic links"
  | notText => "stream did not contain valid UTF-8"
  | zeroInName => "file name contained an unexpected NUL byte"
  | zeroInCommand => "nul byte found in provided data"

def message (f : HostFault) : String :=
  match f.number? with
  | some n => f.wording ++ " (os error " ++ toString n ++ ")"
  | none => f.wording

end HostFault

end GrammarBuild
