import GrammarBuild.Path.Basic

/-
  GrammarBuild/Process/Interpreter.lean
  =====================================
  **Files that another program runs** — a file that begins with `#!` names on its first
  line the program that runs it, and maybe one argument for that program.

  The host looks at the beginning of the file only (`Interpreter.window`).  A name that
  might go on behind that is not taken; an argument that goes on is cut.
-/

namespace GrammarBuild

/-- The program that runs a file, and what it is given before the file's path. -/
structure Interpreter where
  program : Path
  argument : Option String := none
deriving DecidableEq, Repr

namespace Interpreter

/-- How many bytes of a file the host looks at. -/
def windowSize : Nat := 256

/-- The bytes that the host looks at; zeros stand behind a file that has fewer. -/
def window (bytes : ByteArray) : List UInt8 :=
  let found := (bytes.extract 0 windowSize).toList
  found ++ List.replicate (windowSize - found.length) 0

/-- A blank or a tab. -/
def isBlankByte (b : UInt8) : Bool := b == 0x20 || b == 0x09

/-- A byte that ends a name. -/
def endsName (b : UInt8) : Bool := isBlankByte b || b == 0

/-- The line after the mark, the blanks at its end left out.  Without a line feed the
    name must end where it can be seen. -/
def line? (rest : List UInt8) : Option (List UInt8) :=
  let text := rest.takeWhile (· ≠ 0)
  let line :=
    if text.contains 0x0A then some (text.takeWhile (· ≠ 0x0A))
    else if (rest.dropWhile isBlankByte).any endsName then some rest.dropLast
    else none
  line.map fun l => (l.reverse.dropWhile isBlankByte).reverse

/-- The text of some bytes.  Bytes that spell no text give a name that no file has. -/
def textOf (bytes : List UInt8) : String :=
  (String.fromUTF8? ⟨bytes.toArray⟩).getD "\uFFFD"

/-- The interpreter that a line names. -/
def ofLine? (line : List UInt8) : Option Interpreter :=
  match line.dropWhile isBlankByte with
  | [] => none
  | words =>
    let argument := match words.dropWhile fun b => !endsName b with
      | [] => none
      | b :: r => if b = 0 then none else some (r.dropWhile isBlankByte)
    some
      { program := ⟨textOf (words.takeWhile fun b => !endsName b)⟩
        argument := argument.map fun a => textOf (a.takeWhile (· ≠ 0)) }

/-- The interpreter that a file names, if it does. -/
def ofBytes? (bytes : ByteArray) : Option Interpreter :=
  match window bytes with
  | 0x23 :: 0x21 :: rest => (line? rest).bind ofLine?
  | _ => none

end Interpreter

end GrammarBuild
