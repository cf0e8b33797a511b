import GrammarBuild.Toml.Number
import GrammarBuild.Toml.Tree

/-
  GrammarBuild/Toml/Document.lean
  ===============================
  **Reading a TOML document** — `read?` gives the entries of a text that is a TOML
  document, and nothing for any other text.

  Values may be nested in fewer than 80 brackets and braces.  A document is read
  expression by expression, each of which must fill its line: a header, a key with
  its value, a comment, or nothing.
-/

namespace GrammarBuild.Toml

/-! ### Values -/

/-- Blanks, line ends and comments, between the items of an array. -/
def skipTrivia : (inComment : Bool) → List Char → List Char
  | _, [] => []
  | _, '\n' :: r => skipTrivia false r
  | _, '\r' :: '\n' :: r => skipTrivia false r
  | true, c :: r => if isTextChar c then skipTrivia true r else c :: r
  | false, c :: r =>
    if isSpace c then skipTrivia false r
    else if c = '#' then skipTrivia true r
    else c :: r

/-- The items of an array up to its closing bracket, which may follow a comma. -/
def arrayItems? (item : Reader Value) : (bound : List Char) → Reader (List Value)
  | [], _ => none
  | _ :: bound, s =>
    match skipTrivia false s with
    | ']' :: r => some ([], r)
    | s => do
      let (v, r) ← item s
      match skipTrivia false r with
      | ']' :: r => pure ([v], r)
      | ',' :: r =>
        let (vs, r) ← arrayItems? item bound r
        pure (v :: vs, r)
      | _ => none

/-- A key, an equals sign and a value. -/
def pair? (item : Reader Value) (s : List Char) :
    Option ((List String × String × Value) × List Char) := do
  let ((path, key), r) ← key? s
  match r with
  | '=' :: r =>
    let (v, r) ← item (skipSpace r)
    pure ((path, key, v), r)
  | _ => none

/-- The pairs of an inline table up to its closing brace, all on one line. -/
def pairs? (item : Reader Value) :
    (bound : List Char) → Reader (List (List String × String × Value))
  | [], _ => none
  | _ :: bound, s => do
    let (p, r) ← pair? item s
    match skipSpace r with
    | '\x7d' :: r => pure ([p], r)
    | ',' :: r =>
      let (ps, r) ← pairs? item bound r
      pure (p :: ps, r)
    | _ => none

/-- A value; `depth` is how many brackets and braces may still be opened. -/
def value? : (depth : Nat) → Reader Value
  | depth, s =>
    match s with
    | '"' :: _ => (string? s).map fun (t, r) => (.string (String.ofList t), r)
    | '\x27' :: _ => (string? s).map fun (t, r) => (.string (String.ofList t), r)
    | '[' :: r =>
      match depth with
      | 0 => none
      | depth + 1 => (arrayItems? (value? depth) s r).map fun (vs, r) => (.array vs, r)
    | '\x7b' :: r =>
      match depth with
      | 0 => none
      | depth + 1 =>
        match skipSpace r with
        | '\x7d' :: r => some (.table .inlined [], r)
        | r => do
          let (ps, r) ← pairs? (value? depth) s r
          let es ← ofPairs ps
          pure (.table .inlined es, r)
    | 't' :: 'r' :: 'u' :: 'e' :: r => some (.boolean true, r)
    | 'f' :: 'a' :: 'l' :: 's' :: 'e' :: r => some (.boolean false, r)
    | s => number? s

/-- A value with brackets and braces nested less than 80 deep. -/
def topValue? : Reader Value := value? 79

/-! ### Lines -/

/-- What may follow on a line: blanks, a comment, and the line's or the text's end. -/
def restOfLine? (s : List Char) : Option (List Char) :=
  let s := match skipSpace s with
    | '#' :: r => r.dropWhile isTextChar
    | s => s
  match s with
  | [] => some []
  | s => lineEnd? s

/-- One line that is not blank, its effect on the document, and the rest. -/
def expression? (d : Draft) (s : List Char) : Option (Draft × List Char) :=
  match s with
  | '[' :: '[' :: r => do
    let ((path, key), r) ← key? r
    match r with
    | ']' :: ']' :: r => pure (← d.openItem path key, ← restOfLine? r)
    | _ => none
  | '[' :: r => do
    let ((path, key), r) ← key? r
    match r with
    | ']' :: r => pure (← d.openTable path key, ← restOfLine? r)
    | _ => none
  | s => do
    let ((path, key, v), r) ← pair? topValue? s
    pure (← d.put path key v, ← restOfLine? r)

/-- All lines of a document. -/
def lines? : (fuel : Nat) → Draft → List Char → Option Draft
  | 0, _, _ => none
  | fuel + 1, d, s =>
    match skipSpace s with
    | [] => some d
    | s =>
      match restOfLine? s with
      | some r => lines? fuel d r
      | none => do
        let (d, r) ← expression? d s
        lines? fuel d r

/-- The entries of a document's characters; a byte order mark may stand in front. -/
def readChars? (s : List Char) : Option Entries := do
  let s := match s with
    | '\uFEFF' :: r => r
    | s => s
  let d ← lines? (s.length + 1) {} s
  d.close

/-- `readChars?` on strings. -/
def read? (s : String) : Option Entries := readChars? s.toList

end GrammarBuild.Toml
