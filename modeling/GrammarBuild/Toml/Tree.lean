import GrammarBuild.Toml.Value

/-
  GrammarBuild/Toml/Tree.lean
  ===========================
  **Growing a document table by table** — what a header and a key with its value do
  to the tables read so far, and which of them are refused.

  A key is never given twice.  A header may name a table once, unless the table was
  only implied by a longer header before.  A dotted key may add to tables that
  dotted keys made, and may pass through implied ones, but never adds to a table
  that has a header or braces of its own.  A path that meets an array of tables goes
  on in its last table.
-/

namespace GrammarBuild.Toml

/-- A value under a dotted key: `path` leads to the table, `key` is the last part. -/
def putDotted : (path : List String) → (key : String) → Value → Entries → Option Entries
  | [], key, v, es => if (es.get? key).isSome then none else some (es ++ [(key, v)])
  | k :: ks, key, v, es =>
    match es.get? k with
    | none => (putDotted ks key v []).map fun sub => es ++ [(k, .table .dotted sub)]
    | some (.table origin sub) =>
      -- the last table on the way takes the key, so dotted keys must have made it
      if origin = .dotted ∨ (origin = .implied ∧ ks ≠ []) then
        (putDotted ks key v sub).map fun sub => es.replace k (.table origin sub)
      else none
    | some (.tables (last :: ts)) =>
      if ks = [] then none
      else (putDotted ks key v last).map fun last => es.replace k (.tables (last :: ts))
    | some _ => none

/-- `f` at the table that a header's path leads to; missing tables on the way are
    implied. -/
def alterAt : (path : List String) → (f : Entries → Option Entries) → Entries → Option Entries
  | [], f, es => f es
  | k :: ks, f, es =>
    match es.get? k with
    | none => (alterAt ks f []).map fun sub => es ++ [(k, .table .implied sub)]
    | some (.table origin sub) =>
      if origin = .inlined then none
      else (alterAt ks f sub).map fun sub => es.replace k (.table origin sub)
    | some (.tables (last :: ts)) =>
      (alterAt ks f last).map fun last => es.replace k (.tables (last :: ts))
    | some _ => none

/-- The entries of the table that a header's path leads to. -/
def entriesAt : (path : List String) → Entries → Entries
  | [], es => es
  | k :: ks, es =>
    match es.get? k with
    | some (.table _ sub) => entriesAt ks sub
    | some (.tables (last :: _)) => entriesAt ks last
    | _ => []

/-- Where the lines being read belong. -/
inductive Place where
  /-- The top of the document. -/
  | top
  /-- Under `[path.key]`. -/
  | table (path : List String) (key : String)
  /-- Under `[[path.key]]`. -/
  | item (path : List String) (key : String)
deriving Repr

/-- A document in the making: the tables that are closed, and the open one. -/
structure Draft where
  closed : Entries := []
  place : Place := .top
  lines : Entries := []

namespace Draft

/-- The document with its open table closed.  A table is entered last among its
    neighbours, wherever a longer header first implied it. -/
def close (d : Draft) : Option Entries :=
  match d.place with
  | .top => some d.lines
  | .table path key =>
    alterAt path (fun es => some (es ++ [(key, .table .header d.lines)])) d.closed
  | .item path key =>
    alterAt path (fun es =>
      match es.get? key with
      | none => some (es ++ [(key, .tables [d.lines])])
      | some (.tables ts) => some (es.replace key (.tables (d.lines :: ts)))
      | some _ => none) d.closed

/-- The header `[path.key]`.  A table that was only implied is taken up again. -/
def openTable (d : Draft) (path : List String) (key : String) : Option Draft := do
  let closed ← d.close
  let before := (entriesAt path closed).get? key
  let closed ← alterAt path (fun es =>
    match es.get? key with
    | none => some es
    | some (.table .implied _) => some (es.remove key)
    | some _ => none) closed
  let lines := match before with
    | some (.table .implied sub) => sub
    | _ => []
  pure { closed, place := .table path key, lines }

/-- The header `[[path.key]]`. -/
def openItem (d : Draft) (path : List String) (key : String) : Option Draft := do
  let closed ← d.close
  let _ ← alterAt path (fun es =>
    match es.get? key with
    | none => some es
    | some (.tables _) => some es
    | some _ => none) closed
  pure { closed, place := .item path key, lines := [] }

/-- The line `path.key = value`. -/
def put (d : Draft) (path : List String) (key : String) (v : Value) : Option Draft :=
  (putDotted path key v d.lines).map fun lines => { d with lines }

end Draft

/-- The table that the pairs between two braces make. -/
def ofPairs (pairs : List (List String × String × Value)) : Option Entries :=
  pairs.foldlM (fun es (path, key, v) => putDotted path key v es) []

end GrammarBuild.Toml
