import GrammarBuild.Decimal.Binary64

/-
  GrammarBuild/Toml/Value.lean
  ============================
  **The contents of a TOML document** — values and tables in one type, entries in
  the order in which the document introduces them.

  Whether a later line may add to a table depends on how the table came to be, so
  every table remembers its `Origin`.
-/

namespace GrammarBuild.Toml

/-- How a table came to be. -/
inductive Origin where
  /-- By a header of its own, `[t]`. -/
  | header
  /-- As a parent in a longer header, `[t.u]`. -/
  | implied
  /-- As a parent in a dotted key, `t.u = 1`. -/
  | dotted
  /-- As a value in braces. -/
  | inlined
deriving DecidableEq, Repr

inductive Value where
  | string (s : String)
  | integer (n : Int)
  | float (x : Binary64)
  | boolean (b : Bool)
  /-- A date, a time or both, as it is written in its normal form. -/
  | datetime (text : String)
  | array (items : List Value)
  | table (origin : Origin) (entries : List (String × Value))
  /-- The tables of headers `[[t]]`, the last one first: it is the one that later lines
      add to. -/
  | tables (items : List (List (String × Value)))
deriving Inhabited, Repr

/-- The items of headers `[[t]]` in document order. -/
def Value.itemsOf (tables : List (List (String × Value))) : List Value :=
  tables.reverse.map fun es => .table .header es

/-- The entries of a table in document order. -/
abbrev Entries := List (String × Value)

namespace Entries

/-- The value under a key. -/
def get? (es : Entries) (key : String) : Option Value :=
  (es.find? fun e => e.1 == key).map Prod.snd

/-- The entries with the value under a key exchanged. -/
def replace (es : Entries) (key : String) (v : Value) : Entries :=
  es.map fun e => if e.1 == key then (key, v) else e

/-- The entries without a key. -/
def remove (es : Entries) (key : String) : Entries := es.filter fun e => e.1 != key

end Entries

end GrammarBuild.Toml
