import GrammarBuild.Text.Quoted
import GrammarBuild.Toml.Value

/-
  GrammarBuild/Toml/Schema.lean
  =============================
  **What a document must hold** — decoders turn a value of a document into a value
  of the program, and say what was found where something else was expected.

  A record is read from a table or, field by field in declared order, from an array.
  The entries of a table are read in document order and unknown ones are passed
  over, so the first bad entry of a document is the one that is reported; a field
  that is missing is noticed after that.
-/

namespace GrammarBuild.Toml

/-- How a document fails to hold what it must. -/
inductive SchemaFault where
  | invalidType (found expected : String)
  | invalidValue (found expected : String)
  | missingField (name : String)
  | invalidLength (length : Nat) (expected : String)
  /-- A value that is none of the alternatives of the type `choice`. -/
  | noVariant (choice : String)
  /-- A value of the right shape that its type refuses with a message of its own. -/
  | refused (message : String)
deriving DecidableEq, Repr

namespace SchemaFault

def message : SchemaFault → String
  | invalidType found expected => "invalid type: " ++ found ++ ", expected " ++ expected
  | invalidValue found expected => "invalid value: " ++ found ++ ", expected " ++ expected
  | missingField name => "missing field `" ++ name ++ "`"
  | invalidLength length expected =>
    "invalid length " ++ toString length ++ ", expected " ++ expected
  | noVariant choice => "data did not match any variant of untagged enum " ++ choice
  | refused message => message

end SchemaFault

/-- How a value is called in messages.  Dates and times are read as tables. -/
def Value.found : Value → String
  | .string s => "string " ++ Text.quote s
  | .integer n => "integer `" ++ toString n ++ "`"
  | .float x => "floating point `" ++ x.text ++ "`"
  | .boolean b => "boolean `" ++ toString b ++ "`"
  | .datetime _ => "map"
  | .array _ => "sequence"
  | .table _ _ => "map"
  | .tables _ => "sequence"

/-- The value is not what the schema expects. -/
def mismatch {α : Type} (v : Value) (expected : String) : Except SchemaFault α :=
  .error (.invalidType v.found expected)

abbrev Decoder (α : Type) := Value → Except SchemaFault α

namespace Decoder

/-! ### Simple values -/

def text (expected : String := "a string") : Decoder String
  | .string s => .ok s
  | v => mismatch v expected

def boolean : Decoder Bool
  | .boolean b => .ok b
  | v => mismatch v "a boolean"

/-- A whole number that is not negative. -/
def count : Decoder Nat
  | .integer (.ofNat n) => .ok n
  | v@(.integer _) => .error (.invalidValue v.found "usize")
  | v => mismatch v "usize"

/-- A list, all of whose items are read in order. -/
def list {α : Type} (item : Decoder α) : Decoder (List α)
  | .array vs => vs.mapM item
  | .tables ts => (Value.itemsOf ts).mapM item
  | v => mismatch v "a sequence"

def texts : Decoder (List String) := list (text "a string")

/-- The entries of a table, read in document order.  A date counts as a table whose one
    entry is its text. -/
def entries {α : Type} (item : Decoder α) : Decoder (List (String × α))
  | .table _ es => es.mapM fun (k, v) => (item v).map fun x => (k, x)
  | .datetime s => (item (.string s)).map fun x => [(s, x)]
  | v => mismatch v "a map"

/-! ### Records -/

/-- A field of a record that is collected in a `σ`. -/
structure RecordField (σ : Type) where
  name : String
  /-- Whether an array that is too short may leave the field out. -/
  hasDefault : Bool
  read : Value → σ → Except SchemaFault σ

/-- A field that is read by `decode` and kept by `keep`. -/
def field {σ α : Type} (name : String) (decode : Decoder α) (keep : α → σ → σ)
    (hasDefault : Bool := true) : RecordField σ :=
  { name, hasDefault, read := fun v s => (decode v).map fun x => keep x s }

/-- The entries of a table collected in document order. -/
def collect {σ : Type} (fields : List (RecordField σ)) (start : σ) (es : Entries) :
    Except SchemaFault σ :=
  es.foldlM (fun s (k, v) =>
    match fields.find? fun f => f.name == k with
    | some f => f.read v s
    | none => .ok s) start

/-- How a record is called where an array is too short for it. -/
def elements (name : String) (n : Nat) : String :=
  "struct " ++ name ++ " with " ++ toString n ++ (if n = 1 then " element" else " elements")

/-- The items of an array collected in the order of the fields; `i` is the number of
    fields before these. -/
def collectItems {σ : Type} (expected : String) :
    (i : Nat) → List (RecordField σ) → List Value → σ → Except SchemaFault σ
  | _, [], _, s => .ok s
  | i, f :: fs, v :: vs, s => do collectItems expected (i + 1) fs vs (← f.read v s)
  | i, f :: fs, [], s =>
    if f.hasDefault then collectItems expected (i + 1) fs [] s
    else .error (.invalidLength i expected)

/-- A record of the given fields. -/
def record {σ : Type} (name : String) (fields : List (RecordField σ)) (start : σ) : Decoder σ
  | .table _ es => collect fields start es
  | .datetime _ => .ok start
  | .array vs => collectItems (elements name fields.length) 0 fields vs start
  | .tables ts =>
    collectItems (elements name fields.length) 0 fields (Value.itemsOf ts) start
  | v => mismatch v ("struct " ++ name)

/-- A field that must be there. -/
def require {α : Type} (name : String) : Option α → Except SchemaFault α
  | some x => .ok x
  | none => .error (.missingField name)

end Decoder

end GrammarBuild.Toml
