/-
  GrammarBuild/Json/Value.lean
  ============================
  **JSON values** — members of an object keep the order in which they are written,
  and a number keeps its spelling.  A string may spell half of a surrogate pair,
  which stands for no text: such a string is `unpaired`, such a key is `none`.
-/

namespace GrammarBuild

inductive Json where
  | null
  | bool (b : Bool)
  | number (literal : String)
  | string (s : String)
  /-- A string with an unpaired surrogate. -/
  | unpaired
  | array (items : List Json)
  | object (members : List (Option String × Json))
deriving Inhabited

namespace Json

/-- An object with the given members. -/
def ofMembers (members : List (String × Json)) : Json :=
  object (members.map fun m => (some m.1, m.2))

def ofStrings (items : List String) : Json := array (items.map string)

def ofNat (n : Nat) : Json := number (toString n)

/-- The last member with this key. -/
def member? (key : String) : Json → Option Json
  | object members => (members.reverse.find? fun m => m.1 == some key).map Prod.snd
  | _ => none

end Json

end GrammarBuild
