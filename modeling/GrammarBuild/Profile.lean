import GrammarBuild.Json.Value
import GrammarBuild.Toml.Schema

/-
  GrammarBuild/Profile.lean
  =========================
  **Build profiles** — how far to optimise, whether to keep debug information, and
  flags of the profile's own.  Two profiles are built in; a manifest may change them
  field by field and add others, which start from the debug profile
  (`Profile.effective`).
-/

namespace GrammarBuild

structure Profile where
  optLevel : String
  debug : Bool
  cflags : List String
deriving DecidableEq, Repr

/-- What a manifest says about a profile; a field that is not given keeps its value. -/
structure ProfileOverride where
  optLevel : Option String := none
  debug : Option Bool := none
  cflags : Option (List String) := none
deriving DecidableEq, Repr

namespace Profile

def debugDefault : Profile := ⟨"0", true, []⟩

def releaseDefault : Profile := ⟨"2", false, []⟩

/-- The profile that is built in under a name; `dev` is another name for debug. -/
def builtin? (name : String) : Option Profile :=
  if name = "debug" ∨ name = "dev" then some debugDefault
  else if name = "release" then some releaseDefault
  else none

/-- A profile with the given fields exchanged. -/
def override (p : Profile) (o : ProfileOverride) : Profile :=
  { optLevel := o.optLevel.getD p.optLevel
    debug := o.debug.getD p.debug
    cflags := o.cflags.getD p.cflags }

/-- What a profile of this name is when a manifest says `o` about it. -/
def effective (name : String) (o : ProfileOverride) : Profile :=
  ((builtin? name).getD debugDefault).override o

def toJson (p : Profile) : Json :=
  .ofMembers [("opt_level", .string p.optLevel), ("debug", .bool p.debug),
    ("cflags", .ofStrings p.cflags)]

end Profile

namespace ProfileOverride

open Toml Decoder

/-- An optimisation level is a text or a number of 32 bits. -/
def level : Decoder String
  | .string s => .ok s
  | .integer (.ofNat n) =>
    if n < UInt32.size then .ok (toString n) else .error (.noVariant "OptLevel")
  | _ => .error (.noVariant "OptLevel")

def fields : List (RecordField ProfileOverride) :=
  [field "opt_level" level fun x o => { o with optLevel := some x },
   field "debug" boolean (fun x o => { o with debug := some x }) false,
   field "cflags" texts (fun x o => { o with cflags := some x }) false]

def decode : Decoder ProfileOverride := record "ProfileOverride" fields {}

end ProfileOverride

end GrammarBuild
