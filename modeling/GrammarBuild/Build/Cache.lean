import GrammarBuild.Build.Fingerprint
import GrammarBuild.Json.Reader

/-
  GrammarBuild/Build/Cache.lean
  =============================
  **The fingerprint cache** — the fingerprints under which the results of one profile
  were made: those of objects by the object's path, those of modules by the target's
  name.  A step is out of date when its result is missing, when nothing is recorded
  for it, or when its fingerprint is another one.

  The cache is kept as JSON between builds.  A file that is not such a cache counts as
  an empty one.
-/

namespace GrammarBuild

structure FingerprintCache where
  compile : Table Path CompileFingerprint := Table.empty
  link : Table String LinkFingerprint := Table.empty
deriving DecidableEq, Repr

namespace FingerprintCache

/-! ### Written form -/

def hashesToJson (t : Table Path String) : Json :=
  .ofMembers (t.entries.map fun (p, h) => (p.text, .string h))

def compileToJson (f : CompileFingerprint) : Json :=
  .ofMembers [("source_hash", .string f.sourceHash), ("compiler", .string f.compiler),
    ("args_hash", .string f.argsHash), ("header_hashes", hashesToJson f.headerHashes)]

def linkToJson (f : LinkFingerprint) : Json :=
  .ofMembers [("object_hashes", hashesToJson f.objectHashes), ("args_hash", .string f.argsHash)]

def toJson (c : FingerprintCache) : Json :=
  .ofMembers
    [("compile", .ofMembers (c.compile.entries.map fun (p, f) => (p.text, compileToJson f))),
     ("link", .ofMembers (c.link.entries.map fun (n, f) => (n, linkToJson f)))]

/-- The text of the cache's file. -/
def write (c : FingerprintCache) : String := c.toJson.pretty

/-! ### Reading -/

def text? : Json → Option String
  | .string s => some s
  | _ => none

/-- The values of named fields: the members of an object, in which each field stands
    once, or the items of an array.  Other members are passed over. -/
def fields? (names : List String) : Json → Option (List Json)
  | .array items => if items.length = names.length then some items else none
  | .object members => do
    let keys ← members.mapM Prod.fst
    names.mapM fun n =>
      match (keys.zip (members.map Prod.snd)).filter fun m => m.1 == n with
      | [m] => some m.2
      | _ => none
  | _ => none

/-- The entries of an object, read one by one. -/
def entries? {α : Type} (value : Json → Option α) : Json → Option (List (String × α))
  | .object members => members.mapM fun (k, j) => do pure (← k, ← value j)
  | _ => none

def hashes? (j : Json) : Option (Table Path String) :=
  (entries? text? j).map fun es => Table.ofList (es.map fun (k, h) => (⟨k⟩, h))

def compile? (j : Json) : Option CompileFingerprint := do
  match ← fields? ["source_hash", "compiler", "args_hash", "header_hashes"] j with
  | [s, c, a, h] =>
    pure { sourceHash := ← text? s, compiler := ← text? c, argsHash := ← text? a,
           headerHashes := ← hashes? h }
  | _ => none

def link? (j : Json) : Option LinkFingerprint := do
  match ← fields? ["object_hashes", "args_hash"] j with
  | [o, a] => pure { objectHashes := ← hashes? o, argsHash := ← text? a }
  | _ => none

def ofJson? (j : Json) : Option FingerprintCache := do
  match ← fields? ["compile", "link"] j with
  | [c, l] =>
    let compile ← entries? compile? c
    let link ← entries? link? l
    pure { compile := Table.ofList (compile.map fun (k, f) => (⟨k⟩, f)), link := Table.ofList link }
  | _ => none

/-- The cache that a text spells. -/
def read? (text : String) : Option FingerprintCache := do ofJson? (← Json.read? text)

/-! ### On disk -/

/-- Tells that a file is no cache. -/
def warn (p : Path) (reason : String) : Action Unit :=
  Action.log .warn ("ignoring fingerprint cache " ++ p.text ++ ": " ++ reason)

/-- The cache of a file; an empty one if there is none. -/
def load (p : Path) : Action FingerprintCache := do
  if !(← Action.pathExists p) then return {}
  match ← Action.attempt (Action.readText p) with
  | .error e =>
    warn p e.message
    return {}
  | .ok text =>
    match read? text with
    | some c => return c
    | none =>
      warn p "not a fingerprint cache"
      return {}

def save (c : FingerprintCache) (p : Path) : Action Unit :=
  Action.within (.savingFingerprints p) (Action.writeString p c.write)

/-! ### What is out of date -/

/-- Whether an object must be compiled. -/
def needsCompile (c : FingerprintCache) (object : Path) (now : CompileFingerprint) :
    Action Bool := do
  if !(← Action.pathExists object) then return true
  return match c.compile.get? object with
    | some recorded => !recorded.agrees now
    | none => true

/-- Whether a module must be linked. -/
def needsLink (c : FingerprintCache) (target : String) (module : Path) (now : LinkFingerprint) :
    Action Bool := do
  if !(← Action.pathExists module) then return true
  return match c.link.get? target with
    | some recorded => !recorded.agrees now
    | none => true

/-- The fingerprint under which an object was made is recorded. -/
def recordCompile (c : FingerprintCache) (object : Path) (f : CompileFingerprint) :
    FingerprintCache :=
  { c with compile := c.compile.insert object f }

/-- The fingerprint under which a module was made is recorded. -/
def recordLink (c : FingerprintCache) (target : String) (f : LinkFingerprint) :
    FingerprintCache :=
  { c with link := c.link.insert target f }

end FingerprintCache

end GrammarBuild
