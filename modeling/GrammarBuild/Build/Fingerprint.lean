import GrammarBuild.Build.Plan
import GrammarBuild.Glob.Files
import GrammarBuild.Table

/-
  GrammarBuild/Build/Fingerprint.lean
  ===================================
  **Fingerprints of build steps** — everything that the result of a step depends on:
  for a compile step the source, the compiler, the whole argument list and every
  header below the include directories; for a link step the objects and the whole
  argument list.  Files count by the digest of their contents.
-/

namespace GrammarBuild

/-- The digest of a file's contents. -/
def digestFile (p : Path) : Action String := do
  let node ← Action.within (.openingForDigest p) do
    Action.ofFault (← Action.look fun t cwd => t.openRead cwd p)
  let bytes ← Action.within (.reading p) (Action.ofFault (FileTree.bytesOf node))
  return Sha256.hexDigest bytes.toList

structure CompileFingerprint where
  sourceHash : String
  /-- The identity of the toolchain. -/
  compiler : String
  argsHash : String
  headerHashes : Table Path String
deriving DecidableEq, Repr

structure LinkFingerprint where
  objectHashes : Table Path String
  argsHash : String
deriving DecidableEq, Repr

namespace CompileFingerprint

/-- The files that count as headers. -/
def headerPatterns : List String := ["**/*.h"]

/-- The digests of the headers below a directory, added to those of others. -/
def addHeaders (hashes : Table Path String) (dir : Path) : Action (Table Path String) := do
  if !(← Action.isDir dir) then return hashes
  (← Action.globFiles dir headerPatterns).foldlM
    (fun t h => do return t.insert h (← digestFile h)) hashes

/-- The fingerprint of a compile step whose paths are relative to `root`. -/
def ofStep (root : Path) (s : CompileStep) (compiler : String) : Action CompileFingerprint := do
  let sourceHash ← digestFile (root.join s.source)
  let headerHashes ← s.includeDirs.foldlM (fun t d => addHeaders t (root.join d)) Table.empty
  return { sourceHash, compiler, argsHash := Digest.ofTexts s.command.argv, headerHashes }

/-- Whether nothing has changed; the headers' paths count by their components. -/
def agrees (f g : CompileFingerprint) : Bool :=
  f.sourceHash == g.sourceHash && f.compiler == g.compiler && f.argsHash == g.argsHash
    && f.headerHashes.agrees g.headerHashes

end CompileFingerprint

namespace LinkFingerprint

/-- The digests of those objects that are there. -/
def objectHashesOf (objects : List Path) : Action (Table Path String) :=
  objects.foldlM (fun t o => do
    if ← Action.pathExists o then return t.insert o (← digestFile o) else return t) Table.empty

/-- The fingerprint of a link step. -/
def ofStep (s : LinkStep) : Action LinkFingerprint := do
  let objectHashes ← objectHashesOf s.objects
  return { objectHashes, argsHash := Digest.ofTexts s.command.argv }

/-- Whether nothing has changed; the objects' paths count by their components. -/
def agrees (f g : LinkFingerprint) : Bool :=
  f.objectHashes.agrees g.objectHashes && f.argsHash == g.argsHash

end LinkFingerprint

end GrammarBuild
