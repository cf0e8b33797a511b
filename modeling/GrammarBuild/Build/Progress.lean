/-
  GrammarBuild/Build/Progress.lean
  ================================
  **Progress of a build** — how many compile and link steps are done, be it that they
  were carried out or that nothing was to be done for them.
-/

namespace GrammarBuild

structure Progress where
  compiled : Nat := 0
  linked : Nat := 0
deriving DecidableEq, Repr

namespace Progress

/-- One more compile step is done. -/
def addCompiled (p : Progress) : Progress := { p with compiled := p.compiled + 1 }

/-- One more link step is done. -/
def addLinked (p : Progress) : Progress := { p with linked := p.linked + 1 }

end Progress

end GrammarBuild
