import ApiBindings.Documentation
import ApiBindings.Pass
import ApiBindings.Resolution

/-! The setting in which artifacts are generated: a registry, the texts that document its symbols,
and the places the artifacts go to.
-/

namespace ApiBindings

structure Context where
  api : Api
  /-- What the artifacts are named after. -/
  outputClass : String
  registry : Registry
  /-- The sources of documentation, the preferred ones first. -/
  docs : List Documentation := []
  emitsDocs : Bool := true
  /-- Places that are given for single passes; the latest one for a pass counts. -/
  overrides : List (Pass × Path) := []
  deriving Repr

namespace Context

/-- The reference text for a symbol, unless documentation is switched off. -/
def documentation? (context : Context) (symbol : String) : Option String :=
  if context.emitsDocs then Documentation.firstPage? context.docs symbol else none

/-- Adds a source of documentation behind those that are there. -/
def attach (context : Context) (documentation : Documentation) : Context :=
  { context with docs := context.docs ++ [documentation] }

/-- Where the artifact of a pass goes. -/
def destination (context : Context) (pass : Pass) : Path :=
  (context.overrides.reverse.lookup pass).getD { text := pass.fileName context.outputClass }

end Context

end ApiBindings
