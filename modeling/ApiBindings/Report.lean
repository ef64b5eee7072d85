import ApiBindings.Storage

/-! Running passes and reporting on them. A pass that fails does not keep others from running. -/

namespace ApiBindings

/-- How one pass ended. There is no destination if the artifact was not even generated. -/
structure PassReport where
  pass : Pass
  destination : Option Path
  outcome : Except PassFault Stored
  deriving Repr

def PassReport.hasFailed (report : PassReport) : Bool :=
  match report.outcome with
  | .ok _ => false
  | .error _ => true

/-- How serious a line of a log is. -/
inductive Level where
  | info
  | warn
  | error
  deriving DecidableEq, Repr

def Level.text : Level → String
  | info => "INFO"
  | warn => "WARN"
  | error => "ERROR"

structure LogLine where
  level : Level
  message : String
  deriving DecidableEq, Repr

def LogLine.text (line : LogLine) : String :=
  line.level.text ++ " " ++ line.message

/-- What a run of some passes has to report. -/
structure Report where
  outputClass : String
  faults : List Fault
  conflicts : List Conflict
  unresolved : List UnresolvedReference
  passes : List PassReport
  deriving Repr

namespace Report

def failedPasses (report : Report) : List PassReport :=
  report.passes.filter PassReport.hasFailed

def hasFailures (report : Report) : Bool :=
  report.passes.any PassReport.hasFailed

/-- The conflicts that the origins of the declarations could not settle. -/
def unresolvedConflicts (report : Report) : List Conflict :=
  report.conflicts.filter Conflict.isUnresolved

/-- How many of what the report has of everything. -/
def summary (report : Report) : String :=
  let count {α : Type} (items : List α) := toString items.length
  count report.faults ++ " ingestion errors, " ++ count report.conflicts ++ " conflicts ("
    ++ count report.unresolvedConflicts ++ " unresolved), " ++ count report.unresolved
    ++ " unresolved references, " ++ count report.failedPasses ++ " of " ++ count report.passes
    ++ " passes failed"

def passLine (report : PassReport) : Level × String :=
  match report.outcome with
  | .ok stored => (.info, report.pass.name ++ " pass " ++ stored.text)
  | .error fault => (.error, report.pass.name ++ " pass failed: " ++ fault.text)

/-- The report as lines of a log, each of which starts with the output class. -/
def log (report : Report) : List LogLine :=
  let lines :=
    report.faults.map (fun fault => (Level.warn, "ingestion error: " ++ fault.text))
    ++ report.conflicts.map (fun conflict => (Level.warn, "conflict: " ++ conflict.text))
    ++ report.unresolved.map (fun reference => (Level.warn, reference.text))
    ++ report.passes.map passLine
    ++ [(Level.info, report.summary)]
  lines.map fun (level, message) => { level, message := report.outputClass ++ ": " ++ message }

end Report

section Run

variable {m : Type → Type} [Monad m] [Markup.Library]

/-- Generates the artifact of one pass and stores it. -/
def runPass (store : Artifact → m (Except PassFault Stored)) (context : Context)
    (resolution : Resolution) (pass : Pass)
    : m PassReport := do
  match Artifact.generate context resolution pass with
  | .error fault => return { pass, destination := none, outcome := .error fault }
  | .ok artifact =>
      let outcome ← store artifact
      return { pass, destination := some artifact.destination, outcome }

/-- Runs passes in their order, storing each artifact as it is generated. -/
def run (store : Artifact → m (Except PassFault Stored)) (context : Context)
    (profile : Profile) (passes : List Pass)
    : m Report := do
  let resolution := context.registry.resolve profile
  return {
    outputClass := context.outputClass
    faults := context.registry.faults
    conflicts := context.registry.conflicts
    unresolved := resolution.unresolved
    passes := ← passes.mapM (runPass store context resolution)
  }

end Run

end ApiBindings
