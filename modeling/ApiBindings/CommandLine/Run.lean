import ApiBindings.CommandLine.Arguments

/-! A whole run of the command line. A job that fails does not keep others from running. -/

namespace ApiBindings.CommandLine

/-- How a run ends: its exit code, the message of a failed run, the log, and whether the user is
told how the command line is used. -/
structure Ending where
  code : Nat
  message : Option String := none
  log : List LogLine := []
  tellsUsage : Bool := false
  deriving DecidableEq, Repr

/-- The end of a run that failed with a message. -/
def Ending.failure (message : String) (log : List LogLine) : Ending where
  code := 1
  message := some ("Error: " ++ message)
  log := log

/-- Finds a profile for the command line, where the one that takes everything cannot be chosen. -/
def glProfile? (name : String) : Option Profile :=
  (Profile.named? name).filter fun profile => profile.name != Profile.all.name

/-- How a job went. -/
structure JobReport where
  target : Target
  job : Job
  hasFailed : Bool
  log : List LogLine

/-- A job as messages name it. -/
def JobReport.title (report : JobReport) : String :=
  report.target.title ++ " (" ++ report.job.outputClass ++ ")"

/-- How a run ends that has reports on its jobs, or the message why there are none. -/
def Ending.ofRun : Except String (List JobReport) → Ending
  | .error message => .failure message []
  | .ok reports =>
      let log := reports.flatMap JobReport.log
      match reports.filter JobReport.hasFailed with
      | [] => { code := 0, log }
      | failed =>
          .failure ("generation failed for " ++ ", ".intercalate (failed.map JobReport.title)) log

section Actions

variable {m : Type → Type} [Monad m] [FileSystem m]

/-- Reads the pages of families, passing over those that have no directory. -/
def loadPages (root : Path) : List String → m (Except LoadFault (List Documentation))
  | [] => return .ok []
  | family :: rest => do
      let directory := below root family
      if ← FileSystem.isDirectory directory then
        match ← Files.documentation family directory with
        | .error fault => return .error fault
        | .ok documentation =>
            return (← loadPages root rest).map fun later => documentation :: later
      else
        loadPages root rest

/-- The pages of families that were read, in the order of preference. -/
def pagesOf (pages : List Documentation) (families : List String) : List Documentation :=
  families.filterMap fun family => pages.find? fun documentation =>
    documentation.family == family

/-- Builds the registry of a job and runs the passes of the job on it. -/
def runJob [Markup.Library] (settings : Settings) (pages : List Documentation)
    (target : Target) (job : Job)
    : m JobReport := do
  match ← Specification.registry job.api job.specifications with
  | .error fault =>
      let message := target.title ++ " (" ++ job.outputClass ++ "): loading the " ++ job.api.title
        ++ " registry: " ++ fault.text
      return { target, job, hasFailed := true, log := [{ level := .error, message }] }
  | .ok registry =>
      let context : Context := {
        api := job.api
        outputClass := job.outputClass
        registry
        docs := pagesOf pages target.pageFamilies
        emitsDocs := settings.emitsDocs
      }
      let report ← run (Artifact.storeBelow settings.out) context job.profile job.passes
      return { target, job, hasFailed := report.hasFailures, log := report.log }

/-- Runs the jobs of targets, one after the other. -/
def runJobs [Markup.Library] (settings : Settings) (pages : List Documentation)
    (targets : List Target)
    : m (List JobReport) :=
  let jobs := targets.flatMap fun target => (target.jobs settings).map fun job => (target, job)
  jobs.mapM fun (target, job) => runJob settings pages target job

/-- Reads the pages of families below the directory for them, if there is one. -/
def loadPagesOf (root : Option Path) (families : List String)
    : m (Except LoadFault (List Documentation)) :=
  match root with
  | some root => loadPages root families
  | none => return .ok []

/-- Runs what the arguments ask for. There are no reports, but a message, if no job can be run. -/
def runGiven [Markup.Library] (given : Arguments) : m (Except String (List JobReport)) := do
  match glProfile? given.profileName with
  | none =>
      return .error ("unknown GL profile `" ++ given.profileName
        ++ "`, expected core, compatibility, es2 or sc2")
  | some profile =>
      let families := (given.targets.flatMap Target.pageFamilies).eraseDups
      match ← loadPagesOf given.pageRoot? families with
      | .error _ => return .error "loading reference pages"
      | .ok pages => return .ok (← runJobs (given.settingsUnder profile) pages given.targets)

/-- Runs a command line. -/
def runArguments [Markup.Library] (arguments : List String) : m Ending := do
  match Arguments.read {} arguments with
  | .error .helpAsked => return { code := 0, tellsUsage := true }
  | .error .misused => return { code := 2, tellsUsage := true }
  | .ok given => return .ofRun (← runGiven given)

end Actions

end ApiBindings.CommandLine
