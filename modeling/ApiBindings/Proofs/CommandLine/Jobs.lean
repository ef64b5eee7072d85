import ApiBindings.Proofs.CommandLine.Output
import ApiBindings.Proofs.Storing.Passes

/-! Jobs of several targets next to those of one of them.
The jobs of other targets store their artifacts under other names, and no job reads a file that has
the name of an artifact. So the jobs of a target do the same among the jobs of others as alone.
-/

namespace ApiBindings.CommandLine

variable {settings : Settings} {target other : Target} {job : Job} {name : String}

-----------------------------------------------------------------------------------------
-- Names of files
-----------------------------------------------------------------------------------------

/-- The output classes of a target's jobs. -/
def Target.classes : Target → List String
  | .vx => ["vx", "vxu"]
  | target => [target.name]

/-- The names that the artifacts of a target can have. -/
def Target.fileNames (target : Target) : List String :=
  target.classes.flatMap fun outputClass => Pass.all.map fun pass => pass.fileName outputClass

/-- The names of all files that specifications are in. -/
def specificationNames : List String :=
  ["gl.xml", "wgl.xml", "glx.xml", "egl.xml", "wfc.h", "wfd.h", "vx_api.h", "vx_types.h",
    "vx_kernels.h", "vx_nodes.h", "vx_vendors.h", "vx_import.h", "vx_khr_icd.h", "vx_khr_ix.h",
    "vx_khr_nn.h", "vx_khr_tiling.h", "vx_khr_xml.h", "vxu.h"]

theorem isName_of_mem_fileNames (member : name ∈ target.fileNames) : Path.IsName name := by
  have all : ∀ target ∈ Target.all, ∀ name ∈ target.fileNames, Path.IsName name := by
    decide +kernel
  exact all target (by cases target <;> decide) name member

theorem not_mem_fileNames (different : other ≠ target) (member : name ∈ other.fileNames)
    : name ∉ target.fileNames := by
  have all
      : ∀ other ∈ Target.all, ∀ target ∈ Target.all, other ≠ target →
          ∀ name ∈ other.fileNames, name ∉ target.fileNames := by
    decide +kernel
  exact all other (by cases other <;> decide) target (by cases target <;> decide) different name
    member

theorem of_mem_specificationNames (known : name ∈ specificationNames)
    : Path.IsName name ∧ name ∉ target.fileNames := by
  have all
      : ∀ name ∈ specificationNames, Path.IsName name ∧ ∀ target ∈ Target.all,
          name ∉ target.fileNames := by
    decide +kernel
  obtain ⟨proper, absent⟩ := all name known
  exact ⟨proper, absent target (by cases target <;> decide)⟩

theorem outputClass_mem_classes (member : job ∈ target.jobs settings)
    : job.outputClass ∈ target.classes := by
  cases target with
  | gl | wgl | glx | egl =>
      obtain rfl := List.mem_singleton.mp member
      exact List.mem_singleton.mpr rfl
  | wfc | wfd =>
      unfold Target.jobs at member
      dsimp only at member
      split_ifs at member
      · cases member
      · obtain rfl := List.mem_singleton.mp member
        exact List.mem_singleton.mpr rfl
  | vx =>
      unfold Target.jobs at member
      dsimp only at member
      split_ifs at member
      · cases member
      · simp only [List.mem_cons, List.not_mem_nil, or_false] at member
        rcases member with rfl | rfl
        · exact List.mem_cons_self
        · exact List.mem_cons_of_mem _ List.mem_cons_self

theorem exists_of_mem_files (member : job ∈ target.jobs settings) {path : Path}
    (among : path ∈ job.files)
    : ∃ base, ∃ name ∈ specificationNames, path = below base name := by
  cases target with
  | gl | wgl | glx | egl =>
      obtain rfl := List.mem_singleton.mp member
      obtain rfl := List.mem_singleton.mp among
      exact ⟨settings.specs, _, by decide, rfl⟩
  | wfc | wfd =>
      unfold Target.jobs at member
      dsimp only at member
      split_ifs at member
      · cases member
      · obtain rfl := List.mem_singleton.mp member
        obtain rfl := List.mem_singleton.mp among
        exact ⟨below settings.specs "WF", _, by decide, rfl⟩
  | vx =>
      have vision
          : (visionJob settings).files
            = (specificationNames.drop 6).dropLast.map (below (below settings.specs "VX")) := by
        rfl
      have utility
          : (visionUtilityJob settings).files
            = (((specificationNames.drop 6).take 6) ++ ["vxu.h"]).map
                (below (below settings.specs "VX")) := by
        rfl
      unfold Target.jobs at member
      dsimp only at member
      split_ifs at member
      · cases member
      · simp only [List.mem_cons, List.not_mem_nil, or_false] at member
        rcases member with rfl | rfl
        · obtain ⟨name, listed, rfl⟩ := List.mem_map.mp (vision ▸ among)
          exact ⟨_, name, List.mem_of_mem_drop (List.dropLast_subset _ listed), rfl⟩
        · obtain ⟨name, listed, rfl⟩ := List.mem_map.mp (utility ▸ among)
          refine ⟨_, name, ?_, rfl⟩
          rcases List.mem_append.mp listed with shared | own
          · exact List.mem_of_mem_drop (List.mem_of_mem_take shared)
          · obtain rfl := List.mem_singleton.mp own
            decide

/-- A target's jobs read no files that have the name of an artifact. -/
theorem readsOther_of_mem_jobs (member : job ∈ target.jobs settings)
    (stored : name ∈ other.fileNames)
    : job.ReadsOther name := by
  intro path among
  obtain ⟨base, known, listed, rfl⟩ := exists_of_mem_files member among
  obtain ⟨proper, absent⟩ := @of_mem_specificationNames other _ listed
  exact ⟨base, known, rfl, proper, fun same => absent (same ▸ stored)⟩

-----------------------------------------------------------------------------------------
-- Files and reports
-----------------------------------------------------------------------------------------

variable {out : Path} {context : Context} {resolution : Resolution} {pass : Pass}
variable {tree alone start : FileTree} {artifact : Artifact}

theorem fileName_mem_fileNames (member : job ∈ target.jobs settings) (pass : Pass)
    : pass.fileName job.outputClass ∈ target.fileNames :=
  List.mem_flatMap.mpr ⟨job.outputClass, outputClass_mem_classes member,
    List.mem_map.mpr ⟨pass, by cases pass <;> decide, rfl⟩⟩

theorem goal_ne (proper : Path.IsName name) {directory : List String} {other : String}
    (different : other ≠ name)
    : directory ++ [other] ≠ FileTree.goal (below out name) := by
  intro same
  rw [below, FileTree.goal_join_name proper] at same
  obtain ⟨-, last⟩ := List.append_inj' same rfl
  exact different (List.singleton_inj.mp last)

theorem file?_storeIn_of_ne (proper : Path.IsName name)
    (destination : artifact.destination = { text := name }) {directory : List String}
    {other : String} (different : other ≠ name)
    : (Artifact.storeIn out artifact tree).2.file? (directory ++ [other])
      = tree.file? (directory ++ [other]) := by
  have named : (out.join artifact.destination).IsNamed := destination ▸ proper.isNamed.join out
  by_cases accepts : tree.Accepts (out.join artifact.destination)
  · rw [Artifact.file?_storeIn named accepts, destination]
    exact if_neg (goal_ne proper different)
  · exact Artifact.file?_storeIn_of_not_accepts named accepts _

theorem hasFailed_eq (report : PassReport) : report.hasFailed = !report.outcome.isOk := by
  unfold PassReport.hasFailed
  cases report.outcome <;> rfl

/-- The output classes of a target's jobs that did not fail. -/
def completed (target : Target) (reports : List JobReport) : List String :=
  (reports.filter fun report => report.target = target ∧ report.hasFailed = false).map
    fun report => report.job.outputClass

theorem completed_cons_of_ne {report : JobReport} (different : report.target ≠ target)
    (reports : List JobReport)
    : completed target (report :: reports) = completed target reports := by
  unfold completed
  rw [List.filter_cons_of_neg (by simp [different])]

theorem completed_cons_congr {report report' : JobReport} {reports reports' : List JobReport}
    (sameTarget : report.target = report'.target) (sameJob : report.job = report'.job)
    (sameOutcome : report.hasFailed = report'.hasFailed)
    (same : completed target reports = completed target reports')
    : completed target (report :: reports) = completed target (report' :: reports') := by
  unfold completed at *
  rw [List.filter_cons, List.filter_cons, sameTarget, sameOutcome]
  split_ifs
  · rw [List.map_cons, List.map_cons, sameJob, same]
  · exact same

-----------------------------------------------------------------------------------------
-- Passes
-----------------------------------------------------------------------------------------

section

variable [Markup.Library]

/-- What one pass does to a tree. -/
def passIn (out : Path) (context : Context) (resolution : Resolution) (pass : Pass)
    (tree : FileTree)
    : PassReport × FileTree :=
  (runPass (Artifact.storeBelow out) context resolution pass : StateM FileTree _).run tree

/-- What some passes do to a tree. -/
def passesIn (out : Path) (context : Context) (resolution : Resolution) (passes : List Pass)
    (tree : FileTree)
    : List PassReport × FileTree :=
  (passes.mapM (runPass (Artifact.storeBelow out) context resolution) : StateM FileTree _).run tree

theorem passIn_eq (placed : (context.destination pass).isEmpty = false)
    (resolution : Resolution) (tree : FileTree)
    : let result := Artifact.storeIn out (context.artifact resolution pass) tree
      passIn out context resolution pass tree
      = ({ pass, destination := some (context.destination pass), outcome := result.1 },
        result.2) := by
  unfold passIn runPass Artifact.generate
  rw [if_neg (by simp [placed])]
  rfl

theorem passesIn_cons (out : Path) (context : Context) (resolution : Resolution) (pass : Pass)
    (rest : List Pass) (tree : FileTree)
    : let first := passIn out context resolution pass tree
      let later := passesIn out context resolution rest first.2
      passesIn out context resolution (pass :: rest) tree = (first.1 :: later.1, later.2) := by
  unfold passesIn
  rw [List.mapM_cons]
  rfl

/-- A run for several targets and one for a single target of them are alike for this one. -/
structure Alike (settings : Settings) (target : Target) (start tree alone : FileTree)
    : Prop where
  kept : Kept settings.out (target.jobs settings) start tree
  keptAlone : Kept settings.out (target.jobs settings) start alone
  files
    : ∀ directory, ∀ name ∈ target.fileNames,
        tree.file? (directory ++ [name]) = alone.file? (directory ++ [name])

/-- An artifact of another target does not touch the target. -/
theorem Alike.store_other (alike : Alike settings target start tree alone)
    (different : other ≠ target) (stored : name ∈ other.fileNames)
    (destination : artifact.destination = { text := name })
    : Alike settings target start (Artifact.storeIn settings.out artifact tree).2 alone where
  kept :=
    alike.kept.store (isName_of_mem_fileNames stored) destination fun _ member =>
      readsOther_of_mem_jobs member stored
  keptAlone := alike.keptAlone
  files directory own member := by
    rw [file?_storeIn_of_ne (isName_of_mem_fileNames stored) destination fun same => ?_]
    · exact alike.files directory own member
    · exact not_mem_fileNames different stored (same ▸ member)

/-- An artifact of the target itself is stored in both runs or in none. -/
theorem Alike.store_own (alike : Alike settings target start tree alone)
    (stored : name ∈ target.fileNames) (destination : artifact.destination = { text := name })
    : (Artifact.storeIn settings.out artifact tree).1.isOk
        = (Artifact.storeIn settings.out artifact alone).1.isOk
      ∧ Alike settings target start (Artifact.storeIn settings.out artifact tree).2
          (Artifact.storeIn settings.out artifact alone).2 := by
  have proper := isName_of_mem_fileNames stored
  have named : (settings.out.join artifact.destination).IsNamed :=
    destination ▸ proper.isNamed.join settings.out
  have accepts
      : tree.Accepts (settings.out.join artifact.destination)
        ↔ alone.Accepts (settings.out.join artifact.destination) := by
    rw [destination]
    exact (alike.kept.accepts name proper).trans (alike.keptAlone.accepts name proper).symm
  have others (job : Job) (member : job ∈ target.jobs settings) : job.ReadsOther name :=
    readsOther_of_mem_jobs member stored
  refine ⟨?_, {
    kept := alike.kept.store proper destination others
    keptAlone := alike.keptAlone.store proper destination others
    files := fun directory own member => ?_
  }⟩
  · rw [Bool.eq_iff_iff, Artifact.isOk_storeIn_iff named, Artifact.isOk_storeIn_iff named, accepts]
  · by_cases possible : tree.Accepts (settings.out.join artifact.destination)
    · rw [Artifact.file?_storeIn named possible, Artifact.file?_storeIn named (accepts.mp possible),
        alike.files directory own member]
    · rw [Artifact.file?_storeIn_of_not_accepts named possible,
        Artifact.file?_storeIn_of_not_accepts named (mt accepts.mpr possible),
        alike.files directory own member]

/-- The passes of a job of another target do not touch the target, by induction on the passes. -/
theorem Alike.passes_other (alike : Alike settings target start tree alone)
    (different : other ≠ target) (member : job ∈ other.jobs settings)
    (destination
      : ∀ pass, context.destination pass = { text := pass.fileName job.outputClass })
    (resolution : Resolution) (passes : List Pass)
    : Alike settings target start (passesIn settings.out context resolution passes tree).2
        alone := by
  induction passes generalizing tree with
  | nil => exact alike
  | cons pass rest ih =>
      have stored := fileName_mem_fileNames member pass
      have placed : (context.destination pass).isEmpty = false := by
        rw [destination]
        exact beq_eq_false_iff_ne.mpr (isName_of_mem_fileNames stored).ne_empty
      rw [passesIn_cons]
      refine ih ?_
      rw [passIn_eq placed]
      exact alike.store_other different stored (destination pass)

/-- The passes of a job of the target itself fail in both runs or in none, by induction on the
passes.
-/
theorem Alike.passes_own (alike : Alike settings target start tree alone)
    (member : job ∈ target.jobs settings)
    (destination
      : ∀ pass, context.destination pass = { text := pass.fileName job.outputClass })
    (resolution : Resolution) (passes : List Pass)
    : let here := passesIn settings.out context resolution passes tree
      let there := passesIn settings.out context resolution passes alone
      here.1.map PassReport.hasFailed = there.1.map PassReport.hasFailed
        ∧ Alike settings target start here.2 there.2 := by
  induction passes generalizing tree alone with
  | nil => exact ⟨rfl, alike⟩
  | cons pass rest ih =>
      have stored := fileName_mem_fileNames member pass
      have placed : (context.destination pass).isEmpty = false := by
        rw [destination]
        exact beq_eq_false_iff_ne.mpr (isName_of_mem_fileNames stored).ne_empty
      have artifact : (context.artifact resolution pass).destination = _ := destination pass
      obtain ⟨outcome, alike'⟩ := alike.store_own stored artifact
      obtain ⟨outcomes, alike''⟩ := ih alike'
      simp only [passesIn_cons, passIn_eq placed]
      refine ⟨?_, alike''⟩
      simp only [List.map_cons, outcomes, hasFailed_eq, outcome]

-----------------------------------------------------------------------------------------
-- Jobs
-----------------------------------------------------------------------------------------

variable {pages pagesAlone : List Documentation}

/-- What a job does to a tree. -/
def jobIn (settings : Settings) (pages : List Documentation) (target : Target) (job : Job)
    (tree : FileTree)
    : JobReport × FileTree :=
  (runJob settings pages target job : StateM FileTree _).run tree

/-- What some jobs do to a tree. -/
def jobsIn (settings : Settings) (pages : List Documentation) (jobs : List (Target × Job))
    (tree : FileTree)
    : List JobReport × FileTree :=
  (jobs.mapM fun (target, job) => runJob settings pages target job : StateM FileTree _).run tree

/-- The setting of a job, once its registry has been built. -/
def Job.contextFor (job : Job) (settings : Settings) (pages : List Documentation)
    (target : Target) (registry : Registry)
    : Context where
  api := job.api
  outputClass := job.outputClass
  registry := registry
  docs := pagesOf pages target.pageFamilies
  emitsDocs := settings.emitsDocs

theorem jobIn_of_error {fault : LoadFault} (failed : registryIn tree job = .error fault)
    (settings : Settings) (pages : List Documentation) (target : Target)
    : ∃ log,
        jobIn settings pages target job tree = ({ target, job, hasFailed := true, log }, tree) := by
  unfold jobIn runJob
  rw [StateT.run_bind, run_registry, failed]
  exact ⟨_, rfl⟩

theorem jobIn_of_ok {registry : Registry} (built : registryIn tree job = .ok registry)
    (settings : Settings) (pages : List Documentation) (target : Target)
    : ∃ log,
        let result :=
          passesIn settings.out (job.contextFor settings pages target registry)
            (registry.resolve job.profile) job.passes tree
        jobIn settings pages target job tree
        = ({ target, job, hasFailed := result.1.any PassReport.hasFailed, log }, result.2) := by
  unfold jobIn runJob
  rw [StateT.run_bind, run_registry, built]
  exact ⟨_, rfl⟩

/-- A report is on the job that has been run. -/
theorem jobIn_fst (settings : Settings) (pages : List Documentation) (target : Target)
    (job : Job) (tree : FileTree)
    : (jobIn settings pages target job tree).1.target = target
      ∧ (jobIn settings pages target job tree).1.job = job := by
  cases built : registryIn tree job with
  | error fault =>
      obtain ⟨_, eq⟩ := jobIn_of_error built settings pages target
      rw [eq]
      exact ⟨rfl, rfl⟩
  | ok registry =>
      obtain ⟨_, eq⟩ := jobIn_of_ok built settings pages target
      rw [eq]
      exact ⟨rfl, rfl⟩

theorem jobsIn_nil (settings : Settings) (pages : List Documentation) (tree : FileTree)
    : jobsIn settings pages [] tree = ([], tree) :=
  rfl

theorem jobsIn_cons (settings : Settings) (pages : List Documentation) (target : Target)
    (job : Job) (rest : List (Target × Job)) (tree : FileTree)
    : let first := jobIn settings pages target job tree
      let later := jobsIn settings pages rest first.2
      jobsIn settings pages ((target, job) :: rest) tree = (first.1 :: later.1, later.2) := by
  unfold jobsIn
  rw [List.mapM_cons]
  rfl

/-- A job of another target does not touch the target. -/
theorem Alike.job_other (alike : Alike settings target start tree alone)
    (different : other ≠ target) (member : job ∈ other.jobs settings)
    (pages : List Documentation)
    : Alike settings target start (jobIn settings pages other job tree).2 alone := by
  cases built : registryIn tree job with
  | error fault =>
      obtain ⟨log, eq⟩ := jobIn_of_error built settings pages other
      rw [eq]
      exact alike
  | ok registry =>
      obtain ⟨log, eq⟩ := jobIn_of_ok built settings pages other
      rw [eq]
      exact alike.passes_other different member (fun _ => rfl) _ _

/-- A job of the target itself fails in both runs or in none. -/
theorem Alike.job_own (alike : Alike settings target start tree alone)
    (member : job ∈ target.jobs settings)
    (samePages : pagesOf pages target.pageFamilies = pagesOf pagesAlone target.pageFamilies)
    : let here := jobIn settings pages target job tree
      let there := jobIn settings pagesAlone target job alone
      here.1.hasFailed = there.1.hasFailed ∧ Alike settings target start here.2 there.2 := by
  have same : registryIn alone job = registryIn tree job :=
    (alike.keptAlone.registry job member).trans (alike.kept.registry job member).symm
  cases built : registryIn tree job with
  | error fault =>
      obtain ⟨_, eq⟩ := jobIn_of_error built settings pages target
      obtain ⟨_, eqAlone⟩ := jobIn_of_error (same.trans built) settings pagesAlone target
      rw [eq, eqAlone]
      exact ⟨rfl, alike⟩
  | ok registry =>
      obtain ⟨_, eq⟩ := jobIn_of_ok built settings pages target
      obtain ⟨_, eqAlone⟩ := jobIn_of_ok (same.trans built) settings pagesAlone target
      have context
          : job.contextFor settings pages target registry
            = job.contextFor settings pagesAlone target registry := by
        unfold Job.contextFor
        rw [samePages]
      obtain ⟨outcomes, alike'⟩ :=
        @Alike.passes_own _ _ _ (job.contextFor settings pagesAlone target registry) _ _ _ _ alike
          member (fun _ => rfl) (registry.resolve job.profile) job.passes
      have any (reports : List PassReport)
          : reports.any PassReport.hasFailed = (reports.map PassReport.hasFailed).any id := by
        rw [List.any_map]
        rfl
      rw [eq, eqAlone, context]
      refine ⟨?_, alike'⟩
      dsimp only
      rw [any, any, outcomes]

/-- The jobs of a target do the same among those of other targets as alone, by induction on the
jobs.
-/
theorem Alike.jobs {jobs : List (Target × Job)} (alike : Alike settings target start tree alone)
    (members : ∀ entry ∈ jobs, entry.2 ∈ entry.1.jobs settings)
    (samePages : pagesOf pages target.pageFamilies = pagesOf pagesAlone target.pageFamilies)
    : let here := jobsIn settings pages jobs tree
      let there := jobsIn settings pagesAlone (jobs.filter fun entry => entry.1 = target) alone
      completed target here.1 = completed target there.1
        ∧ Alike settings target start here.2 there.2 := by
  induction jobs generalizing tree alone with
  | nil =>
      simp only [List.filter_nil, jobsIn_nil]
      exact ⟨trivial, alike⟩
  | cons entry rest ih =>
      obtain ⟨other, job⟩ := entry
      obtain ⟨member, later⟩ := List.forall_mem_cons.mp members
      obtain ⟨reported, reportedJob⟩ := jobIn_fst settings pages other job tree
      by_cases different : other = target
      · subst different
        obtain ⟨outcome, alike'⟩ := alike.job_own member samePages
        obtain ⟨reported', reportedJob'⟩ := jobIn_fst settings pagesAlone other job alone
        obtain ⟨outcomes, alike''⟩ := ih alike' later
        rw [List.filter_cons_of_pos (by simp)]
        simp only [jobsIn_cons]
        exact ⟨completed_cons_congr (reported.trans reported'.symm)
          (reportedJob.trans reportedJob'.symm) outcome outcomes, alike''⟩
      · obtain ⟨outcomes, alike'⟩ := ih (alike.job_other different member pages) later
        rw [List.filter_cons_of_neg (by simpa using different)]
        simp only [jobsIn_cons]
        refine ⟨?_, alike'⟩
        rw [completed_cons_of_ne fun same => different (reported.symm.trans same), outcomes]

end

end ApiBindings.CommandLine
