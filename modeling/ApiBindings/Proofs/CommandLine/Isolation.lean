import ApiBindings.Proofs.CommandLine.Jobs
import Mathlib.Data.List.Basic

/-! Targets of one run do not touch each other.
A run for several targets is compared with the run for one of them alone. Both leave the same of
this target as long as the reference pages of all targets can be loaded; otherwise no job is run.
-/

namespace ApiBindings.CommandLine

variable {given : Arguments} {target : Target} {tree : FileTree} {profile : Profile}

-----------------------------------------------------------------------------------------
-- One target out of several
-----------------------------------------------------------------------------------------

def Switch.isTarget : Switch → Bool
  | .target _ => true
  | _ => false

/-- The same arguments with a single target. -/
def Arguments.only (given : Arguments) (target : Target) : Arguments :=
  { given with
    switches := (given.switches.filter fun switch => !switch.isTarget) ++ [.target target] }

theorem contains_only {switch : Switch} (general : switch.isTarget = false)
    : (given.only target).switches.contains switch = given.switches.contains switch := by
  have different : switch ≠ .target target := by
    rintro rfl
    cases general
  rw [Bool.eq_iff_iff]
  simp [Arguments.only, general, different]

theorem targets_only (given : Arguments) (target : Target)
    : (given.only target).targets = [target] := by
  have chosen (other : Target)
      : (given.only target).switches.contains (.target other) = (other == target) := by
    rw [Bool.eq_iff_iff]
    simp [Arguments.only, Switch.isTarget]
  unfold Arguments.targets
  simp only [chosen]
  cases target <;> rfl

theorem settingsUnder_only (given : Arguments) (target : Target) (profile : Profile)
    : (given.only target).settingsUnder profile = given.settingsUnder profile := by
  unfold Arguments.settingsUnder
  rw [contains_only rfl, contains_only rfl]
  rfl

theorem pageRoot?_only (given : Arguments) (target : Target)
    : (given.only target).pageRoot? = given.pageRoot? := by
  unfold Arguments.pageRoot?
  rw [contains_only rfl]
  rfl

theorem nodup_targets (given : Arguments) : given.targets.Nodup := by
  unfold Arguments.targets
  split
  · decide
  · have all : Target.all.Nodup := by decide
    exact all.filter _

-----------------------------------------------------------------------------------------
-- Runs
-----------------------------------------------------------------------------------------

/-- What a run does to a tree. -/
def runIn [Markup.Library] (given : Arguments) (tree : FileTree)
    : Except String (List JobReport) × FileTree :=
  (runGiven given : StateM FileTree _).run tree

/-- The jobs of a run, each with its target. -/
def Arguments.jobsUnder (given : Arguments) (profile : Profile) : List (Target × Job) :=
  given.targets.flatMap fun target =>
    (target.jobs (given.settingsUnder profile)).map fun job => (target, job)

/-- The reference pages of a run. -/
def pagesFor (given : Arguments) (tree : FileTree) : Except LoadFault (List Documentation) :=
  match given.pageRoot? with
  | some root => allPagesIn tree root (given.targets.flatMap Target.pageFamilies).eraseDups
  | none => .ok []

theorem run_loadPagesOf (given : Arguments) (tree : FileTree)
    : (loadPagesOf given.pageRoot? (given.targets.flatMap Target.pageFamilies).eraseDups
        : StateM FileTree _).run tree
      = (pagesFor given tree, tree) := by
  unfold pagesFor loadPagesOf
  cases given.pageRoot? with
  | none => rfl
  | some root => exact run_loadPages root _ tree

theorem runIn_of_unknown [Markup.Library] (unknown : glProfile? given.profileName = none)
    (tree : FileTree)
    : ∃ message, runIn given tree = (.error message, tree) := by
  unfold runIn runGiven
  rw [unknown]
  exact ⟨_, rfl⟩

theorem runIn_of_error [Markup.Library] {fault : LoadFault}
    (known : glProfile? given.profileName = some profile)
    (failed : pagesFor given tree = .error fault)
    : runIn given tree = (.error "loading reference pages", tree) := by
  unfold runIn runGiven
  rw [known]
  dsimp only
  rw [StateT.run_bind, run_loadPagesOf, failed]
  rfl

theorem runIn_of_ok [Markup.Library] {pages : List Documentation}
    (known : glProfile? given.profileName = some profile)
    (loaded : pagesFor given tree = .ok pages)
    : runIn given tree
      = let result := jobsIn (given.settingsUnder profile) pages (given.jobsUnder profile) tree
        (.ok result.1, result.2) := by
  unfold runIn runGiven
  rw [known]
  dsimp only
  rw [StateT.run_bind, run_loadPagesOf, loaded]
  rfl

/-- The reference pages of all targets of a run can be read, unless there are none. -/
def Arguments.PagesLoad (given : Arguments) (tree : FileTree) : Prop :=
  ∀ root, given.pageRoot? = some root →
    ∀ target ∈ given.targets, ∀ family ∈ target.pageFamilies,
      CommandLine.PagesLoad tree root family

theorem exists_pagesFor_iff (given : Arguments) (tree : FileTree)
    : (∃ pages, pagesFor given tree = .ok pages) ↔ given.PagesLoad tree := by
  unfold pagesFor Arguments.PagesLoad
  cases given.pageRoot? with
  | none => exact iff_of_true ⟨[], rfl⟩ fun root absent => by cases absent
  | some root =>
      simp only [exists_allPagesIn_iff, List.mem_eraseDups, List.mem_flatMap]
      exact ⟨fun all _ same target member family among =>
          Option.some.inj same ▸ all family ⟨target, member, among⟩,
        fun all family ⟨target, member, among⟩ => all root rfl target member family among⟩

theorem Arguments.PagesLoad.only (load : given.PagesLoad tree) (member : target ∈ given.targets)
    : (given.only target).PagesLoad tree := by
  intro root place other among
  rw [targets_only] at among
  obtain rfl := List.mem_singleton.mp among
  exact load root (pageRoot?_only given other ▸ place) other member

/-- A target has the same pages among others as alone. -/
theorem pagesOf_only {pages pagesAlone : List Documentation} (member : target ∈ given.targets)
    (loaded : pagesFor given tree = .ok pages)
    (loadedAlone : pagesFor (given.only target) tree = .ok pagesAlone)
    : pagesOf pages target.pageFamilies = pagesOf pagesAlone target.pageFamilies := by
  unfold pagesFor at loaded loadedAlone
  rw [pageRoot?_only, targets_only] at loadedAlone
  cases place : given.pageRoot? with
  | none =>
      rw [place] at loaded loadedAlone
      rw [← Except.ok.inj loaded, ← Except.ok.inj loadedAlone]
  | some root =>
      rw [place] at loaded loadedAlone
      refine List.filterMap_congr fun family among => ?_
      have listed : family ∈ (given.targets.flatMap Target.pageFamilies).eraseDups :=
        List.mem_eraseDups.mpr (List.mem_flatMap.mpr ⟨target, member, among⟩)
      have listedAlone : family ∈ ([target].flatMap Target.pageFamilies).eraseDups := by
        simpa using among
      rw [find?_allPagesIn loaded family, find?_allPagesIn loadedAlone family]
      simp only [listed, listedAlone]

theorem mem_jobs_of_mem_jobsUnder {entry : Target × Job} (member : entry ∈ given.jobsUnder profile)
    : entry.2 ∈ entry.1.jobs (given.settingsUnder profile) := by
  obtain ⟨target, -, among⟩ := List.mem_flatMap.mp member
  obtain ⟨job, listed, rfl⟩ := List.mem_map.mp among
  exact listed

/-- Alone a target has the jobs that it has among others. -/
theorem jobsUnder_only (member : target ∈ given.targets) (profile : Profile)
    : (given.only target).jobsUnder profile
      = (given.jobsUnder profile).filter fun entry => entry.1 = target := by
  have own (targets : List Target) (distinct : targets.Nodup)
      : ((targets.flatMap fun other =>
            (other.jobs (given.settingsUnder profile)).map fun job => (other, job)).filter
          fun entry => entry.1 = target)
        = if target ∈ targets then
            (target.jobs (given.settingsUnder profile)).map fun job => (target, job)
          else [] := by
    induction targets with
    | nil => rfl
    | cons first rest ih =>
        obtain ⟨absent, distinct⟩ := List.nodup_cons.mp distinct
        rw [List.flatMap_cons, List.filter_append, ih distinct]
        by_cases same : first = target
        · subst same
          simp [absent]
        · simp [same, Ne.symm same]
  unfold Arguments.jobsUnder
  rw [own given.targets (nodup_targets given), if_pos member, targets_only, settingsUnder_only]
  exact List.append_nil _

-----------------------------------------------------------------------------------------
-- Isolation
-----------------------------------------------------------------------------------------

section

variable [Markup.Library]

/-- The output classes of a target's jobs that have been completed by a run. -/
def completedBy (target : Target) : Except String (List JobReport) → List String
  | .error _ => []
  | .ok reports => completed target reports

/-- A run leaves the same of a target as the run for this target alone. -/
structure Arguments.Isolates (given : Arguments) (target : Target) (tree : FileTree) : Prop where
  completed
    : completedBy target (runIn given tree).1
      = completedBy target (runIn (given.only target) tree).1
  files
    : ∀ directory, ∀ name ∈ target.fileNames,
        (runIn given tree).2.file? (directory ++ [name])
        = (runIn (given.only target) tree).2.file? (directory ++ [name])

/-- A run completes no job of a target and changes none of its files. -/
structure Arguments.LeavesOut (given : Arguments) (target : Target) (tree : FileTree)
    : Prop where
  completed : completedBy target (runIn given tree).1 = []
  files
    : ∀ directory, ∀ name ∈ target.fileNames,
        (runIn given tree).2.file? (directory ++ [name]) = tree.file? (directory ++ [name])

/-- Making the directory that artifacts are stored in makes no difference to the specifications of
a target.
-/
def Arguments.KeepsSpecifications (given : Arguments) (target : Target) (tree : FileTree)
    : Prop :=
  ∀ profile, glProfile? given.profileName = some profile →
    ∀ job ∈ target.jobs (given.settingsUnder profile),
      registryIn (tree.made (given.path .out "generated")) job = registryIn tree job

theorem keepsSpecifications_of_isDirectory
    (isDirectory : tree.isDirectory (given.path .out "generated") = true)
    : given.KeepsSpecifications target tree := by
  intro profile _ job _
  rw [FileTree.made_of_isDirectory isDirectory]

theorem isolates_of_pagesLoad (member : target ∈ given.targets)
    (keeps : given.KeepsSpecifications target tree)
    (known : glProfile? given.profileName = some profile) (load : given.PagesLoad tree)
    : given.Isolates target tree := by
  obtain ⟨pages, loaded⟩ := (exists_pagesFor_iff given tree).mpr load
  obtain ⟨pagesAlone, loadedAlone⟩ :=
    (exists_pagesFor_iff (given.only target) tree).mpr (load.only member)
  have kept : Kept (given.settingsUnder profile).out (target.jobs (given.settingsUnder profile))
      tree tree := {
    accepts := fun _ _ => Iff.rfl
    registry := fun _ _ => rfl
    made := keeps profile known
  }
  have alike : Alike (given.settingsUnder profile) target tree tree tree :=
    ⟨kept, kept, fun _ _ _ => rfl⟩
  obtain ⟨completed, alike'⟩ :=
    alike.jobs (fun _ => mem_jobs_of_mem_jobsUnder) (pagesOf_only member loaded loadedAlone)
  have here := runIn_of_ok known loaded
  have there : runIn (given.only target) tree = _ := runIn_of_ok known loadedAlone
  rw [settingsUnder_only, jobsUnder_only member] at there
  constructor
  · rw [here, there]
    exact completed
  · rw [here, there]
    exact alike'.files

/-- A target of a run is isolated from the others if and only if the reference pages of all of them
can be read, or the target alone comes to nothing anyway.
-/
theorem isolates_iff {given : Arguments} {target : Target} {tree : FileTree}
    (member : target ∈ given.targets) (keeps : given.KeepsSpecifications target tree)
    : given.Isolates target tree
      ↔ given.PagesLoad tree ∨ (given.only target).LeavesOut target tree := by
  cases known : glProfile? given.profileName with
  | none =>
      obtain ⟨_, here⟩ := runIn_of_unknown known tree
      have unknown : glProfile? (given.only target).profileName = none := known
      obtain ⟨_, there⟩ := runIn_of_unknown unknown tree
      refine iff_of_true ⟨?_, ?_⟩ (.inr ⟨?_, ?_⟩) <;> simp [here, there, completedBy]
  | some profile =>
      by_cases load : given.PagesLoad tree
      · exact iff_of_true (isolates_of_pagesLoad member keeps known load) (.inl load)
      · rw [or_iff_right load]
        cases loaded : pagesFor given tree with
        | ok pages => exact absurd ((exists_pagesFor_iff given tree).mp ⟨pages, loaded⟩) load
        | error fault =>
            have here := runIn_of_error known loaded
            constructor
            · rintro ⟨completed, files⟩
              rw [here] at completed files
              exact ⟨completed.symm, fun directory name own => (files directory name own).symm⟩
            · rintro ⟨completed, files⟩
              refine ⟨?_, fun directory name own => ?_⟩
              · rw [here, completed]
                rfl
              · rw [here, files directory name own]

end

/-- Two targets with reference pages. -/
def twoTargets : Arguments where
  switches := [.target .gl, .target .egl]
  settings := [(.docs, "docs")]

/-- A tree in which the specification of one of them is missing. -/
def oneSpecification : FileTree where
  entries := [
    (["generated"], .directory),
    (["specs"], .directory),
    (["specs", "gl.xml"], .file "<registry/>"),
    (["docs"], .directory),
    (["docs", "gl4"], .directory),
    (["docs", "gl4", "glFlush.txt"], .file "Flushes.")
  ]

/-- The other one is generated as it is alone. -/
theorem oneSpecification_isolates
    : Target.gl ∈ twoTargets.targets
        ∧ twoTargets.KeepsSpecifications .gl oneSpecification
        ∧ twoTargets.Isolates .gl oneSpecification
        ∧ completedBy .gl (runIn twoTargets oneSpecification).1 = ["gl"]
        ∧ completedBy .egl (runIn twoTargets oneSpecification).1 = [] := by
  have member : Target.gl ∈ twoTargets.targets := by decide +kernel
  have keeps : twoTargets.KeepsSpecifications .gl oneSpecification :=
    keepsSpecifications_of_isDirectory (by decide +kernel)
  have load : twoTargets.PagesLoad oneSpecification := by
    refine (exists_pagesFor_iff _ _).mp ?_
    have loaded : (pagesFor twoTargets oneSpecification).isOk = true := by decide +kernel
    cases result : pagesFor twoTargets oneSpecification with
    | ok pages => exact ⟨pages, rfl⟩
    | error fault =>
        rw [result] at loaded
        cases loaded
  have outcomes
      : completedBy .gl (runIn twoTargets oneSpecification).1 = ["gl"]
        ∧ completedBy .egl (runIn twoTargets oneSpecification).1 = [] := by
    decide +kernel
  exact ⟨member, keeps, (isolates_iff member keeps).mpr (.inl load), outcomes⟩

/-- A tree in which a reference page of one of them cannot be read. -/
def brokenPage : FileTree where
  entries := [
    (["specs"], .directory),
    (["specs", "gl.xml"], .file "<registry/>"),
    (["specs", "egl.xml"], .file "<registry/>"),
    (["docs"], .directory),
    (["docs", "egl"], .directory),
    (["docs", "egl", "broken.txt"], .directory)
  ]

/-- The other one is not generated, though it does not need that page. -/
theorem brokenPage_not_isolates
    : ¬ twoTargets.Isolates .gl brokenPage
        ∧ completedBy .gl (runIn twoTargets brokenPage).1 = []
        ∧ completedBy .gl (runIn (twoTargets.only .gl) brokenPage).1 = ["gl"] := by
  have together : completedBy .gl (runIn twoTargets brokenPage).1 = [] := by decide +kernel
  have alone : completedBy .gl (runIn (twoTargets.only .gl) brokenPage).1 = ["gl"] := by
    decide +kernel
  refine ⟨fun isolates => ?_, together, alone⟩
  cases together.symm.trans (isolates.completed.trans alone)

end ApiBindings.CommandLine
