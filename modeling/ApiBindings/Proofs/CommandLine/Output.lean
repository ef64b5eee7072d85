import ApiBindings.Proofs.CommandLine.Loading
import ApiBindings.Proofs.Files.Destinations
import ApiBindings.Proofs.Storing.Files

/-! The directory that artifacts are stored in.
All artifacts of a run are files right below one directory. Storing one of them makes that directory
and then the file. So it does not matter for another artifact whether it has been stored before, nor
for a specification that can be told from artifacts by its name.
-/

namespace ApiBindings

variable {tree later : FileTree} {path out : Path} {name : String}

-----------------------------------------------------------------------------------------
-- What loading sees
-----------------------------------------------------------------------------------------

/-- The text of an entry, if it is a file. -/
def Entry.text? : Entry → Option String
  | .file text => some text
  | .directory => none

namespace FileTree

theorem sight_of_isOpenAt (named : path.IsNamed) (fits : tree.Fits path)
    (isOpen : ∀ other ∈ way path, tree.IsOpenAt other)
    : tree.sight path = (tree.get? (goal path)).map Entry.text? := by
  have place : tree.place path = .ok (goal path) := (place_eq_ok_iff named).mpr ⟨rfl, fits, isOpen⟩
  rw [sight, FileTree.read, find, place]
  cases entry : tree.get? (goal path) with
  | none => simp [bind, Except.bind, entry]
  | some entry' => cases entry' <;> simp [bind, Except.bind, entry, Entry.text?]

theorem sight_of_not_isOpenAt (named : path.IsNamed)
    (closed : ¬ (tree.Fits path ∧ ∀ other ∈ way path, tree.IsOpenAt other))
    : tree.sight path = none := by
  rw [sight, FileTree.read, find]
  cases place : tree.place path with
  | ok found => exact absurd ((place_eq_ok_iff named).mp place).2 closed
  | error fault =>
      cases fault with
      | isDirectory => exact absurd place (place_ne_isDirectory tree path)
      | missing => rfl
      | unreadable => rfl

/-- Loading sees the same where there are the same directories and the same at the end of a path. -/
theorem sight_congr (named : path.IsNamed) (limits : later.limits = tree.limits)
    (isOpen : ∀ other, later.IsOpenAt other ↔ tree.IsOpenAt other)
    (same : later.get? (goal path) = tree.get? (goal path))
    : later.sight path = tree.sight path := by
  by_cases able : tree.Fits path ∧ ∀ other ∈ way path, tree.IsOpenAt other
  · have able' : later.Fits path ∧ ∀ other ∈ way path, later.IsOpenAt other :=
      ⟨(fits_congr limits).mpr able.1, fun other onWay => (isOpen other).mpr (able.2 other onWay)⟩
    rw [sight_of_isOpenAt named able.1 able.2, sight_of_isOpenAt named able'.1 able'.2, same]
  · rw [sight_of_not_isOpenAt named able, sight_of_not_isOpenAt named fun able' => able ?_]
    exact ⟨(fits_congr limits).mp able'.1,
      fun other onWay => (isOpen other).mp (able'.2 other onWay)⟩

-----------------------------------------------------------------------------------------
-- Making the directory
-----------------------------------------------------------------------------------------

/-- The tree in which a directory has been made, as far as possible. -/
def made (tree : FileTree) (path : Path) : FileTree :=
  (tree.makeDirectories path).2

theorem limits_made (tree : FileTree) (path : Path) : (tree.made path).limits = tree.limits := by
  unfold made makeDirectories
  split_ifs
  · exact limits_makeAlong tree _ _
  · rfl

theorem made_made (tree : FileTree) (path : Path)
    : (tree.made path).made path = tree.made path := by
  have limits := limits_made tree path
  unfold made at *
  rw [makeDirectories, limits, makeDirectories]
  split_ifs with allowed
  · rw [makeAlong_makeAlong]
  · rfl

theorem made_of_isDirectory (isDirectory : tree.isDirectory path = true)
    : tree.made path = tree := by
  rw [made]
  by_cases allowed : tree.limits.allowsPath path = true
  · rw [makeDirectories_snd allowed]
    exact makeAlong_of_isOpenAt (isOpenAt_of_isDirectory isDirectory)
  · rw [makeDirectories, if_neg allowed]

/-- For a file right below a directory, that directory is made. -/
theorem prepared_eq_made (proper : Path.IsName name)
    (allowed : tree.limits.allowsPath (out.join { text := name }) = true)
    : tree.prepared (out.join { text := name }) = tree.made out := by
  obtain ⟨normal, parts⟩ := proper.isNormal
  have named := normal.named.join out
  have walk : (out.join { text := name }).walk.dropLast = out.walk := by
    rw [Path.walk_join normal.relative, ← normal.parts_eq, parts, List.dropLast_concat]
  rw [prepared, makeDirectories_snd (Path.allowsPath_parent named allowed), origin_parent named,
    Path.walk_parent named, walk, origin_join normal.relative, made,
    makeDirectories_snd (Path.allowsPath_of_join normal.relative allowed)]

/-- Nothing more is made once there is a file. -/
theorem made_stored (proper : Path.IsName name)
    (accepts : tree.Accepts (out.join { text := name })) (content : String)
    : (tree.stored (out.join { text := name }) content).made out
      = tree.stored (out.join { text := name }) content := by
  obtain ⟨normal, -⟩ := proper.isNormal
  have named := normal.named.join out
  have allowed
      : (tree.stored (out.join { text := name }) content).limits.allowsPath out = true := by
    rw [stored, limits_put, limits_prepared]
    exact Path.allowsPath_of_join normal.relative accepts.fits.1
  rw [made, makeDirectories_snd allowed]
  refine makeAlong_of_isOpenAt fun other onWay => ?_
  rw [← way_join_name proper] at onWay
  refine (isOpenAt_stored_iff named content).mpr ⟨fun same => accepts.apart (same ▸ onWay), ?_⟩
  exact isOpenAt_prepared named accepts.fits accepts.clear other onWay

/-- Loading does not see a file with another name. -/
theorem sight_stored {base : Path} {other : String} (proper : Path.IsName name)
    (accepts : tree.Accepts (out.join { text := name })) (content : String)
    (proper' : Path.IsName other) (different : other ≠ name)
    : (tree.stored (out.join { text := name }) content).sight (base.join { text := other })
      = (tree.made out).sight (base.join { text := other }) := by
  have named := proper.isNamed.join out
  rw [← prepared_eq_made proper accepts.fits.1]
  refine sight_congr (proper'.isNamed.join base) rfl (fun place => ?_) ?_
  · rw [isOpenAt_stored_iff named]
    refine and_iff_right_of_imp fun isOpen same => ?_
    exact (of_isOpenAt_prepared named (same ▸ isOpen)).elim accepts.free accepts.apart
  · rw [stored, get?_put (isTop_goal named), if_neg]
    rw [goal_join_name proper, goal_join_name proper']
    intro same
    obtain ⟨-, last⟩ := List.append_inj' same rfl
    exact different (List.singleton_inj.mp last)

end FileTree

namespace CommandLine

-----------------------------------------------------------------------------------------
-- Storing an artifact
-----------------------------------------------------------------------------------------

/-- The files that a job reads. -/
def Job.files (job : Job) : List Path :=
  job.specifications.flatMap Specification.files

/-- The registry of a job. -/
def registryIn [Markup.Library] (tree : FileTree) (job : Job) : Except LoadFault Registry :=
  ((Specification.registry job.api job.specifications : StateM FileTree _).run tree).1

theorem run_registry [Markup.Library] (tree : FileTree) (job : Job)
    : (Specification.registry job.api job.specifications : StateM FileTree _).run tree
      = (registryIn tree job, tree) :=
  (Specification.readsAlike_registry (fun _ _ => rfl) job.api).run_eq

theorem registryIn_congr [Markup.Library] {job : Job}
    (same : ∀ path ∈ job.files, later.sight path = tree.sight path)
    : registryIn later job = registryIn tree job := by
  obtain ⟨value, there, here⟩ := Specification.readsAlike_registry same job.api
  rw [registryIn, registryIn, there, here]

/-- The files of a job can be told from a file with a given name by their own names. -/
def Job.ReadsOther (job : Job) (name : String) : Prop :=
  ∀ path ∈ job.files, ∃ base other,
    path = below base other ∧ Path.IsName other ∧ other ≠ name

/-- Storing artifacts has not changed where others can be stored, nor what some jobs start from. -/
structure Kept [Markup.Library] (out : Path) (jobs : List Job) (start tree : FileTree)
    : Prop where
  accepts
    : ∀ name, Path.IsName name →
        (tree.Accepts (below out name) ↔ start.Accepts (below out name))
  registry : ∀ job ∈ jobs, registryIn tree job = registryIn start job
  made : ∀ job ∈ jobs, registryIn (tree.made out) job = registryIn start job

variable {jobs : List Job} {start : FileTree} {artifact : Artifact}

/-- What there is after storing an artifact under a name. -/
theorem storeIn_snd_cases (proper : Path.IsName name)
    (destination : artifact.destination = { text := name })
    : (Artifact.storeIn out artifact tree).2 = tree
      ∨ (Artifact.storeIn out artifact tree).2 = tree.made out
      ∨ tree.Accepts (below out name)
        ∧ (Artifact.storeIn out artifact tree).2
          = tree.stored (below out name) artifact.content := by
  have cases :=
    Artifact.storeIn_cases out artifact (destination ▸ proper.isNamed.join out) tree
  rw [destination] at cases
  rcases cases with ⟨-, -, eq⟩ | ⟨accepts, -, eq⟩ | ⟨-, -, same | ⟨allowed, same⟩⟩
  · exact .inl (congrArg Prod.snd eq)
  · exact .inr (.inr ⟨accepts, congrArg Prod.snd eq⟩)
  · exact .inl same
  · exact .inr (.inl (same.trans (FileTree.prepared_eq_made proper allowed)))

/-- Storing an artifact keeps everything as it was for jobs that do not read its file. -/
theorem Kept.store [Markup.Library] (kept : Kept out jobs start tree)
    (proper : Path.IsName name) (destination : artifact.destination = { text := name })
    (others : ∀ job ∈ jobs, job.ReadsOther name)
    : Kept out jobs start (Artifact.storeIn out artifact tree).2 := by
  have named : (out.join artifact.destination).IsNamed := destination ▸ proper.isNamed.join out
  have way (other : String) (proper' : Path.IsName other)
      : FileTree.way (below out other) = FileTree.way (out.join artifact.destination) := by
    rw [destination, below, FileTree.way_join_name proper, FileTree.way_join_name proper']
  have stored (accepts : tree.Accepts (below out name)) (job : Job) (member : job ∈ jobs)
      : registryIn (tree.stored (below out name) artifact.content) job = registryIn start job := by
    rw [← kept.made job member]
    refine registryIn_congr fun path among => ?_
    obtain ⟨base, other, rfl, proper', different⟩ := others job member path among
    exact FileTree.sight_stored proper accepts artifact.content proper' different
  refine {
    accepts := fun other proper' => ?_
    registry := fun job member => ?_
    made := fun job member => ?_
  }
  · rw [← kept.accepts other proper']
    refine ⟨Artifact.accepts_of_accepts_storeIn named, fun accepts => ?_⟩
    refine Artifact.accepts_storeIn named accepts (fun stored => ?_) ?_
    · rw [way other proper']
      exact stored.apart
    · rw [← way other proper']
      exact accepts.apart
  · rcases storeIn_snd_cases proper destination with eq | eq | ⟨accepts, eq⟩ <;> rw [eq]
    · exact kept.registry job member
    · exact kept.made job member
    · exact stored accepts job member
  · rcases storeIn_snd_cases proper destination with eq | eq | ⟨accepts, eq⟩ <;> rw [eq]
    · exact kept.made job member
    · rw [FileTree.made_made]
      exact kept.made job member
    · rw [below, FileTree.made_stored proper accepts]
      exact stored accepts job member

end CommandLine

end ApiBindings
