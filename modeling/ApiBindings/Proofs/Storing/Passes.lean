import ApiBindings.Proofs.Storing.Shelves
import ApiBindings.Registry.Merge
import ApiBindings.Report

/-! Passes that run one after the other do not touch each other.
A pass generates its artifact without looking at the shelf and then stores it at its own
destination. So a pass that is run with others does what it does alone, in whatever order they are
run, and one that has no destination does nothing.
-/

namespace ApiBindings

variable {context : Context} {profile : Profile} {resolution : Resolution} {shelf other : Shelf}
variable {pass : Pass} {path : Path}

namespace Context

/-- Running passes in their order, each of which keeps its artifact on the shelf. -/
def shelve [Markup.Library] (context : Context) (profile : Profile) (passes : List Pass)
    (shelf : Shelf)
    : Report × Shelf :=
  (run Shelf.keep context profile passes).run shelf

/-- A pass stores its artifact at a path, however that is written. -/
def Writes (context : Context) (pass : Pass) (path : Path) : Prop :=
  (context.destination pass).isEmpty = false ∧ (context.destination pass).same path = true

/-- Two passes do not store at the same destination; one that has none stores nowhere. -/
def Apart (context : Context) (first second : Pass) : Prop :=
  (context.destination first).isEmpty = false →
    (context.destination second).isEmpty = false →
      (context.destination first).same (context.destination second) = false

theorem Apart.symm {first second : Pass} (apart : context.Apart first second)
    : context.Apart second first := by
  intro placed placed'
  refine Bool.eq_false_iff.mpr fun same => ?_
  have reversed := Path.same_iff.mpr (Path.same_iff.mp same).symm
  exact Bool.false_ne_true ((apart placed' placed).symm.trans reversed)

/-- Neither of two such passes stores at the destination of the other one. -/
theorem Apart.not_writes {first second : Pass} (apart : context.Apart first second)
    : ¬ context.Writes first (context.destination second) := by
  rintro ⟨placed, same⟩
  cases empty : (context.destination second).isEmpty with
  | true => exact Bool.false_ne_true (placed.symm.trans (Path.isEmpty_of_same same empty))
  | false => exact Bool.false_ne_true ((apart placed empty).symm.trans same)

end Context

section

variable [Markup.Library]

-----------------------------------------------------------------------------------------
-- One pass
-----------------------------------------------------------------------------------------

/-- What one pass does to a shelf. -/
def keepPass (context : Context) (resolution : Resolution) (pass : Pass) (shelf : Shelf)
    : PassReport × Shelf :=
  (runPass Shelf.keep context resolution pass).run shelf

theorem keepPass_of_isEmpty (empty : (context.destination pass).isEmpty = true)
    (resolution : Resolution) (shelf : Shelf)
    : keepPass context resolution pass shelf
      = ({ pass, destination := none, outcome := .error (.noDestination pass) }, shelf) := by
  unfold keepPass runPass Artifact.generate
  rw [if_pos empty]
  rfl

/-- The artifact that a pass stores if it has a destination. -/
def Context.artifact (context : Context) (resolution : Resolution) (pass : Pass) : Artifact where
  pass := pass
  outputClass := context.outputClass
  destination := context.destination pass
  content := Artifact.render context resolution pass

theorem keepPass_of_not_isEmpty (placed : (context.destination pass).isEmpty = false)
    (resolution : Resolution) (shelf : Shelf)
    : keepPass context resolution pass shelf
      = ({
          pass
          destination := some (context.destination pass)
          outcome := .ok (shelf.store (context.artifact resolution pass)).1
        },
        (shelf.store (context.artifact resolution pass)).2) := by
  unfold keepPass runPass Artifact.generate
  rw [if_neg (by simp [placed])]
  rfl

theorem pass_keepPass (context : Context) (resolution : Resolution) (pass : Pass) (shelf : Shelf)
    : (keepPass context resolution pass shelf).1.pass = pass := by
  cases placed : (context.destination pass).isEmpty with
  | true => rw [keepPass_of_isEmpty placed]
  | false => rw [keepPass_of_not_isEmpty placed]

/-- A pass changes nothing where it does not store its artifact. -/
theorem find?_keepPass_of_not_writes (elsewhere : ¬ context.Writes pass path)
    (resolution : Resolution) (shelf : Shelf)
    : (keepPass context resolution pass shelf).2.find? path = shelf.find? path := by
  cases placed : (context.destination pass).isEmpty with
  | true => rw [keepPass_of_isEmpty placed]
  | false =>
      rw [keepPass_of_not_isEmpty placed, Shelf.find?_store]
      exact if_neg fun same => elsewhere ⟨placed, same⟩

/-- What a pass does depends only on what is at its destination. -/
theorem keepPass_congr
    (same : shelf.find? (context.destination pass) = other.find? (context.destination pass))
    (resolution : Resolution)
    : (keepPass context resolution pass shelf).1 = (keepPass context resolution pass other).1
      ∧ (keepPass context resolution pass shelf).2.find? (context.destination pass)
        = (keepPass context resolution pass other).2.find? (context.destination pass) := by
  cases placed : (context.destination pass).isEmpty with
  | true =>
      rw [keepPass_of_isEmpty placed, keepPass_of_isEmpty placed]
      exact ⟨rfl, same⟩
  | false =>
      rw [keepPass_of_not_isEmpty placed, keepPass_of_not_isEmpty placed]
      dsimp only
      rw [Shelf.store_fst, Shelf.store_fst, Shelf.find?_store, Shelf.find?_store]
      have before
          : shelf.find? (context.artifact resolution pass).destination
            = other.find? (context.artifact resolution pass).destination :=
        same
      rw [before, same]
      exact ⟨rfl, rfl⟩

-----------------------------------------------------------------------------------------
-- Several passes
-----------------------------------------------------------------------------------------

/-- What passes do to a shelf, one after the other. -/
def keepPasses (context : Context) (resolution : Resolution) (passes : List Pass) (shelf : Shelf)
    : List PassReport × Shelf :=
  (passes.mapM (runPass Shelf.keep context resolution)).run shelf

theorem keepPasses_cons (context : Context) (resolution : Resolution) (pass : Pass)
    (rest : List Pass) (shelf : Shelf)
    : let first := keepPass context resolution pass shelf
      let later := keepPasses context resolution rest first.2
      keepPasses context resolution (pass :: rest) shelf = (first.1 :: later.1, later.2) := by
  unfold keepPasses
  rw [List.mapM_cons]
  rfl

/-- Passes change nothing where none of them stores its artifact, by induction on the passes. -/
theorem find?_keepPasses_of_not_writes {passes : List Pass}
    (elsewhere : ∀ pass ∈ passes, ¬ context.Writes pass path) (resolution : Resolution)
    (shelf : Shelf)
    : (keepPasses context resolution passes shelf).2.find? path = shelf.find? path := by
  induction passes generalizing shelf with
  | nil => rfl
  | cons pass rest ih =>
      obtain ⟨first, others⟩ := List.forall_mem_cons.mp elsewhere
      rw [keepPasses_cons]
      exact (ih others _).trans (find?_keepPass_of_not_writes first resolution shelf)

/-- Passes that are apart do what each of them does alone, by induction on the passes. What those
before a pass have done cannot be seen at its destination.
-/
theorem keepPasses_alone {passes : List Pass} (apart : passes.Pairwise context.Apart)
    (resolution : Resolution) (shelf : Shelf)
    : (keepPasses context resolution passes shelf).1
        = passes.map (fun pass => (keepPass context resolution pass shelf).1)
      ∧ ∀ pass ∈ passes,
          (keepPasses context resolution passes shelf).2.find? (context.destination pass)
          = (keepPass context resolution pass shelf).2.find? (context.destination pass) := by
  induction passes generalizing shelf with
  | nil => exact ⟨rfl, List.forall_mem_nil _⟩
  | cons pass rest ih =>
      obtain ⟨first, others⟩ := List.pairwise_cons.mp apart
      let next := (keepPass context resolution pass shelf).2
      obtain ⟨entries, contents⟩ := ih others next
      have unseen (later : Pass) (member : later ∈ rest)
          : next.find? (context.destination later) = shelf.find? (context.destination later) :=
        find?_keepPass_of_not_writes (first later member).not_writes resolution shelf
      rw [keepPasses_cons]
      constructor
      · refine congrArg (_ :: ·) (entries.trans (List.map_congr_left fun later member => ?_))
        exact (keepPass_congr (unseen later member) resolution).1
      · refine List.forall_mem_cons.mpr ⟨?_, fun later member => ?_⟩
        · exact find?_keepPasses_of_not_writes
            (fun later member => (first later member).symm.not_writes) resolution next
        · exact (contents later member).trans (keepPass_congr (unseen later member) resolution).2

theorem isDistinct_keepPasses (distinct : shelf.IsDistinct) (resolution : Resolution)
    (passes : List Pass)
    : (keepPasses context resolution passes shelf).2.IsDistinct := by
  induction passes generalizing shelf with
  | nil => exact distinct
  | cons pass rest ih =>
      rw [keepPasses_cons]
      refine ih ?_
      cases placed : (context.destination pass).isEmpty with
      | true => exact keepPass_of_isEmpty placed resolution shelf ▸ distinct
      | false =>
          rw [keepPass_of_not_isEmpty placed]
          exact distinct.store _

/-- The order of passes that are apart does not show in what is on the shelf. -/
theorem find?_keepPasses_perm {passes order : List Pass} (apart : passes.Pairwise context.Apart)
    (perm : order.Perm passes) (resolution : Resolution) (shelf : Shelf) (path : Path)
    : (keepPasses context resolution order shelf).2.find? path
      = (keepPasses context resolution passes shelf).2.find? path := by
  have apart' : order.Pairwise context.Apart := (perm.pairwise_iff fun h => h.symm).mpr apart
  by_cases written : ∃ pass ∈ passes, context.Writes pass path
  · obtain ⟨pass, member, -, same⟩ := written
    rw [← Shelf.find?_congr same, ← Shelf.find?_congr same,
      (keepPasses_alone apart resolution shelf).2 pass member,
      (keepPasses_alone apart' resolution shelf).2 pass (perm.mem_iff.mpr member)]
  · have elsewhere : ∀ pass ∈ passes, ¬ context.Writes pass path :=
      fun pass member writes => written ⟨pass, member, writes⟩
    rw [find?_keepPasses_of_not_writes elsewhere, find?_keepPasses_of_not_writes]
    exact fun pass member => elsewhere pass (perm.mem_iff.mp member)

-----------------------------------------------------------------------------------------
-- Runs
-----------------------------------------------------------------------------------------

/-- Passes that are run together on a shelf do not touch each other. -/
structure Context.IsolatesPasses (context : Context) (profile : Profile) (passes : List Pass)
    (shelf : Shelf) : Prop where
  /-- There is one entry for each pass, in the order of the passes. -/
  inOrder : (context.shelve profile passes shelf).1.passes.map PassReport.pass = passes
  /-- The entry of a pass is the one that it has alone. -/
  entries
    : (context.shelve profile passes shelf).1.passes
      = passes.flatMap fun pass => (context.shelve profile [pass] shelf).1.passes
  /-- At the destination of a pass is what is there after it has run alone. -/
  contents
    : ∀ pass ∈ passes,
        (context.shelve profile passes shelf).2.find? (context.destination pass)
        = (context.shelve profile [pass] shelf).2.find? (context.destination pass)
  /-- Where no pass stores its artifact nothing changes. -/
  elsewhere
    : ∀ path, (∀ pass ∈ passes, ¬ context.Writes pass path) →
        (context.shelve profile passes shelf).2.find? path = shelf.find? path
  distinct : shelf.IsDistinct → (context.shelve profile passes shelf).2.IsDistinct
  /-- In any other order the passes leave the same at every path. -/
  commutes
    : ∀ order, order.Perm passes → ∀ path,
        (context.shelve profile order shelf).2.find? path
        = (context.shelve profile passes shelf).2.find? path

/-- Passes are isolated if no two of them have the same destination. It may be missing for any of
them, and these fail without consequences for others.
-/
theorem isolatesPasses_of_apart {context : Context} {passes : List Pass}
    (apart
      : passes.Pairwise fun first second =>
          (context.destination first).isEmpty = false →
            (context.destination second).isEmpty = false →
              (context.destination first).same (context.destination second) = false)
    (profile : Profile) (shelf : Shelf)
    : context.IsolatesPasses profile passes shelf := by
  let resolution := context.registry.resolve profile
  have single (pass : Pass)
      : (context.shelve profile [pass] shelf).1.passes
          = [(keepPass context resolution pass shelf).1]
        ∧ (context.shelve profile [pass] shelf).2
          = (keepPass context resolution pass shelf).2 :=
    ⟨rfl, rfl⟩
  have together
      : (context.shelve profile passes shelf).1.passes
        = passes.map fun pass => (keepPass context resolution pass shelf).1 :=
    (keepPasses_alone apart resolution shelf).1
  refine {
    inOrder := ?_
    entries := ?_
    contents := fun pass member => ?_
    elsewhere := fun path elsewhere => find?_keepPasses_of_not_writes elsewhere resolution shelf
    distinct := fun distinct => isDistinct_keepPasses distinct resolution passes
    commutes := fun order perm path => find?_keepPasses_perm apart perm resolution shelf path
  }
  · rw [together, List.map_map]
    exact (List.map_congr_left fun pass _ => pass_keepPass context resolution pass shelf).trans
      (List.map_id passes)
  · rw [together]
    simp only [(single _).1]
    exact List.map_eq_flatMap
  · rw [(single pass).2]
    exact (keepPasses_alone apart resolution shelf).2 pass member

end

/-- A setting in which the limits have no place to go to. -/
def placelessLimits : Context where
  api := .gl
  outputClass := "gl"
  registry := .ofRecords .gl []
  overrides := [(.limits, { text := "" }), (.versions, { text := "out//versions.rs" })]

/-- A shelf with an artifact where the versions go to. -/
def shelfOfVersions : Shelf where
  artifacts := [{
    pass := .versions
    outputClass := "gl"
    destination := { text := "out/versions.rs" }
    content := "old"
  }]

/-- The limits fail, and the passes around them are as they are alone. -/
theorem placelessLimits_isolated
    : let passes := [Pass.versions, .limits, .extensions]
      (passes.Pairwise fun first second =>
          (placelessLimits.destination first).isEmpty = false →
            (placelessLimits.destination second).isEmpty = false →
              (placelessLimits.destination first).same (placelessLimits.destination second)
                = false)
        ∧ placelessLimits.IsolatesPasses .all passes shelfOfVersions
        ∧ (placelessLimits.shelve .all passes shelfOfVersions).1.passes.map PassReport.hasFailed
          = [false, true, false] := by
  intro passes
  have apart
      : passes.Pairwise fun first second =>
          (placelessLimits.destination first).isEmpty = false →
            (placelessLimits.destination second).isEmpty = false →
              (placelessLimits.destination first).same (placelessLimits.destination second)
                = false := by
    decide
  exact ⟨apart, isolatesPasses_of_apart apart .all shelfOfVersions, by decide⟩

end ApiBindings
