import ApiBindings.Proofs.Files.Paths
import ApiBindings.Storage
import Mathlib.Data.List.Induction
import Mathlib.Tactic.SplitIfs

/-! Shelves, as maps from destinations to artifacts.
What storing an artifact does depends on what is at its destination only, and changes nothing at any
other one.
-/

namespace ApiBindings.Shelf

variable {shelf : Shelf} {artifact : Artifact} {path : Path}

/-- No two artifacts on a shelf have the same destination. -/
def IsDistinct (shelf : Shelf) : Prop :=
  shelf.artifacts.Pairwise fun first second => first.destination.same second.destination = false

/-- What storing an artifact does where there may be one already. -/
def outcome (artifact : Artifact) (before : Option Artifact) : Stored :=
  if before.map Artifact.content = some artifact.content then .unchanged else .written

/-- What is at the destination of an artifact that has been stored where there may have been one
already. That one is kept if it has the same content.
-/
def kept (artifact : Artifact) : Option Artifact → Artifact
  | some old => if old.content = artifact.content then old else artifact
  | none => artifact

theorem content_kept (artifact : Artifact) (before : Option Artifact)
    : (kept artifact before).content = artifact.content := by
  cases before with
  | none => rfl
  | some old =>
      dsimp only [kept]
      split_ifs with same
      · exact same
      · rfl

theorem find?_congr {other : Path} (same : path.same other = true)
    : shelf.find? path = shelf.find? other := by
  unfold find? Path.same
  rw [Path.same_iff.mp same]

/-- Putting an artifact somewhere puts it at its destination and changes no other one, by induction
on the artifacts.
-/
theorem find?_put (artifact : Artifact) (artifacts : List Artifact) (path : Path)
    : ((put artifact artifacts).find? fun other => other.destination.same path)
      = if artifact.destination.same path then some artifact
        else artifacts.find? fun other => other.destination.same path := by
  induction artifacts with
  | nil => cases here : artifact.destination.same path <;> simp [put, here]
  | cons old rest ih =>
      unfold put
      by_cases replaced : old.destination.same artifact.destination = true
      · have parts := Path.same_iff.mp replaced
        rw [if_pos replaced, List.find?_cons, List.find?_cons]
        simp only [Path.same, parts]
        cases here : artifact.destination.parts == path.parts <;> simp
      · rw [if_neg replaced, List.find?_cons, List.find?_cons, ih]
        cases here : old.destination.same path with
        | false => rfl
        | true =>
            have elsewhere : ¬ artifact.destination.same path = true := fun there =>
              replaced (Path.same_iff.mpr
                ((Path.same_iff.mp here).trans (Path.same_iff.mp there).symm))
            simp only [if_neg elsewhere]

theorem store_fst (shelf : Shelf) (artifact : Artifact)
    : (shelf.store artifact).1 = outcome artifact (shelf.find? artifact.destination) := by
  unfold store outcome
  cases shelf.find? artifact.destination with
  | none => rfl
  | some old => by_cases same : old.content = artifact.content <;> simp [same]

theorem find?_store (shelf : Shelf) (artifact : Artifact) (path : Path)
    : (shelf.store artifact).2.find? path
      = if artifact.destination.same path then
          some (kept artifact (shelf.find? artifact.destination))
        else shelf.find? path := by
  have replaced := find?_put artifact shelf.artifacts path
  unfold store
  cases before : shelf.find? artifact.destination with
  | none => exact replaced
  | some old =>
      by_cases same : old.content = artifact.content
      · -- The artifact that is there stays, and is what is found there.
        simp only [same, if_true, kept]
        split_ifs with here
        · rw [← before, find?_congr here]
        · rfl
      · simp only [same, if_false, kept]
        exact replaced

theorem mem_of_mem_put {other : Artifact} {artifacts : List Artifact}
    (member : other ∈ put artifact artifacts)
    : other = artifact ∨ other ∈ artifacts := by
  induction artifacts with
  | nil => exact .inl (List.mem_singleton.mp member)
  | cons old rest ih =>
      unfold put at member
      split_ifs at member with replaced
      · exact (List.mem_cons.mp member).imp_right (List.mem_cons_of_mem _)
      · rcases List.mem_cons.mp member with rfl | member
        · exact .inr List.mem_cons_self
        · exact (ih member).imp_right (List.mem_cons_of_mem _)

/-- An artifact takes the place of the one with its destination, by induction on the artifacts. -/
theorem isDistinct_put {artifacts : List Artifact} (distinct : IsDistinct { artifacts })
    : IsDistinct { artifacts := put artifact artifacts } := by
  induction artifacts with
  | nil => exact List.pairwise_singleton _ _
  | cons old rest ih =>
      obtain ⟨first, others⟩ := List.pairwise_cons.mp distinct
      unfold put
      split_ifs with replaced
      · refine List.pairwise_cons.mpr ⟨fun other member => ?_, others⟩
        have apart := first other member
        rw [Path.same, Path.same_iff.mp replaced] at apart
        exact apart
      · refine List.pairwise_cons.mpr ⟨fun other member => ?_, ih others⟩
        rcases mem_of_mem_put member with rfl | member
        · exact Bool.eq_false_iff.mpr replaced
        · exact first other member

theorem IsDistinct.store (distinct : shelf.IsDistinct) (artifact : Artifact)
    : (shelf.store artifact).2.IsDistinct := by
  unfold Shelf.store
  split
  · split_ifs
    · exact distinct
    · exact isDistinct_put distinct
  · exact isDistinct_put distinct

-----------------------------------------------------------------------------------------
-- Sequences of artifacts
-----------------------------------------------------------------------------------------

/-- Storing artifacts one after the other on a shelf. -/
def keepAll (artifacts : List Artifact) (shelf : Shelf)
    : List (Except PassFault Stored) × Shelf :=
  (artifacts.mapM keep).run shelf

theorem keepAll_cons (artifact : Artifact) (rest : List Artifact) (shelf : Shelf)
    : let first := shelf.store artifact
      let later := keepAll rest first.2
      keepAll (artifact :: rest) shelf = (.ok first.1 :: later.1, later.2) := by
  unfold keepAll
  rw [List.mapM_cons]
  rfl

/-- The content that the last of some artifacts with a destination has. -/
def lastContent? (artifacts : List Artifact) (path : Path) : Option String :=
  (artifacts.reverse.find? fun artifact => artifact.destination.same path).map Artifact.content

theorem keepAll_append (front back : List Artifact) (shelf : Shelf)
    : let earlier := keepAll front shelf
      let later := keepAll back earlier.2
      keepAll (front ++ back) shelf = (earlier.1 ++ later.1, later.2) := by
  induction front generalizing shelf with
  | nil => rfl
  | cons artifact rest ih =>
      simp only [List.cons_append, keepAll_cons, ih]

theorem length_keepAll (artifacts : List Artifact) (shelf : Shelf)
    : (keepAll artifacts shelf).1.length = artifacts.length := by
  induction artifacts generalizing shelf with
  | nil => rfl
  | cons artifact rest ih =>
      rw [keepAll_cons]
      exact congrArg (· + 1) (ih _)

/-- On a shelf that was empty is what has been stored last, by induction from the back. -/
theorem find?_keepAll (artifacts : List Artifact) (path : Path)
    : ((keepAll artifacts {}).2.find? path).map Artifact.content = lastContent? artifacts path := by
  induction artifacts using List.reverseRecOn with
  | nil => rfl
  | append_singleton front artifact ih =>
      have last : (keepAll (front ++ [artifact]) {}).2 = ((keepAll front {}).2.store artifact).2 := by
        rw [keepAll_append]
        rfl
      rw [last, find?_store, lastContent?, List.reverse_append, List.reverse_singleton,
        List.singleton_append, List.find?_cons]
      cases here : artifact.destination.same path with
      | true => exact congrArg some (content_kept _ _)
      | false => exact ih

/-- Storing an artifact leaves things unchanged if and only if the last one that was stored at its
destination had the same content.
-/
theorem outcome_keepAll (front back : List Artifact) (artifact : Artifact)
    : (keepAll (front ++ artifact :: back) {}).1[front.length]?
      = some (.ok
          (if lastContent? front artifact.destination = some artifact.content then .unchanged
          else .written)) := by
  rw [keepAll_append, keepAll_cons]
  simp only
  rw [List.getElem?_append_right (Nat.le_of_eq (length_keepAll front {})), length_keepAll,
    Nat.sub_self, List.getElem?_cons_zero, store_fst, outcome, find?_keepAll]

end ApiBindings.Shelf
