import ApiBindings.Proofs.Files.Destinations
import ApiBindings.Proofs.Storing.Files
import ApiBindings.Proofs.Storing.Shelves

/-! Artifacts in memory and artifacts as files are the same.
A tree mirrors a shelf if at every destination there is a file with the content of the artifact on
the shelf, and none where there is no artifact. Storing an artifact in both does the same to both
and leaves the tree a mirror of the shelf.
-/

namespace ApiBindings

variable {tree : FileTree} {root path : Path} {artifact : Artifact} {shelf : Shelf}

namespace FileTree

-----------------------------------------------------------------------------------------
-- A root with nothing below it
-----------------------------------------------------------------------------------------

/-- A directory that is there, with nothing below it. -/
structure IsBlank (tree : FileTree) (root : Path) : Prop where
  isDirectory : tree.isDirectory root = true
  empty
    : ∀ names, names ≠ [] → (∀ name ∈ names, Path.IsName name) →
        tree.get? (goal root ++ names) = none

theorem IsBlank.get?_goal (blank : tree.IsBlank root) (normal : path.IsNormal)
    : tree.get? (goal (root.join path)) = none := by
  rw [goal_join normal]
  exact blank.empty path.parts (normal.parts_eq ▸ normal.walk_ne_nil) normal.plain

/-- No destination is needed for a directory on the way to another one, unless it leads on to
that one.
-/
theorem IsBlank.goal_not_mem_way {other : Path} (blank : tree.IsBlank root)
    (normal : path.IsNormal) (normal' : other.IsNormal)
    (beside : path.parts <+: other.parts → path.parts = other.parts)
    : goal (root.join path) ∉ way (root.join other) := by
  intro onWay
  rcases of_mem_way_join normal' onWay with above | ⟨front, -, among, notAll, same⟩
  · have isOpen := isOpenAt_of_isDirectory blank.isDirectory _ above
    cases (blank.get?_goal normal).symm.trans isOpen
  · rw [goal_join normal, List.append_right_inj] at same
    subst same
    exact notAll (beside among)

/-- Below such a root a file can be at every destination. -/
theorem IsBlank.accepts (blank : tree.IsBlank root) (normal : path.IsNormal)
    (fits : tree.Fits (root.join path))
    : tree.Accepts (root.join path) := by
  have absent := blank.get?_goal normal
  refine {
    fits
    clear := fun other onWay => ?_
    apart := blank.goal_not_mem_way normal normal fun _ => rfl
    free := fun isOpen => ?_
  }
  · rcases of_mem_way_join normal onWay with above | ⟨front, some, among, -, rfl⟩
    · exact (isOpenAt_of_isDirectory blank.isDirectory other above).file?
    · rw [file?, blank.empty front some fun name member => normal.plain name (among.mem member)]
  · cases absent.symm.trans isOpen

-----------------------------------------------------------------------------------------
-- Mirrors
-----------------------------------------------------------------------------------------

/-- Below a root there are the artifacts of a shelf as files, each of them in its directory. -/
structure Mirrors (tree : FileTree) (root : Path) (shelf : Shelf) : Prop where
  contents
    : ∀ path, path.IsNormal →
        tree.file? (goal (root.join path)) = (shelf.find? path).map Artifact.content
  isOpen
    : ∀ path, path.IsNormal → (shelf.find? path).isSome = true →
        ∀ other ∈ way (root.join path), tree.IsOpenAt other

theorem IsBlank.mirrors (blank : tree.IsBlank root) : tree.Mirrors root {} where
  contents path normal := by rw [file?, blank.get?_goal normal]; rfl
  isOpen path normal some := by cases some

/-- What can be read at a destination is what is on the shelf. -/
theorem Mirrors.read_eq_ok_iff (mirrors : tree.Mirrors root shelf) (normal : path.IsNormal)
    (fits : tree.Fits (root.join path)) {content : String}
    : tree.read (root.join path) = .ok content
      ↔ (shelf.find? path).map Artifact.content = some content := by
  rw [FileTree.read_eq_ok_iff (normal.named.join root), mirrors.contents path normal]
  refine ⟨fun ⟨_, _, found⟩ => found, fun found => ⟨fits, ?_, found⟩⟩
  obtain ⟨artifact, found', -⟩ := Option.map_eq_some_iff.mp found
  exact mirrors.isOpen path normal (found' ▸ rfl)

theorem goal_join_eq_iff {other : Path} (normal : path.IsNormal) (normal' : other.IsNormal)
    : goal (root.join other) = goal (root.join path) ↔ path.same other = true := by
  rw [goal_join normal, goal_join normal', List.append_right_inj, Path.same_iff, eq_comm]

theorem way_join_congr {other : Path} (normal : path.IsNormal) (normal' : other.IsNormal)
    (same : path.same other = true)
    : way (root.join other) = way (root.join path) := by
  rw [way_join normal, way_join normal', Path.same_iff.mp same]

/-- Storing an artifact does the same to a shelf and to a tree that mirrors it, and leaves the tree
a mirror of the shelf.
-/
theorem Mirrors.store (mirrors : tree.Mirrors root shelf)
    (normal : artifact.destination.IsNormal)
    (accepts : tree.Accepts (root.join artifact.destination))
    : (Artifact.storeIn root artifact tree).1 = .ok (shelf.store artifact).1
      ∧ (Artifact.storeIn root artifact tree).2.Mirrors root (shelf.store artifact).2 := by
  have named := normal.named.join root
  have known
      : tree.read (root.join artifact.destination) = .ok artifact.content
        ↔ (shelf.find? artifact.destination).map Artifact.content = some artifact.content :=
    mirrors.read_eq_ok_iff normal accepts.fits
  refine ⟨?_, {
    contents := fun path normal' => ?_
    isOpen := fun path normal' some other onWay => ?_
  }⟩
  · rw [Shelf.store_fst, Shelf.outcome]
    rcases Artifact.storeIn_cases root artifact named tree
      with ⟨-, read, eq⟩ | ⟨-, read, eq⟩ | ⟨refuses, -⟩
    · rw [eq, if_pos (known.mp read)]
    · rw [eq, if_neg fun same => read (known.mpr same)]
    · exact absurd accepts refuses
  · rw [Artifact.file?_storeIn named accepts, Shelf.find?_store]
    by_cases same : artifact.destination.same path = true
    · rw [if_pos ((goal_join_eq_iff normal normal').mpr same), if_pos same]
      exact congrArg some (Shelf.content_kept _ _).symm
    · rw [if_neg fun here => same ((goal_join_eq_iff normal normal').mp here), if_neg same]
      exact mirrors.contents path normal'
  · rw [Shelf.find?_store] at some
    by_cases same : artifact.destination.same path = true
    · rw [way_join_congr normal normal' same] at onWay
      exact Artifact.isOpenAt_way_storeIn named accepts other onWay
    · rw [if_neg same] at some
      exact Artifact.isOpenAt_storeIn named (mirrors.isOpen path normal' some other onWay)

end FileTree

-----------------------------------------------------------------------------------------
-- Sequences of artifacts
-----------------------------------------------------------------------------------------

/-- Storing artifacts one after the other as files below a directory. -/
def storeAll (root : Path) (artifacts : List Artifact) (tree : FileTree)
    : List (Except PassFault Stored) × FileTree :=
  (artifacts.mapM (Artifact.storeBelow root) : StateM FileTree _).run tree

theorem storeAll_cons (root : Path) (artifact : Artifact) (rest : List Artifact)
    (tree : FileTree)
    : let first := Artifact.storeIn root artifact tree
      let later := storeAll root rest first.2
      storeAll root (artifact :: rest) tree = (first.1 :: later.1, later.2) := by
  unfold storeAll
  rw [List.mapM_cons]
  rfl

/-- Neither a shelf nor a tree that mirrors it shows which of them artifacts are stored in, by
induction on the artifacts. That there can be a file at every destination is kept by each step.
-/
theorem mirrors_storeAll {artifacts : List Artifact} (mirrors : tree.Mirrors root shelf)
    (normal : ∀ artifact ∈ artifacts, artifact.destination.IsNormal)
    (accepts : ∀ artifact ∈ artifacts, tree.Accepts (root.join artifact.destination))
    (beside
      : ∀ first ∈ artifacts, ∀ second ∈ artifacts,
          FileTree.goal (root.join first.destination)
            ∉ FileTree.way (root.join second.destination))
    : (storeAll root artifacts tree).1 = (Shelf.keepAll artifacts shelf).1
      ∧ (storeAll root artifacts tree).2.Mirrors root (Shelf.keepAll artifacts shelf).2
      ∧ (storeAll root artifacts tree).2.limits = tree.limits := by
  induction artifacts generalizing tree shelf with
  | nil => exact ⟨rfl, mirrors, rfl⟩
  | cons artifact rest ih =>
      obtain ⟨normalHere, normalLater⟩ := List.forall_mem_cons.mp normal
      obtain ⟨acceptsHere, acceptsLater⟩ := List.forall_mem_cons.mp accepts
      have named := normalHere.named.join root
      obtain ⟨outcome, mirrors'⟩ := mirrors.store normalHere acceptsHere
      have accepts' (later : Artifact) (member : later ∈ rest)
          : (Artifact.storeIn root artifact tree).2.Accepts (root.join later.destination) :=
        have among : later ∈ artifact :: rest := List.mem_cons_of_mem _ member
        Artifact.accepts_storeIn named (acceptsLater later member)
          (fun _ => beside artifact List.mem_cons_self later among)
          (beside later among artifact List.mem_cons_self)
      obtain ⟨outcomes, mirrors'', limits⟩ :=
        ih mirrors' normalLater accepts' fun first member second member' =>
          beside first (List.mem_cons_of_mem _ member) second (List.mem_cons_of_mem _ member')
      rw [storeAll_cons, Shelf.keepAll_cons]
      refine ⟨?_, mirrors'', limits.trans (Artifact.limits_storeIn named)⟩
      exact congr (congrArg List.cons outcome) outcomes

/-- Storing artifacts as files below a root is the same as keeping them in memory. -/
structure StoresAgree (root : Path) (artifacts : List Artifact) (tree : FileTree) : Prop where
  outcomes : (storeAll root artifacts tree).1 = (Shelf.keepAll artifacts {}).1
  /-- What can be read at a destination is what is on the shelf. -/
  contents
    : ∀ path, path.IsNormal → tree.Fits (root.join path) →
        ((storeAll root artifacts tree).2.read (root.join path)).toOption
        = ((Shelf.keepAll artifacts {}).2.find? path).map Artifact.content
  /-- There are no other files below the root. -/
  files
    : ∀ path, path.IsNormal →
        (storeAll root artifacts tree).2.file? (FileTree.goal (root.join path))
        = ((Shelf.keepAll artifacts {}).2.find? path).map Artifact.content
  /-- Things stay unchanged only where the last artifact that was stored has the same content. -/
  unchanged
    : ∀ front artifact back, artifacts = front ++ artifact :: back →
        (storeAll root artifacts tree).1[front.length]?
        = some (.ok
            (if Shelf.lastContent? front artifact.destination = some artifact.content then
              .unchanged
            else .written))

/-- The two stores agree from an empty shelf and an empty root on, as long as no artifact needs a
directory where another one needs its file. Every destination has to be one that the file system
takes, as it always does if it has no limits.
-/
theorem storesAgree_of_isBlank {root : Path} {artifacts : List Artifact} {tree : FileTree}
    (normal : ∀ artifact ∈ artifacts, artifact.destination.IsNormal)
    (beside
      : ∀ first ∈ artifacts, ∀ second ∈ artifacts,
          first.destination.parts <+: second.destination.parts →
            first.destination.parts = second.destination.parts)
    (blank : tree.IsBlank root)
    (fits : ∀ artifact ∈ artifacts, tree.Fits (root.join artifact.destination))
    : StoresAgree root artifacts tree := by
  have accepts (artifact : Artifact) (member : artifact ∈ artifacts)
      : tree.Accepts (root.join artifact.destination) :=
    blank.accepts (normal artifact member) (fits artifact member)
  obtain ⟨outcomes, mirrors, limits⟩ :=
    mirrors_storeAll blank.mirrors normal accepts fun first member second member' =>
      blank.goal_not_mem_way (normal first member) (normal second member')
        (beside first member second member')
  refine {
    outcomes
    contents := fun path normal' fits' => ?_
    files := mirrors.contents
    unchanged := fun front artifact back split => ?_
  }
  · have known (content : String) :=
      @FileTree.Mirrors.read_eq_ok_iff _ _ _ _ mirrors normal'
        ((FileTree.fits_congr limits).mpr fits') content
    refine Option.ext fun content => ?_
    rw [← known content]
    cases (storeAll root artifacts tree).2.read (root.join path) <;> simp [Except.toOption]
  · rw [outcomes, split, Shelf.outcome_keepAll]

/-- An empty directory for artifacts. -/
def emptyRoot : FileTree where
  entries := [(["out"], .directory)]

/-- Two classes of artifacts in directories of their own, one of them stored again and again. -/
def repeatedArtifacts : List Artifact :=
  let artifact (path content : String) : Artifact :=
    { pass := .enums, outputClass := "gl", destination := { text := path }, content }
  [artifact "gl/enums.rs" "old", artifact "egl/v1/enums.rs" "old", artifact "gl/enums.rs" "old",
    artifact "gl//enums.rs" "new", artifact "gl/enums.rs" "old"]

theorem emptyRoot_isBlank : emptyRoot.IsBlank { text := "out" } := by
  refine ⟨by decide +kernel, fun names some _ => ?_⟩
  have root : FileTree.goal { text := "out" } = ["out"] := by decide +kernel
  obtain ⟨name, rest, rfl⟩ := List.exists_cons_of_ne_nil some
  rw [root]
  simp [FileTree.get?, FileTree.isTop, emptyRoot, List.lookup_cons]

theorem repeatedArtifacts_isNormal
    : ∀ artifact ∈ repeatedArtifacts, artifact.destination.IsNormal := by
  have ends : Path.IsName "enums.rs" := by decide +kernel
  have relative : ∀ artifact ∈ repeatedArtifacts, artifact.destination.isAbsolute = false := by
    decide +kernel
  have plain
      : ∀ artifact ∈ repeatedArtifacts, ∀ part ∈ artifact.destination.parts, Path.IsName part := by
    decide +kernel
  have last
      : ∀ artifact ∈ repeatedArtifacts,
          artifact.destination.pieces.getLast? = some "enums.rs" := by
    decide +kernel
  intro artifact member
  obtain ⟨front, shape⟩ := List.getLast?_eq_some_iff.mp (last artifact member)
  exact ⟨relative artifact member, plain artifact member, front, "enums.rs", shape, ends⟩

/-- An artifact is written again if another one has been stored at its destination meanwhile. -/
theorem repeatedArtifacts_storesAgree
    : (∀ artifact ∈ repeatedArtifacts, artifact.destination.IsNormal)
        ∧ (∀ first ∈ repeatedArtifacts, ∀ second ∈ repeatedArtifacts,
          first.destination.parts <+: second.destination.parts →
            first.destination.parts = second.destination.parts)
        ∧ emptyRoot.IsBlank { text := "out" }
        ∧ (∀ artifact ∈ repeatedArtifacts,
          emptyRoot.Fits (Path.join { text := "out" } artifact.destination))
        ∧ StoresAgree { text := "out" } repeatedArtifacts emptyRoot
        ∧ (storeAll { text := "out" } repeatedArtifacts emptyRoot).1.map Except.toOption
          = [some .written, some .written, some .unchanged, some .written, some .written] := by
  have beside
      : ∀ first ∈ repeatedArtifacts, ∀ second ∈ repeatedArtifacts,
          first.destination.parts <+: second.destination.parts →
            first.destination.parts = second.destination.parts := by
    decide +kernel
  have fits
      : ∀ artifact ∈ repeatedArtifacts,
          emptyRoot.Fits (Path.join { text := "out" } artifact.destination) := by
    unfold FileTree.Fits
    decide +kernel
  exact ⟨repeatedArtifacts_isNormal, beside, emptyRoot_isBlank, fits,
    storesAgree_of_isBlank repeatedArtifacts_isNormal beside emptyRoot_isBlank fits,
    by decide +kernel⟩

end ApiBindings
