import ApiBindings.Proofs.Files.Trees
import ApiBindings.Storage

/-! Artifacts as files below a directory.
Whether an artifact can be stored shows in the tree before any directory is made for it: no file is
on the way to its file, and no directory in the place of it. If so then its file has its content
afterwards, and in any case no other file has changed.
-/

namespace ApiBindings

variable {tree : FileTree} {path root : Path} {artifact : Artifact}

namespace FileTree

/-- Whether a file can be at a path once the directories on its way have been made. -/
structure Accepts (tree : FileTree) (path : Path) : Prop where
  fits : tree.Fits path
  clear : ∀ other ∈ way path, tree.file? other = none
  /-- Its place is not needed for a directory. -/
  apart : goal path ∉ way path
  free : ¬ tree.IsOpenAt (goal path)

/-- The tree in which the directories on the way of a path have been made, as far as possible. -/
def prepared (tree : FileTree) (path : Path) : FileTree :=
  (tree.makeDirectories path.parent).2

/-- The tree in which a path leads to a file with the given content. -/
def stored (tree : FileTree) (path : Path) (content : String) : FileTree :=
  (tree.prepared path).put (goal path) (.file content)

theorem prepared_eq (named : path.IsNamed) (fits : tree.Fits path)
    : tree.prepared path = (tree.makeAlong (origin path) path.walk.dropLast).2 := by
  rw [prepared, makeDirectories_snd (Path.allowsPath_parent named fits.1), origin_parent named,
    Path.walk_parent named]

-----------------------------------------------------------------------------------------
-- Reading and writing at a path
-----------------------------------------------------------------------------------------

theorem read_eq_ok_iff (named : path.IsNamed) {content : String}
    : tree.read path = .ok content
      ↔ tree.Fits path ∧ (∀ other ∈ way path, tree.IsOpenAt other)
        ∧ tree.file? (goal path) = some content := by
  rw [file?_eq_some_iff, read, find]
  cases place : tree.place path with
  | error fault =>
      refine iff_of_false (fun read => by cases read) fun ⟨fits, isOpen, _⟩ => ?_
      cases place.symm.trans ((place_eq_ok_iff named).mpr ⟨rfl, fits, isOpen⟩)
  | ok found =>
      obtain ⟨rfl, fits, isOpen⟩ := (place_eq_ok_iff named).mp place
      rw [and_iff_right fits, and_iff_right isOpen]
      cases entry : tree.get? (goal path) with
      | none => simp [bind, Except.bind, entry]
      | some entry' => cases entry' <;> simp [bind, Except.bind, entry]

theorem write_eq_some_iff (named : path.IsNamed) {content : String} {later : FileTree}
    : tree.write path content = some later
      ↔ later = tree.put (goal path) (.file content)
        ∧ tree.Fits path
        ∧ (∀ other ∈ way path, tree.IsOpenAt other)
        ∧ ¬ tree.IsOpenAt (goal path) := by
  rw [write]
  cases place : tree.place path with
  | error fault =>
      refine iff_of_false (fun written => by cases written) fun ⟨_, fits, isOpen, _⟩ => ?_
      cases place.symm.trans ((place_eq_ok_iff named).mpr ⟨rfl, fits, isOpen⟩)
  | ok found =>
      obtain ⟨rfl, fits, isOpen⟩ := (place_eq_ok_iff named).mp place
      have above : tree.get? (goal path).dropLast = some .directory :=
        isOpenAt_dropLast_goal named isOpen
      rw [and_iff_right fits, and_iff_right isOpen, IsOpenAt]
      cases entry : tree.get? (goal path) with
      | none => simp [above, entry, eq_comm]
      | some entry' => cases entry' <;> simp [above, entry, eq_comm]

theorem accepts_of_read (named : path.IsNamed) {content : String}
    (read : tree.read path = .ok content)
    : tree.Accepts path := by
  obtain ⟨fits, isOpen, file⟩ := (read_eq_ok_iff named).mp read
  have notOpen : ¬ tree.IsOpenAt (goal path) := fun open' => by simp [open'.file?] at file
  exact {
    fits
    clear := fun other onWay => (isOpen other onWay).file?
    apart := fun onWay => notOpen (isOpen _ onWay)
    free := notOpen
  }

/-- Where a file can be, there is one already, or something is missing. -/
theorem Accepts.read (accepts : tree.Accepts path) (named : path.IsNamed)
    : (∃ content, tree.read path = .ok content) ∨ tree.read path = .error .missing := by
  rw [FileTree.read, find]
  cases place : tree.place path with
  | error fault =>
      cases fault with
      | missing => exact .inr rfl
      | isDirectory => exact absurd place (place_ne_isDirectory tree path)
      | unreadable =>
          exfalso
          rcases of_place_eq_unreadable named place with unfit | ⟨other, onWay, text, file⟩
          · exact unfit accepts.fits
          · rw [accepts.clear other onWay] at file
            cases file
  | ok found =>
      obtain ⟨rfl, -, -⟩ := (place_eq_ok_iff named).mp place
      cases entry : tree.get? (goal path) with
      | none => exact .inr (by simp [bind, Except.bind, entry])
      | some entry' =>
          cases entry' with
          | file text => exact .inl ⟨text, by simp [bind, Except.bind, entry]⟩
          | directory => exact absurd entry accepts.free

theorem allowsPath_of_read_eq_missing (missing : tree.read path = .error .missing)
    : tree.limits.allowsPath path = true := by
  by_contra refused
  have place : tree.place path = .error .unreadable := by
    rw [FileTree.place, if_neg refused]
  rw [FileTree.read, find, place] at missing
  cases missing

-----------------------------------------------------------------------------------------
-- Trees with the directories on the way
-----------------------------------------------------------------------------------------

theorem limits_prepared (tree : FileTree) (path : Path)
    : (tree.prepared path).limits = tree.limits := by
  unfold prepared makeDirectories
  split_ifs
  · exact limits_makeAlong tree _ _
  · rfl

theorem fits_congr {later : FileTree} (limits : later.limits = tree.limits)
    : later.Fits path ↔ tree.Fits path := by
  rw [Fits, Fits, limits]

theorem file?_prepared (tree : FileTree) (path : Path) (other : List String)
    : (tree.prepared path).file? other = tree.file? other := by
  unfold prepared makeDirectories
  split_ifs
  · exact file?_makeAlong tree _ _ other
  · rfl

theorem IsOpenAt.prepared {other : List String} (isOpen : tree.IsOpenAt other) (path : Path)
    : (tree.prepared path).IsOpenAt other := by
  unfold FileTree.prepared makeDirectories
  split_ifs
  · exact isOpen.makeAlong _ _
  · exact isOpen

theorem of_isOpenAt_prepared {other : List String} (named : path.IsNamed)
    (isOpen : (tree.prepared path).IsOpenAt other)
    : tree.IsOpenAt other ∨ other ∈ way path := by
  unfold prepared at isOpen
  by_cases allowed : tree.limits.allowsPath path.parent = true
  · rw [makeDirectories_snd allowed, origin_parent named, Path.walk_parent named] at isOpen
    exact of_isOpenAt_makeAlong isOpen
  · rw [makeDirectories, if_neg allowed] at isOpen
    exact .inl isOpen

/-- The directories on the way can all be made if there is no file among them. -/
theorem makeDirectories_parent_iff (named : path.IsNamed) (fits : tree.Fits path)
    : (tree.makeDirectories path.parent).1 = true
      ↔ ∀ other ∈ way path, tree.file? other = none := by
  obtain ⟨name, member, proper⟩ : ∃ name ∈ path.walk, Path.IsName name := by
    obtain ⟨front, name, -, walk, proper⟩ := named.exists_steps
    exact ⟨name, by simp [walk], proper⟩
  have room := allowsName_dot (fits.2 name member) proper.ne_empty
  rw [makeDirectories_eq (Path.allowsPath_parent named fits.1) room, origin_parent named,
    Path.walk_parent named, makeAlong_fst_iff]
  exact and_iff_right fun name member => fits.2 name (List.dropLast_subset _ member)

theorem isOpenAt_prepared (named : path.IsNamed) (fits : tree.Fits path)
    (clear : ∀ other ∈ way path, tree.file? other = none)
    : ∀ other ∈ way path, (tree.prepared path).IsOpenAt other := by
  intro other onWay
  rw [prepared_eq named fits]
  refine isOpenAt_makeAlong ((makeAlong_fst_iff tree _ _).mpr ⟨fun name member => ?_, clear⟩) onWay
  exact fits.2 name (List.dropLast_subset _ member)

/-- A file can be written in the end if it could be from the start. -/
theorem write_prepared_iff (named : path.IsNamed) {content : String} {later : FileTree}
    : (tree.makeDirectories path.parent).1 = true
        ∧ (tree.prepared path).write path content = some later
      ↔ tree.Accepts path ∧ later = tree.stored path content := by
  rw [write_eq_some_iff named, fits_congr (limits_prepared tree path), stored]
  constructor
  · rintro ⟨made, rfl, fits, isOpen, notOpen⟩
    refine ⟨{
      fits
      clear := (makeDirectories_parent_iff named fits).mp made
      apart := fun onWay => notOpen (isOpen _ onWay)
      free := fun open' => notOpen (open'.prepared path)
    }, rfl⟩
  · rintro ⟨accepts, rfl⟩
    have isOpen := isOpenAt_prepared named accepts.fits accepts.clear
    refine ⟨(makeDirectories_parent_iff named accepts.fits).mpr accepts.clear, rfl, accepts.fits,
      isOpen, fun open' => ?_⟩
    exact (of_isOpenAt_prepared named open').elim accepts.free accepts.apart

-----------------------------------------------------------------------------------------
-- Trees with a file more
-----------------------------------------------------------------------------------------

theorem file?_stored (named : path.IsNamed) (content : String) (other : List String)
    : (tree.stored path content).file? other
      = if other = goal path then some content else tree.file? other := by
  rw [stored, file?, get?_put (isTop_goal named)]
  split_ifs
  · rfl
  · exact file?_prepared tree path other

theorem isOpenAt_stored_iff (named : path.IsNamed) (content : String) {other : List String}
    : (tree.stored path content).IsOpenAt other
      ↔ other ≠ goal path ∧ (tree.prepared path).IsOpenAt other := by
  rw [stored, IsOpenAt, get?_put (isTop_goal named)]
  split_ifs with same
  · simp [same]
  · exact (and_iff_right same).symm

end FileTree

namespace Artifact

open FileTree

/-- What giving a file its text does to a tree. -/
def placeIn (tree : FileTree) (path : Path) (content : String)
    : Except PassFault Stored × FileTree :=
  (place path content : StateM FileTree _).run tree

/-- What storing an artifact below a directory does to a tree. -/
def storeIn (root : Path) (artifact : Artifact) (tree : FileTree)
    : Except PassFault Stored × FileTree :=
  (storeBelow root artifact : StateM FileTree _).run tree

theorem placeIn_eq (tree : FileTree) (path : Path) (content : String)
    : placeIn tree path content
      = if (tree.makeDirectories path.parent).1 = true then
          match (tree.prepared path).write path content with
          | some later => (.ok .written, later)
          | none => (.error (.unwritable path), tree.prepared path)
        else (.error (.unwritable path), tree.prepared path) := by
  let written : StateM FileTree (Except PassFault Stored) := do
    if ← FileSystem.write path content then
      return .ok .written
    return .error (.unwritable path)
  have made
      : placeIn tree path content
        = (if (tree.makeDirectories path.parent).1 = true then written
            else pure (.error (.unwritable path))).run (tree.prepared path) :=
    rfl
  rw [made]
  split_ifs
  · have last (wrote : Bool × FileTree)
        (eq
          : (match (tree.prepared path).write path content with
              | some later => (true, later)
              | none => (false, tree.prepared path))
            = wrote)
        : written.run (tree.prepared path)
          = (if wrote.1 = true then pure (.ok .written)
              else pure (.error (.unwritable path)) : StateM FileTree _).run wrote.2 := by
      subst eq
      rfl
    cases shape : (tree.prepared path).write path content with
    | some later => exact last (true, later) (by rw [shape])
    | none => exact last (false, tree.prepared path) (by rw [shape])
  · rfl

theorem storeIn_eq (root : Path) (artifact : Artifact) (tree : FileTree)
    : let path := root.join artifact.destination
      storeIn root artifact tree
      = match tree.read path with
        | .ok content =>
            if content = artifact.content then (.ok .unchanged, tree)
            else placeIn tree path artifact.content
        | .error .missing => placeIn tree path artifact.content
        | .error _ => (.error (.unwritable path), tree) := by
  intro path
  have start
      : storeIn root artifact tree
        = (match tree.read path with
          | .ok content =>
              if content = artifact.content then pure (.ok .unchanged)
              else place path artifact.content
          | .error .missing => place path artifact.content
          | .error _ => pure (.error (.unwritable path)) : StateM FileTree _).run tree :=
    rfl
  rw [start]
  cases tree.read path with
  | error fault => cases fault <;> rfl
  | ok content =>
      dsimp only
      split_ifs <;> rfl

theorem placeIn_of_accepts (named : path.IsNamed) (accepts : tree.Accepts path)
    (content : String)
    : placeIn tree path content = (.ok .written, tree.stored path content) := by
  obtain ⟨made, written⟩ := (write_prepared_iff named).mpr ⟨accepts, rfl⟩
  rw [placeIn_eq, if_pos made, written]

theorem placeIn_of_not_accepts (named : path.IsNamed) (refuses : ¬ tree.Accepts path)
    (content : String)
    : placeIn tree path content = (.error (.unwritable path), tree.prepared path) := by
  rw [placeIn_eq]
  split_ifs with made
  · cases written : (tree.prepared path).write path content with
    | none => rfl
    | some later => exact absurd ((write_prepared_iff named).mp ⟨made, written⟩).1 refuses
  · rfl

/-- What storing an artifact does. -/
theorem storeIn_cases (root : Path) (artifact : Artifact)
    (named : (root.join artifact.destination).IsNamed) (tree : FileTree)
    : let path := root.join artifact.destination
      let result := storeIn root artifact tree
      (tree.Accepts path ∧ tree.read path = .ok artifact.content ∧ result = (.ok .unchanged, tree))
      ∨ (tree.Accepts path ∧ tree.read path ≠ .ok artifact.content
        ∧ result = (.ok .written, tree.stored path artifact.content))
      ∨ (¬ tree.Accepts path ∧ result.1 = .error (.unwritable path)
        ∧ (result.2 = tree
          ∨ tree.limits.allowsPath path = true ∧ result.2 = tree.prepared path)) := by
  intro path result
  have eq : result = _ := storeIn_eq root artifact tree
  by_cases accepts : tree.Accepts path
  · have placed := placeIn_of_accepts named accepts artifact.content
    rcases accepts.read named with ⟨content, read⟩ | missing
    · rw [read] at eq
      dsimp only at eq
      split_ifs at eq with same
      · exact .inl ⟨accepts, same ▸ read, eq⟩
      · refine .inr (.inl ⟨accepts, fun read' => same ?_, eq.trans placed⟩)
        exact Except.ok.inj (read.symm.trans read')
    · rw [missing] at eq
      refine .inr (.inl ⟨accepts, fun read => ?_, eq.trans placed⟩)
      cases missing.symm.trans read
  · refine .inr (.inr ⟨accepts, ?_⟩)
    have placed := placeIn_of_not_accepts named accepts artifact.content
    cases read : tree.read path with
    | ok content => exact absurd (accepts_of_read named read) accepts
    | error fault =>
        rw [read] at eq
        cases fault with
        | missing =>
            have eq' := eq.trans placed
            exact ⟨congrArg Prod.fst eq',
              .inr ⟨allowsPath_of_read_eq_missing read, congrArg Prod.snd eq'⟩⟩
        | isDirectory => exact ⟨congrArg Prod.fst eq, .inl (congrArg Prod.snd eq)⟩
        | unreadable => exact ⟨congrArg Prod.fst eq, .inl (congrArg Prod.snd eq)⟩

-----------------------------------------------------------------------------------------
-- What is in the tree afterwards
-----------------------------------------------------------------------------------------

variable (named : (root.join artifact.destination).IsNamed)

include named

/-- An artifact is stored if and only if there can be a file for it. -/
theorem isOk_storeIn_iff
    : (storeIn root artifact tree).1.isOk = true ↔ tree.Accepts (root.join artifact.destination) := by
  rcases storeIn_cases root artifact named tree
    with ⟨accepts, -, eq⟩ | ⟨accepts, -, eq⟩ | ⟨refuses, eq, -⟩
  · rw [eq]
    exact iff_of_true rfl accepts
  · rw [eq]
    exact iff_of_true rfl accepts
  · rw [eq]
    exact iff_of_false (by simp [Except.isOk, Except.toBool]) refuses

/-- A stored artifact is the content of its own file, and changes no other one. -/
theorem file?_storeIn (accepts : tree.Accepts (root.join artifact.destination))
    (other : List String)
    : (storeIn root artifact tree).2.file? other
      = if other = goal (root.join artifact.destination) then some artifact.content
        else tree.file? other := by
  rcases storeIn_cases root artifact named tree with ⟨-, read, eq⟩ | ⟨-, -, eq⟩ | ⟨refuses, -⟩
  · rw [eq]
    split_ifs with same
    · exact same ▸ ((read_eq_ok_iff named).mp read).2.2
    · rfl
  · rw [eq]
    exact file?_stored named artifact.content other
  · exact absurd accepts refuses

/-- An artifact that cannot be stored changes no file. -/
theorem file?_storeIn_of_not_accepts
    (refuses : ¬ tree.Accepts (root.join artifact.destination)) (other : List String)
    : (storeIn root artifact tree).2.file? other = tree.file? other := by
  rcases storeIn_cases root artifact named tree with ⟨accepts, -⟩ | ⟨accepts, -⟩ | ⟨-, -, same | ⟨-, same⟩⟩
  · exact absurd accepts refuses
  · exact absurd accepts refuses
  · rw [same]
  · rw [same, file?_prepared]

theorem limits_storeIn : (storeIn root artifact tree).2.limits = tree.limits := by
  rcases storeIn_cases root artifact named tree with ⟨-, -, eq⟩ | ⟨-, -, eq⟩ | ⟨-, -, same | ⟨-, same⟩⟩
  · rw [eq]
  · rw [eq]
    exact limits_prepared tree _
  · rw [same]
  · rw [same, limits_prepared]

/-- No directory is lost. -/
theorem isOpenAt_storeIn {other : List String} (isOpen : tree.IsOpenAt other)
    : (storeIn root artifact tree).2.IsOpenAt other := by
  rcases storeIn_cases root artifact named tree
    with ⟨-, -, eq⟩ | ⟨accepts, -, eq⟩ | ⟨-, -, same | ⟨-, same⟩⟩
  · rwa [eq]
  · rw [eq]
    refine (isOpenAt_stored_iff named _).mpr ⟨fun same => accepts.free (same ▸ isOpen), ?_⟩
    exact isOpen.prepared _
  · rwa [same]
  · rw [same]
    exact isOpen.prepared _

/-- Directories are made on the way only. -/
theorem of_isOpenAt_storeIn {other : List String}
    (isOpen : (storeIn root artifact tree).2.IsOpenAt other)
    : tree.IsOpenAt other ∨ other ∈ way (root.join artifact.destination) := by
  rcases storeIn_cases root artifact named tree with ⟨-, -, eq⟩ | ⟨-, -, eq⟩ | ⟨-, -, same | ⟨-, same⟩⟩
  · rw [eq] at isOpen
    exact .inl isOpen
  · rw [eq, isOpenAt_stored_iff named] at isOpen
    exact of_isOpenAt_prepared named isOpen.2
  · rw [same] at isOpen
    exact .inl isOpen
  · rw [same] at isOpen
    exact of_isOpenAt_prepared named isOpen

theorem isOpenAt_way_storeIn (accepts : tree.Accepts (root.join artifact.destination))
    : ∀ other ∈ way (root.join artifact.destination),
        (storeIn root artifact tree).2.IsOpenAt other := by
  intro other onWay
  rcases storeIn_cases root artifact named tree with ⟨-, read, eq⟩ | ⟨-, -, eq⟩ | ⟨refuses, -⟩
  · rw [eq]
    exact ((read_eq_ok_iff named).mp read).2.1 other onWay
  · rw [eq]
    refine (isOpenAt_stored_iff named _).mpr ⟨fun same => accepts.apart (same ▸ onWay), ?_⟩
    exact isOpenAt_prepared named accepts.fits accepts.clear other onWay
  · exact absurd accepts refuses

/-- Where a file can be, there can still be one after another one has been stored, if neither is on
the way of the other.
-/
theorem accepts_storeIn (accepts : tree.Accepts path)
    (beside : tree.Accepts (root.join artifact.destination)
      → goal (root.join artifact.destination) ∉ way path)
    (beside' : goal path ∉ way (root.join artifact.destination))
    : (storeIn root artifact tree).2.Accepts path := by
  refine {
    fits := (fits_congr (limits_storeIn named)).mpr accepts.fits
    clear := fun other onWay => ?_
    apart := accepts.apart
    free := fun isOpen => (of_isOpenAt_storeIn named isOpen).elim accepts.free beside'
  }
  by_cases stored : tree.Accepts (root.join artifact.destination)
  · have elsewhere : other ≠ goal (root.join artifact.destination) := fun same =>
      beside stored (same ▸ onWay)
    rw [file?_storeIn named stored, if_neg elsewhere]
    exact accepts.clear other onWay
  · rw [file?_storeIn_of_not_accepts named stored]
    exact accepts.clear other onWay

/-- Storing makes no place for files. -/
theorem accepts_of_accepts_storeIn (accepts : (storeIn root artifact tree).2.Accepts path)
    : tree.Accepts path := by
  refine {
    fits := (fits_congr (limits_storeIn named)).mp accepts.fits
    clear := fun other onWay => ?_
    apart := accepts.apart
    free := fun isOpen => accepts.free (isOpenAt_storeIn named isOpen)
  }
  have clear := accepts.clear other onWay
  by_cases stored : tree.Accepts (root.join artifact.destination)
  · rw [file?_storeIn named stored] at clear
    split_ifs at clear
    exact clear
  · rwa [file?_storeIn_of_not_accepts named stored] at clear

end Artifact

end ApiBindings
