import ApiBindings.Proofs.Files.Trees

/-! Destinations below a root: paths that lead down through names only.
Behind a root such a path leads to the place of the root with its parts behind it, and on the way
to places in between.
-/

namespace ApiBindings

variable {path root : Path} {name : String}

namespace Path

/-- A relative path that leads through names only and ends in one. -/
structure IsNormal (path : Path) : Prop where
  relative : path.isAbsolute = false
  plain : ∀ part ∈ path.parts, IsName part
  named : path.IsNamed

theorem IsNormal.parts_eq (normal : path.IsNormal) : path.parts = path.walk := by
  have lead := lead_of_relative normal.relative
  have parts := Path.parts_eq path
  rcases lead with none | ⟨dot, -⟩
  · rw [parts, none, List.nil_append]
  · have member : "." ∈ path.parts := by simp [parts, dot]
    exact absurd (normal.plain "." member).1 (by decide)

theorem IsNormal.walk_ne_nil (normal : path.IsNormal) : path.walk ≠ [] := by
  obtain ⟨front, name, -, walk, -⟩ := normal.named.exists_steps
  simp [walk]

/-- A name is a path right below the place it starts at. -/
theorem IsName.isNormal (proper : IsName name)
    : Path.IsNormal { text := name } ∧ Path.parts { text := name } = [name] := by
  have named : Path.IsNamed { text := name } := proper.isNamed
  have relative : Path.isAbsolute { text := name } = false := by
    refine beq_eq_false_iff_ne.mpr fun slash => proper.2.2 ?_
    exact List.mem_of_head? slash
  have parts : Path.parts { text := name } = [name] := by
    have walk : Path.walk { text := name } = [name] := by
      rw [Path.walk, pieces_of_solid proper.2.2]
      simp [proper.1]
    rw [Path.parts_eq, walk, lead, relative, pieces_of_solid proper.2.2]
    simp [proper.ne_dot]
  refine ⟨⟨relative, fun part member => ?_, named⟩, parts⟩
  rw [parts] at member
  exact List.mem_singleton.mp member ▸ proper

end Path

namespace FileTree

theorem reach_of_names {names : List String} (plain : ∀ name ∈ names, Path.IsName name)
    (place : List String)
    : reach place names = place ++ names := by
  induction names generalizing place with
  | nil => exact (List.append_nil place).symm
  | cons name rest ih =>
      obtain ⟨first, others⟩ := List.forall_mem_cons.mp plain
      have deeper := ih others (place ++ [name])
      rw [List.append_assoc] at deeper
      exact (congrArg (reach · rest) (step_of_isName first place)).trans deeper

/-- What names lead through is below the place they start at, on the way to where they lead. -/
theorem exists_prefix_of_mem_passed {names place other : List String}
    (plain : ∀ name ∈ names, Path.IsName name) (member : other ∈ passed place names)
    : ∃ front, front ≠ [] ∧ front <+: names ∧ other = place ++ front := by
  induction names generalizing place with
  | nil => cases member
  | cons name rest ih =>
      obtain ⟨first, others⟩ := List.forall_mem_cons.mp plain
      rw [passed, step_of_isName first] at member
      rcases List.mem_cons.mp member with rfl | later
      · exact ⟨[name], List.cons_ne_nil _ _, (List.prefix_append [name] rest), rfl⟩
      · obtain ⟨front, -, among, rfl⟩ := ih others later
        exact ⟨name :: front, List.cons_ne_nil _ _, List.cons_prefix_cons.mpr ⟨rfl, among⟩,
          List.append_assoc _ _ _⟩

theorem origin_join (relative : path.isAbsolute = false) (root : Path)
    : origin (root.join path) = origin root := by
  rw [origin, Path.isAbsolute_join relative, origin]

theorem goal_join (normal : path.IsNormal) (root : Path)
    : goal (root.join path) = goal root ++ path.parts := by
  rw [goal, origin_join normal.relative, Path.walk_join normal.relative, reach_append,
    ← normal.parts_eq, reach_of_names normal.plain, goal]

theorem way_join (normal : path.IsNormal) (root : Path)
    : way (root.join path)
      = passed (origin root) root.walk ++ passed (goal root) path.parts.dropLast := by
  rw [way, origin_join normal.relative, Path.walk_join normal.relative,
    List.dropLast_append_of_ne_nil normal.walk_ne_nil, passed_append, ← normal.parts_eq, goal]

/-- What is on the way to a destination is on the way to the root, or below the root on the way to
the destination.
-/
theorem of_mem_way_join (normal : path.IsNormal) {other : List String}
    (onWay : other ∈ way (root.join path))
    : other ∈ passed (origin root) root.walk
      ∨ ∃ front, front ≠ [] ∧ front <+: path.parts ∧ front ≠ path.parts
          ∧ other = goal root ++ front := by
  rw [way_join normal] at onWay
  refine (List.mem_append.mp onWay).imp_right fun below => ?_
  have plain : ∀ name ∈ path.parts.dropLast, Path.IsName name := fun name member =>
    normal.plain name (List.dropLast_subset _ member)
  obtain ⟨front, some, among, rfl⟩ := exists_prefix_of_mem_passed plain below
  refine ⟨front, some, among.trans (List.dropLast_prefix _), ?_, rfl⟩
  rintro rfl
  have shorter := among.length_le
  have long : path.parts.length ≠ 0 := fun none => some (List.length_eq_zero_iff.mp none)
  rw [List.length_dropLast] at shorter
  omega

theorem goal_join_name (proper : Path.IsName name) (root : Path)
    : goal (root.join { text := name }) = goal root ++ [name] := by
  obtain ⟨normal, parts⟩ := proper.isNormal
  rw [goal_join normal, parts]

/-- The way to a file right below a root is the way to the root with the root itself. -/
theorem way_join_name (proper : Path.IsName name) (root : Path)
    : way (root.join { text := name }) = passed (origin root) root.walk := by
  obtain ⟨normal, parts⟩ := proper.isNormal
  rw [way_join normal, parts]
  exact List.append_nil _

end FileTree

end ApiBindings
