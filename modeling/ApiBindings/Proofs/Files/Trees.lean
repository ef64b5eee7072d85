import ApiBindings.Files.Tree
import ApiBindings.Proofs.Files.Parents

/-! Trees of files, as what there is at each place.
Steps lead from a place to places that depend on the names only. They can be followed if each place
on the way is a directory. Making directories along steps adds directories at places on the way,
which are all there in the end unless there is a file at one of them.
-/

namespace ApiBindings

variable {tree : FileTree} {place other : List String} {name : String}

namespace FileTree

-----------------------------------------------------------------------------------------
-- Places
-----------------------------------------------------------------------------------------

/-- Where steps lead from a place. -/
def reach (place steps : List String) : List String :=
  steps.foldl step place

/-- The places that steps lead through, the last one being where they lead. -/
def passed (place : List String) : List String → List (List String)
  | [] => []
  | name :: rest => step place name :: passed (step place name) rest

/-- The text of the file at a place. -/
def file? (tree : FileTree) (place : List String) : Option String :=
  match tree.get? place with
  | some (.file text) => some text
  | _ => none

def IsOpenAt (tree : FileTree) (place : List String) : Prop :=
  tree.get? place = some .directory

theorem file?_eq_some_iff {text : String}
    : tree.file? place = some text ↔ tree.get? place = some (.file text) := by
  unfold file?
  cases tree.get? place with
  | none => simp
  | some entry => cases entry <;> simp

theorem IsOpenAt.file? (isOpen : tree.IsOpenAt place) : tree.file? place = none := by
  unfold FileTree.file?
  rw [isOpen]

theorem isOpenAt_origin (tree : FileTree) (path : Path) : tree.IsOpenAt (origin path) := by
  unfold IsOpenAt origin get?
  split_ifs <;> first | rfl | contradiction

theorem step_dot (place : List String) : step place "." = place :=
  rfl

/-- Names lead down from a place. -/
theorem step_of_isName (proper : Path.IsName name) (place : List String)
    : step place name = place ++ [name] := by
  rw [step, if_neg proper.ne_dot, if_neg proper.2.1]

theorem reach_append (place front back : List String)
    : reach place (front ++ back) = reach (reach place front) back :=
  List.foldl_append

theorem reach_concat (place front : List String) (name : String)
    : reach place (front ++ [name]) = step (reach place front) name :=
  reach_append place front [name]

theorem passed_append (place front back : List String)
    : passed place (front ++ back) = passed place front ++ passed (reach place front) back := by
  induction front generalizing place with
  | nil => rfl
  | cons name rest ih => exact congrArg (step place name :: ·) (ih _)

theorem passed_filter_subset (place steps : List String)
    : passed place (steps.filter fun step => step ≠ ".") ⊆ passed place steps := by
  induction steps generalizing place with
  | nil => exact List.Subset.refl _
  | cons name rest ih =>
      by_cases dot : name = "."
      · subst dot
        exact List.subset_cons_of_subset _ (ih place)
      · rw [List.filter_cons_of_pos (by simpa using dot)]
        exact List.cons_subset_cons _ (ih (step place name))

theorem reach_mem_passed {steps : List String} (some : steps ≠ []) (place : List String)
    : reach place steps ∈ passed place steps := by
  induction steps generalizing place with
  | nil => exact absurd rfl some
  | cons name rest ih =>
      cases rest with
      | nil => exact List.mem_cons_self
      | cons next later =>
          exact List.mem_cons_of_mem _ (ih (List.cons_ne_nil _ _) (step place name))

-----------------------------------------------------------------------------------------
-- Putting entries
-----------------------------------------------------------------------------------------

@[simp]
theorem limits_put (tree : FileTree) (place : List String) (entry : Entry)
    : (tree.put place entry).limits = tree.limits :=
  rfl

theorem isTop_eq_false (absent : tree.get? place = none) : isTop place = false := by
  cases top : isTop place with
  | false => rfl
  | true => simp [get?, top] at absent

theorem get?_put (low : isTop place = false) (entry : Entry) (other : List String)
    : (tree.put place entry).get? other
      = if other = place then some entry else tree.get? other := by
  split_ifs with same
  · rw [same, get?_put_self entry low]
  · exact get?_put_of_ne entry same

-----------------------------------------------------------------------------------------
-- Following steps
-----------------------------------------------------------------------------------------

/-- A name that is allowed has room for a point. -/
theorem allowsName_dot {limits : Limits} (allowed : limits.allowsName name = true)
    (some : name ≠ "")
    : limits.allowsName "." = true := by
  unfold Limits.allowsName at *
  cases most : limits.name with
  | none => rfl
  | some most' =>
      rw [most] at allowed
      have size : name.utf8ByteSize ≠ 0 := fun none =>
        some (String.utf8ByteSize_eq_zero_iff.mp none)
      have room : name.utf8ByteSize ≤ most' := of_decide_eq_true allowed
      have dot : (".": String).utf8ByteSize = 1 := by rfl
      exact decide_eq_true (by omega)

theorem follow_cons_of_none (absent : tree.get? place = none) (name : String)
    (rest : List String)
    : tree.follow place (name :: rest) = .error .missing := by
  rw [follow, absent]

theorem follow_cons_of_file {text : String} (file : tree.get? place = some (.file text))
    (name : String) (rest : List String)
    : tree.follow place (name :: rest) = .error .unreadable := by
  rw [follow, file]

theorem follow_cons_of_isOpenAt (isOpen : tree.IsOpenAt place) (name : String)
    (rest : List String)
    : tree.follow place (name :: rest)
      = if tree.limits.allowsName name then tree.follow (step place name) rest
        else .error .unreadable := by
  rw [follow, isOpen]

/-- Steps that stay in place do not count if others follow, by induction on the steps. -/
theorem follow_filter {steps : List String} (proper : ∀ name ∈ steps, name ≠ "")
    (last : name ≠ "") (place : List String)
    : tree.follow place ((steps.filter fun step => step ≠ ".") ++ [name])
      = tree.follow place (steps ++ [name]) := by
  induction steps generalizing place with
  | nil => rfl
  | cons first rest ih =>
      obtain ⟨-, others⟩ := List.forall_mem_cons.mp proper
      by_cases dot : first = "."
      · subst dot
        -- The next step has to start at this place too, and is allowed only if a point is.
        obtain ⟨next, later, shape, some⟩
            : ∃ next later, rest ++ [name] = next :: later ∧ next ≠ "" := by
          cases rest with
          | nil => exact ⟨name, [], rfl, last⟩
          | cons next later =>
              exact ⟨next, later ++ [name], rfl, others next List.mem_cons_self⟩
        rw [List.filter_cons_of_neg (by simp), ih others, List.cons_append, shape]
        cases entry : tree.get? place with
        | none => rw [follow_cons_of_none entry, follow_cons_of_none entry]
        | some found =>
            cases found with
            | file text => rw [follow_cons_of_file entry, follow_cons_of_file entry]
            | directory =>
                rw [follow_cons_of_isOpenAt entry ".", step_dot]
                split_ifs with room
                · rfl
                · rw [follow_cons_of_isOpenAt entry,
                    if_neg fun allowed => room (allowsName_dot allowed some)]
      · rw [List.filter_cons_of_pos (by simpa using dot), List.cons_append, List.cons_append,
          follow, follow]
        simp only [ih others]

theorem follow_cons_eq_ok_iff {rest goal : List String}
    : tree.follow place (name :: rest) = .ok goal
      ↔ tree.IsOpenAt place ∧ tree.limits.allowsName name = true
        ∧ tree.follow (step place name) rest = .ok goal := by
  unfold IsOpenAt
  cases entry : tree.get? place with
  | none => simp [follow_cons_of_none entry]
  | some found =>
      cases found with
      | file text => simp [follow_cons_of_file entry]
      | directory =>
          rw [follow_cons_of_isOpenAt entry]
          split_ifs with allowed <;> simp [allowed]

/-- Steps that lead to a directory lead through directories. -/
theorem of_follow_eq_ok {steps goal : List String} (leads : tree.follow place steps = .ok goal)
    (isOpen : tree.IsOpenAt goal)
    : goal = reach place steps ∧ ∀ other ∈ place :: passed place steps, tree.IsOpenAt other := by
  induction steps generalizing place with
  | nil =>
      obtain rfl := Except.ok.inj leads
      exact ⟨rfl, List.forall_mem_singleton.mpr isOpen⟩
  | cons first rest ih =>
      obtain ⟨start, -, leads⟩ := follow_cons_eq_ok_iff.mp leads
      obtain ⟨ends, others⟩ := ih leads
      exact ⟨ends, List.forall_mem_cons.mpr ⟨start, others⟩⟩

/-- Steps that end in a name can be followed if all places on the way are directories and all names
are allowed, by induction on the steps.
-/
theorem follow_concat_eq_ok_iff {front goal : List String}
    : tree.follow place (front ++ [name]) = .ok goal
      ↔ goal = step (reach place front) name
        ∧ (∀ step ∈ front ++ [name], tree.limits.allowsName step = true)
        ∧ ∀ other ∈ place :: passed place front, tree.IsOpenAt other := by
  induction front generalizing place with
  | nil =>
      rw [List.nil_append, follow_cons_eq_ok_iff, follow, Except.ok.injEq, passed,
        List.forall_mem_singleton, List.forall_mem_singleton]
      exact ⟨fun ⟨isOpen, allowed, leads⟩ => ⟨leads.symm, allowed, isOpen⟩,
        fun ⟨leads, allowed, isOpen⟩ => ⟨isOpen, allowed, leads.symm⟩⟩
  | cons first rest ih =>
      rw [List.cons_append, follow_cons_eq_ok_iff, ih, passed, @List.forall_mem_cons _ _ first,
        @List.forall_mem_cons _ _ place]
      exact ⟨fun ⟨isOpen, allowed, leads, others, way⟩ => ⟨leads, ⟨allowed, others⟩, isOpen, way⟩,
        fun ⟨leads, ⟨allowed, others⟩, isOpen, way⟩ => ⟨isOpen, allowed, leads, others, way⟩⟩

/-- What keeps steps from being followed, other than that something is missing. -/
theorem of_follow_eq_unreadable {steps : List String}
    (unreadable : tree.follow place steps = .error .unreadable)
    : (∃ name ∈ steps, tree.limits.allowsName name = false)
      ∨ ∃ other ∈ place :: passed place steps.dropLast, ∃ text, tree.file? other = some text := by
  induction steps generalizing place with
  | nil => cases unreadable
  | cons first rest ih =>
      cases entry : tree.get? place with
      | none => simp [follow_cons_of_none entry] at unreadable
      | some found =>
          cases found with
          | file text =>
              exact .inr ⟨place, List.mem_cons_self, text, file?_eq_some_iff.mpr entry⟩
          | directory =>
              rw [follow_cons_of_isOpenAt entry] at unreadable
              split_ifs at unreadable with allowed
              · rcases ih unreadable with ⟨name, member, tooLong⟩ | ⟨other, member, file⟩
                · exact .inl ⟨name, List.mem_cons_of_mem _ member, tooLong⟩
                · cases rest with
                  | nil => cases unreadable
                  | cons next later => exact .inr ⟨other, List.mem_cons_of_mem _ member, file⟩
              · exact .inl ⟨first, List.mem_cons_self, Bool.eq_false_iff.mpr allowed⟩

theorem follow_ne_isDirectory (tree : FileTree) (place steps : List String)
    : tree.follow place steps ≠ .error .isDirectory := by
  induction steps generalizing place with
  | nil => simp [follow]
  | cons first rest ih =>
      rw [follow]
      split
      · simp
      · simp
      · split_ifs
        · exact ih _
        · simp

-----------------------------------------------------------------------------------------
-- Making directories
-----------------------------------------------------------------------------------------

/-- A tree in which nothing is missing at a place. -/
def openAt (tree : FileTree) (place : List String) : FileTree :=
  if tree.get? place = none then tree.put place .directory else tree

theorem limits_openAt (tree : FileTree) (place : List String)
    : (tree.openAt place).limits = tree.limits := by
  unfold openAt
  split_ifs <;> rfl

theorem openAt_of_isOpenAt (isOpen : tree.IsOpenAt place) : tree.openAt place = tree := by
  unfold openAt
  rw [isOpen, if_neg (by simp)]

theorem isOpenAt_openAt (clear : tree.file? place = none)
    : (tree.openAt place).IsOpenAt place := by
  unfold openAt IsOpenAt
  split_ifs with absent
  · exact get?_put_self .directory (isTop_eq_false absent)
  · cases entry : tree.get? place with
    | none => exact absurd entry absent
    | some found =>
        cases found with
        | file text => simp [file?, entry] at clear
        | directory => rfl

theorem get?_openAt (tree : FileTree) (place other : List String)
    : (tree.openAt place).get? other = tree.get? other
      ∨ tree.get? other = none ∧ (tree.openAt place).IsOpenAt other ∧ other = place := by
  by_cases absent : tree.get? place = none
  · by_cases same : other = place
    · subst same
      exact .inr ⟨absent, isOpenAt_openAt (by simp [file?, absent]), rfl⟩
    · rw [openAt, if_pos absent]
      exact .inl (get?_put_of_ne .directory same)
  · rw [openAt, if_neg absent]
    exact .inl rfl

/-- Directories are made one after the other, until there is a file or a name is not allowed. -/
theorem makeAlong_cons (tree : FileTree) (place : List String) (name : String)
    (rest : List String)
    : tree.makeAlong place (name :: rest)
      = if tree.limits.allowsName name = true ∧ tree.file? (step place name) = none then
          (tree.openAt (step place name)).makeAlong (step place name) rest
        else (false, tree) := by
  rw [makeAlong, openAt, file?]
  by_cases allowed : tree.limits.allowsName name = true
  · cases entry : tree.get? (step place name) with
    | none => simp [allowed]
    | some found => cases found <;> simp [allowed]
  · simp [allowed]

theorem limits_makeAlong (tree : FileTree) (place steps : List String)
    : (tree.makeAlong place steps).2.limits = tree.limits := by
  induction steps generalizing tree place with
  | nil => rfl
  | cons name rest ih =>
      rw [makeAlong_cons]
      split_ifs
      · exact (ih _ _).trans (limits_openAt tree _)
      · rfl

/-- What making directories does at any place: nothing, or it adds a directory on the way. -/
theorem get?_makeAlong (tree : FileTree) (place steps other : List String)
    : (tree.makeAlong place steps).2.get? other = tree.get? other
      ∨ tree.get? other = none ∧ (tree.makeAlong place steps).2.IsOpenAt other
        ∧ other ∈ passed place steps := by
  induction steps generalizing tree place with
  | nil => exact .inl rfl
  | cons name rest ih =>
      rw [makeAlong_cons]
      split_ifs
      · rcases ih (tree.openAt (step place name)) (step place name) with same | added
        · rcases get?_openAt tree (step place name) other with same' | ⟨absent, isOpen, rfl⟩
          · exact .inl (same.trans same')
          · exact .inr ⟨absent, same.trans isOpen, List.mem_cons_self⟩
        · obtain ⟨absent, isOpen, member⟩ := added
          rcases get?_openAt tree (step place name) other with same' | ⟨absent', -, -⟩
          · exact .inr ⟨same' ▸ absent, isOpen, List.mem_cons_of_mem _ member⟩
          · exact .inr ⟨absent', isOpen, List.mem_cons_of_mem _ member⟩
      · exact .inl rfl

theorem file?_makeAlong (tree : FileTree) (place steps other : List String)
    : (tree.makeAlong place steps).2.file? other = tree.file? other := by
  rcases get?_makeAlong tree place steps other with same | ⟨absent, isOpen, -⟩
  · rw [file?, same, file?]
  · rw [isOpen.file?, file?, absent]

theorem IsOpenAt.makeAlong (isOpen : tree.IsOpenAt other) (place steps : List String)
    : (tree.makeAlong place steps).2.IsOpenAt other := by
  rcases get?_makeAlong tree place steps other with same | ⟨-, isOpen', -⟩
  · exact same.trans isOpen
  · exact isOpen'

theorem of_isOpenAt_makeAlong {steps : List String}
    (isOpen : (tree.makeAlong place steps).2.IsOpenAt other)
    : tree.IsOpenAt other ∨ other ∈ passed place steps := by
  rcases get?_makeAlong tree place steps other with same | ⟨-, -, member⟩
  · exact .inl (same.symm.trans isOpen)
  · exact .inr member

theorem file?_openAt (tree : FileTree) (place other : List String)
    : (tree.openAt place).file? other = tree.file? other := by
  rcases get?_openAt tree place other with same | ⟨absent, isOpen, -⟩
  · rw [file?, same, file?]
  · rw [isOpen.file?, file?, absent]

/-- All directories are made unless there is a file on the way or a name is not allowed. -/
theorem makeAlong_fst_iff (tree : FileTree) (place steps : List String)
    : (tree.makeAlong place steps).1 = true
      ↔ (∀ name ∈ steps, tree.limits.allowsName name = true)
        ∧ ∀ other ∈ passed place steps, tree.file? other = none := by
  induction steps generalizing tree place with
  | nil => simp [makeAlong, passed]
  | cons name rest ih =>
      rw [makeAlong_cons, passed, List.forall_mem_cons, List.forall_mem_cons]
      split_ifs with possible
      · rw [ih, limits_openAt]
        simp only [file?_openAt, possible, true_and]
      · refine iff_of_false id fun ⟨⟨allowed, _⟩, clear, _⟩ => ?_
        exact possible ⟨allowed, clear⟩

/-- Directories that could all be made are there. -/
theorem isOpenAt_makeAlong {steps : List String} (made : (tree.makeAlong place steps).1 = true)
    (member : other ∈ passed place steps)
    : (tree.makeAlong place steps).2.IsOpenAt other := by
  induction steps generalizing tree place with
  | nil => cases member
  | cons name rest ih =>
      rw [makeAlong_cons] at made ⊢
      split_ifs at made ⊢ with possible
      rcases List.mem_cons.mp member with rfl | later
      · exact (isOpenAt_openAt possible.2).makeAlong _ _
      · exact ih made later

/-- Nothing is made where all directories are there. -/
theorem makeAlong_of_isOpenAt {steps : List String}
    (isOpen : ∀ other ∈ passed place steps, tree.IsOpenAt other)
    : (tree.makeAlong place steps).2 = tree := by
  induction steps generalizing place with
  | nil => rfl
  | cons name rest ih =>
      obtain ⟨here, later⟩ := List.forall_mem_cons.mp isOpen
      rw [makeAlong_cons]
      split_ifs
      · rw [openAt_of_isOpenAt here]
        exact ih later
      · rfl

/-- Making directories again does nothing more. -/
theorem makeAlong_makeAlong (tree : FileTree) (place steps : List String)
    : (tree.makeAlong place steps).2.makeAlong place steps = tree.makeAlong place steps := by
  induction steps generalizing tree place with
  | nil => rfl
  | cons name rest ih =>
      rw [makeAlong_cons tree]
      split_ifs with possible
      · let made := (tree.openAt (step place name)).makeAlong (step place name) rest
        have isOpen : made.2.IsOpenAt (step place name) := (isOpenAt_openAt possible.2).makeAlong _ _
        have allowed : made.2.limits.allowsName name = true := by
          rw [limits_makeAlong, limits_openAt]
          exact possible.1
        rw [makeAlong_cons, if_pos ⟨allowed, isOpen.file?⟩, openAt_of_isOpenAt isOpen, ih]
      · rw [makeAlong_cons, if_neg possible]

/-- Steps that stay in place do not count where there is a directory to start from. -/
theorem makeAlong_filter {steps : List String} (room : tree.limits.allowsName "." = true)
    (isOpen : tree.IsOpenAt place)
    : tree.makeAlong place (steps.filter fun step => step ≠ ".")
      = tree.makeAlong place steps := by
  induction steps generalizing tree place with
  | nil => rfl
  | cons name rest ih =>
      by_cases dot : name = "."
      · subst dot
        rw [List.filter_cons_of_neg (by simp), ih room isOpen, makeAlong_cons _ _ ".", step_dot,
          if_pos ⟨room, isOpen.file?⟩, openAt_of_isOpenAt isOpen]
      · rw [List.filter_cons_of_pos (by simpa using dot), makeAlong_cons, makeAlong_cons]
        split_ifs with possible
        · exact ih ((limits_openAt tree _).symm ▸ room) (isOpenAt_openAt possible.2)
        · rfl

/-- Where there is no room for names nothing is made. -/
theorem makeAlong_of_no_room {steps : List String} (full : tree.limits.allowsName "." = false)
    (proper : ∀ name ∈ steps, name ≠ "")
    : (tree.makeAlong place steps).2 = tree := by
  cases steps with
  | nil => rfl
  | cons name rest =>
      have tooLong : ¬ tree.limits.allowsName name = true := fun allowed =>
        Bool.false_ne_true
          (full.symm.trans (allowsName_dot allowed (proper name List.mem_cons_self)))
      rw [makeAlong_cons, if_neg fun possible => tooLong possible.1]

-----------------------------------------------------------------------------------------
-- Paths
-----------------------------------------------------------------------------------------

/-- The place that a path leads to if it can be followed. -/
def goal (path : Path) : List String :=
  reach (origin path) path.walk

/-- The places between the start of a path and what it leads to. -/
def way (path : Path) : List (List String) :=
  passed (origin path) path.walk.dropLast

/-- Whether a path is allowed with all the names in it. -/
def Fits (tree : FileTree) (path : Path) : Prop :=
  tree.limits.allowsPath path = true
    ∧ ∀ name ∈ path.walk, tree.limits.allowsName name = true

variable {path : Path}

theorem goal_eq (named : path.IsNamed)
    : ∃ name,
        goal path = reach (origin path) path.walk.dropLast ++ [name] ∧ Path.IsName name := by
  obtain ⟨front, name, -, walk, proper⟩ := named.exists_steps
  refine ⟨name, ?_, proper⟩
  rw [goal, walk, reach_concat, List.dropLast_concat, step_of_isName proper]

theorem isTop_goal (named : path.IsNamed) : isTop (goal path) = false := by
  obtain ⟨name, shape, -, notBack, solid⟩ := goal_eq named
  rw [shape, isTop, Bool.or_eq_false_iff]
  constructor
  · refine beq_eq_false_iff_ne.mpr fun slash => ?_
    obtain ⟨-, last⟩ := List.append_inj' (slash.trans (List.nil_append _).symm) rfl
    obtain rfl := List.singleton_inj.mp last
    exact solid (by decide)
  · simp [notBack]

/-- What a path leads to is in a directory if all places on its way are directories. -/
theorem isOpenAt_dropLast_goal (named : path.IsNamed)
    (isOpen : ∀ other ∈ way path, tree.IsOpenAt other)
    : tree.IsOpenAt (goal path).dropLast := by
  obtain ⟨name, shape, -⟩ := goal_eq named
  rw [shape, List.dropLast_concat]
  by_cases none : path.walk.dropLast = []
  · rw [none]
    exact isOpenAt_origin tree path
  · exact isOpen _ (reach_mem_passed none _)

theorem place_of_isNamed (named : path.IsNamed) (tree : FileTree)
    : tree.place path
      = if tree.limits.allowsPath path then tree.follow (origin path) path.walk
        else .error .unreadable := by
  obtain ⟨front, name, steps, walk, proper⟩ := named.exists_steps
  have some : ∀ step ∈ front, step ≠ "" := fun step member =>
    Path.ne_empty_of_mem_steps (steps ▸ List.mem_append_left _ member)
  rw [place, steps, walk, follow_filter some proper.ne_empty]

/-- A path can be followed if it is allowed and all places on its way are directories. -/
theorem place_eq_ok_iff (named : path.IsNamed) {found : List String}
    : tree.place path = .ok found
      ↔ found = goal path ∧ tree.Fits path ∧ ∀ other ∈ way path, tree.IsOpenAt other := by
  obtain ⟨front, name, -, walk, -⟩ := named.exists_steps
  have start := isOpenAt_origin tree path
  rw [place_of_isNamed named, Fits, goal, way, walk, List.dropLast_concat, reach_concat]
  split_ifs with allowed
  · rw [follow_concat_eq_ok_iff, List.forall_mem_cons]
    simp [start, allowed]
  · simp [allowed]

/-- What keeps a path from being followed, other than that something is missing. -/
theorem of_place_eq_unreadable (named : path.IsNamed)
    (unreadable : tree.place path = .error .unreadable)
    : ¬ tree.Fits path ∨ ∃ other ∈ way path, ∃ text, tree.file? other = some text := by
  rw [place_of_isNamed named] at unreadable
  split_ifs at unreadable with allowed
  · rcases of_follow_eq_unreadable unreadable with ⟨name, member, tooLong⟩ | ⟨other, member, file⟩
    · exact .inl fun fits => Bool.false_ne_true (tooLong.symm.trans (fits.2 name member))
    · rcases List.mem_cons.mp member with rfl | onWay
      · rw [(isOpenAt_origin tree path).file?] at file
        simp at file
      · exact .inr ⟨other, onWay, file⟩
  · exact .inl fun fits => allowed fits.1

theorem place_ne_isDirectory (tree : FileTree) (path : Path)
    : tree.place path ≠ .error .isDirectory := by
  unfold place
  split_ifs
  · exact follow_ne_isDirectory tree _ _
  · simp

/-- A path to a directory leads through directories. -/
theorem isOpenAt_of_isDirectory (isDirectory : tree.isDirectory path = true)
    : ∀ other ∈ passed (origin path) path.walk, tree.IsOpenAt other := by
  intro other onWay
  unfold FileTree.isDirectory find at isDirectory
  cases place : tree.place path with
  | error fault => simp [place, bind, Except.bind] at isDirectory
  | ok found =>
      have isOpen : tree.IsOpenAt found := by
        unfold IsOpenAt
        rw [place] at isDirectory
        cases entry : tree.get? found with
        | none => simp [bind, Except.bind, entry] at isDirectory
        | some entry' =>
            cases entry' with
            | file text => simp [bind, Except.bind, entry] at isDirectory
            | directory => rfl
      rw [FileTree.place] at place
      split_ifs at place
      obtain ⟨-, isOpen⟩ := of_follow_eq_ok place isOpen
      rw [← Path.filter_steps] at onWay
      exact isOpen other (List.mem_cons_of_mem _ (passed_filter_subset _ _ onWay))

theorem makeDirectories_eq (allowed : tree.limits.allowsPath path = true)
    (room : tree.limits.allowsName "." = true)
    : tree.makeDirectories path = tree.makeAlong (origin path) path.walk := by
  rw [makeDirectories, if_pos allowed, ← Path.filter_steps,
    makeAlong_filter room (isOpenAt_origin tree path)]

/-- Which directories are made depends on the walk only. -/
theorem makeDirectories_snd (allowed : tree.limits.allowsPath path = true)
    : (tree.makeDirectories path).2 = (tree.makeAlong (origin path) path.walk).2 := by
  cases room : tree.limits.allowsName "." with
  | true => rw [makeDirectories_eq allowed room]
  | false =>
      have steps : ∀ step ∈ path.steps, step ≠ "" := fun _ => Path.ne_empty_of_mem_steps
      have walk : ∀ step ∈ path.walk, step ≠ "" := fun step member =>
        steps step (List.mem_filter.mp (Path.filter_steps path ▸ member)).1
      rw [makeDirectories, if_pos allowed, makeAlong_of_no_room room steps,
        makeAlong_of_no_room room walk]

theorem origin_parent (named : path.IsNamed) : origin path.parent = origin path := by
  rw [origin, Path.isAbsolute_parent named, origin]

end FileTree

end ApiBindings
