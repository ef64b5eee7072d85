import ApiBindings.Path
import ApiBindings.Proofs.Text.Layout

/-! Paths, as the names that they lead through.
Pieces of a path that lead nowhere do not count: neither for whether two paths are the same nor for
where a path leads. What is left of a path is its walk, and joining paths puts their walks behind
each other.
-/

namespace ApiBindings.Path

open Text

variable {path base : Path}

-----------------------------------------------------------------------------------------
-- Pieces
-----------------------------------------------------------------------------------------

theorem pieces_ne_nil (path : Path) : path.pieces ≠ [] := by
  simp [pieces, cut_ne_nil]

/-- A text that ends in a slash and then has another text behind it is cut at that slash. -/
theorem pieces_append_slash (front back : String)
    : Path.pieces { text := front ++ "/" ++ back }
      = Path.pieces { text := front } ++ Path.pieces { text := back } := by
  have whole
      : (front ++ "/" ++ back).toList = front.toList ++ '/' :: back.toList := by
    simp [String.toList_append]
  rw [pieces, pieces, pieces, whole, cut_append_of_cut (by rfl), List.map_append]

theorem pieces_of_solid {name : String} (solid : '/' ∉ name.toList)
    : Path.pieces { text := name } = [name] := by
  have one : cut (· == '/') name.toList = [name.toList] := by
    refine cut_of_solid fun c member => beq_eq_false_iff_ne.mpr ?_
    rintro rfl
    exact solid member
  simp [pieces, one]

theorem slash_not_mem_of_mem_pieces {piece : String} (member : piece ∈ path.pieces)
    : '/' ∉ piece.toList := by
  obtain ⟨cs, among, rfl⟩ := List.mem_map.mp member
  rw [String.toList_ofList]
  intro inside
  exact Bool.false_ne_true ((keeps_of_mem_cut among '/' inside).symm.trans rfl)

theorem exists_ends_of_getLast? (ends : path.text.toList.getLast? = some '/')
    : ∃ front, path.text = front ++ "/" := by
  obtain ⟨front, whole⟩ := List.getLast?_eq_some_iff.mp ends
  refine ⟨String.ofList front, String.toList_inj.mp ?_⟩
  rw [whole, String.toList_append, String.toList_ofList]
  rfl

/-- A path that starts with a slash has an empty first piece, and so has the empty path. -/
theorem head?_pieces_eq_empty_iff
    : path.pieces.head? = some "" ↔ path.isAbsolute = true ∨ path.text = "" := by
  rw [pieces, isAbsolute, List.head?_map]
  cases shape : path.text.toList with
  | nil => simp [cut, String.toList_eq_nil_iff.mp shape]
  | cons c cs =>
      have nonempty : path.text ≠ "" := fun empty => by simp [empty] at shape
      by_cases slash : c = '/'
      · subst slash
        simp [cut_cons_of_cut]
      · obtain ⟨piece, rest, -, whole⟩ :=
          @cut_cons_of_not_cut _ (· == '/') (beq_eq_false_iff_ne.mpr slash) cs
        rw [whole]
        simp [nonempty, slash]

-----------------------------------------------------------------------------------------
-- Walks
-----------------------------------------------------------------------------------------

/-- The pieces of a path that lead somewhere. -/
def walk (path : Path) : List String :=
  path.pieces.filter fun piece => !isIdle piece

theorem walk_append_slash (front back : String)
    : Path.walk { text := front ++ "/" ++ back }
      = Path.walk { text := front } ++ Path.walk { text := back } := by
  rw [walk, pieces_append_slash, List.filter_append]
  rfl

/-- The second path is walked behind the first one. -/
theorem walk_join (relative : path.isAbsolute = false)
    : (base.join path).walk = base.walk ++ path.walk := by
  obtain ⟨text⟩ := base
  unfold join
  rw [relative, Bool.false_or]
  split_ifs with empty slash
  · obtain rfl : text = "" := eq_of_beq empty
    rfl
  · obtain ⟨front, rfl⟩ := exists_ends_of_getLast? slash
    have alone := walk_append_slash front ""
    rw [String.append_empty] at alone
    rw [walk_append_slash, alone]
    simp [walk, pieces, cut, isIdle]
  · exact walk_append_slash text path.text

theorem isAbsolute_join (relative : path.isAbsolute = false)
    : (base.join path).isAbsolute = base.isAbsolute := by
  obtain ⟨text⟩ := base
  unfold join
  rw [relative, Bool.false_or]
  split_ifs with empty slash
  · obtain rfl : text = "" := eq_of_beq empty
    exact relative
  all_goals
    obtain ⟨c, cs, shape⟩ : ∃ c cs, text.toList = c :: cs :=
      List.exists_cons_of_ne_nil fun none =>
        empty (by simp [isEmpty, String.toList_eq_nil_iff.mp none])
    simp [isAbsolute, String.toList_append, shape]

/-- How a path starts that does not start with a name. -/
def lead (path : Path) : List String :=
  if path.isAbsolute then ["/"]
  else if path.pieces.head? = some "." then ["."]
  else []

/-- The parts of a path are its walk behind its start. -/
theorem parts_eq (path : Path) : path.parts = path.lead ++ path.walk := by
  obtain ⟨first, rest, shape⟩ := List.exists_cons_of_ne_nil path.pieces_ne_nil
  have inner
      : (rest.filter fun piece => decide (piece ≠ "" ∧ piece ≠ "."))
        = rest.filter fun piece => !isIdle piece := by
    refine List.filter_congr fun piece _ => ?_
    rw [Bool.eq_iff_iff]
    simp [isIdle]
  have absolute := @head?_pieces_eq_empty_iff path
  unfold parts lead walk
  rw [shape] at absolute ⊢
  simp only [List.drop_succ_cons, List.drop_zero, List.head?_cons, inner, Option.some.injEq]
    at absolute ⊢
  by_cases empty : first = ""
  · subst empty
    simp [isIdle]
  · have relative : path.isAbsolute = false := by
      cases isAbsolute : path.isAbsolute with
      | true => exact absurd (absolute.mpr (.inl isAbsolute)) empty
      | false => rfl
    by_cases dot : first = "."
    · simp [dot, relative, isIdle]
    · simp [empty, dot, relative, isIdle]

/-- Only the empty path has no parts. -/
theorem text_of_parts_eq_nil (none : path.parts = []) : path.text = "" := by
  obtain ⟨first, rest, shape⟩ := List.exists_cons_of_ne_nil path.pieces_ne_nil
  have absolute := @head?_pieces_eq_empty_iff path
  rw [parts_eq, List.append_eq_nil_iff, lead, walk, shape] at none
  rw [shape] at absolute
  obtain ⟨leadless, walkless⟩ := none
  have idle : isIdle first = true := by
    simpa using List.filter_eq_nil_iff.mp walkless first List.mem_cons_self
  cases isAbsolute : path.isAbsolute with
  | true => simp [isAbsolute] at leadless
  | false =>
      rcases Bool.or_eq_true_iff.mp idle with empty | dot
      · rw [eq_of_beq empty, isAbsolute] at absolute
        simpa using absolute
      · rw [eq_of_beq dot] at leadless
        simp [isAbsolute] at leadless

theorem same_iff {a b : Path} : a.same b = true ↔ a.parts = b.parts := by
  simp [same]

/-- A path is the same as the empty one only if it is empty. -/
theorem isEmpty_of_same {a b : Path} (same : a.same b = true) (empty : b.isEmpty = true)
    : a.isEmpty = true := by
  obtain ⟨text⟩ := b
  obtain rfl : text = "" := eq_of_beq empty
  have none : a.parts = [] := same_iff.mp same
  exact beq_iff_eq.mpr (text_of_parts_eq_nil none)

-----------------------------------------------------------------------------------------
-- Paths that end in a name
-----------------------------------------------------------------------------------------

/-- Whether a text names an entry of a directory. As a piece of a path it leads there. -/
def IsName (text : String) : Prop :=
  isIdle text = false ∧ text ≠ ".." ∧ '/' ∉ text.toList

instance : DecidablePred IsName := fun _ => inferInstanceAs (Decidable (_ ∧ _ ∧ _))

/-- A path that leads to an entry of a directory, so that a file can be there. -/
def IsNamed (path : Path) : Prop :=
  ∃ front name, path.pieces = front ++ [name] ∧ IsName name

theorem IsName.ne_empty {name : String} (proper : IsName name) : name ≠ "" := by
  rintro rfl
  exact Bool.false_ne_true (proper.1.symm.trans rfl)

theorem IsName.ne_dot {name : String} (proper : IsName name) : name ≠ "." := by
  rintro rfl
  exact Bool.false_ne_true (proper.1.symm.trans rfl)

/-- The steps of a path that lead somewhere are its walk. -/
theorem filter_steps (path : Path) : (path.steps.filter fun step => step ≠ ".") = path.walk := by
  unfold steps walk
  rw [List.filter_append, List.filter_filter]
  have last
      : ((if path.text.toList.getLast? = some '/' then ["."] else []).filter
          fun step => decide (step ≠ "."))
        = [] := by
    split_ifs <;> rfl
  rw [last, List.append_nil]
  refine List.filter_congr fun piece _ => ?_
  rw [Bool.eq_iff_iff]
  simp [isIdle, and_comm]

theorem ne_empty_of_mem_steps {step : String} (member : step ∈ path.steps) : step ≠ "" := by
  rcases List.mem_append.mp member with piece | last
  · simpa using (List.mem_filter.mp piece).2
  · split_ifs at last
    · rintro rfl
      simp at last
    · cases last

theorem IsNamed.exists_steps (named : path.IsNamed)
    : ∃ front name,
        path.steps = front ++ [name]
        ∧ path.walk = (front.filter fun step => step ≠ ".") ++ [name]
        ∧ IsName name := by
  obtain ⟨front, name, shape, proper⟩ := named
  have solid : ¬ path.text.toList.getLast? = some '/' := fun ends => by
    obtain ⟨before, whole⟩ := exists_ends_of_getLast? ends
    have pieces := pieces_append_slash before ""
    rw [String.append_empty, ← whole] at pieces
    obtain ⟨-, last⟩ := List.append_inj' (shape.symm.trans pieces) rfl
    exact proper.ne_empty (List.singleton_inj.mp last)
  have steps
      : path.steps = (front.filter fun piece => decide (piece ≠ "")) ++ [name] := by
    rw [steps, if_neg solid, shape]
    simp [proper.ne_empty]
  refine ⟨_, name, steps, ?_, proper⟩
  rw [← filter_steps, steps, List.filter_append]
  simp [proper.ne_dot]

/-- Behind another path, a path that ends in a name does so too. -/
theorem IsNamed.join (named : path.IsNamed) (base : Path) : (base.join path).IsNamed := by
  obtain ⟨front, name, shape, proper⟩ := named
  unfold Path.join
  split_ifs with alone slash
  · exact ⟨front, name, shape, proper⟩
  · obtain ⟨before, whole⟩ := exists_ends_of_getLast? slash
    refine ⟨Path.pieces { text := before } ++ front, name, ?_, proper⟩
    rw [whole, pieces_append_slash, List.append_assoc, ← shape]
  · refine ⟨base.pieces ++ front, name, ?_, proper⟩
    rw [pieces_append_slash, List.append_assoc, ← shape]

theorem IsName.isNamed {name : String} (proper : IsName name) : Path.IsNamed { text := name } :=
  ⟨[], name, pieces_of_solid proper.2.2, proper⟩

end ApiBindings.Path
