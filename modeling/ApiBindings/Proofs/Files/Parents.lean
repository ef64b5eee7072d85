import ApiBindings.Files.System
import ApiBindings.Proofs.Files.Paths

/-! Parents of paths: the path to the directory that a file is in.
A parent is written out of the parts of a path. It is walked as the path is, up to the last name,
and it is never longer than the path.
-/

namespace ApiBindings

namespace Path

open Text

variable {path : Path}

-----------------------------------------------------------------------------------------
-- Names with slashes between them
-----------------------------------------------------------------------------------------

/-- Names with slashes between them are cut into these names again, by induction on the names. -/
theorem pieces_intercalate {names : List String} (some : names ≠ [])
    (solid : ∀ name ∈ names, '/' ∉ name.toList)
    : Path.pieces { text := "/".intercalate names } = names := by
  induction names with
  | nil => exact absurd rfl some
  | cons first rest ih =>
      obtain ⟨firstSolid, restSolid⟩ := List.forall_mem_cons.mp solid
      cases rest with
      | nil => rw [String.intercalate_singleton, pieces_of_solid firstSolid]
      | cons second later =>
          rw [String.intercalate_cons_cons, pieces_append_slash, pieces_of_solid firstSolid,
            ih (List.cons_ne_nil _ _) restSolid]
          rfl

/-- A text is its pieces with slashes between them, by induction on the text. -/
theorem intercalate_pieces (path : Path) : "/".intercalate path.pieces = path.text := by
  have whole (cs : List Char) : ['/'].intercalate (cut (· == '/') cs) = cs := by
    induction cs with
    | nil => rfl
    | cons c cs ih =>
        by_cases slash : c = '/'
        · subst slash
          rw [cut_cons_of_cut (by rfl)]
          obtain ⟨first, rest, shape⟩ :=
            List.exists_cons_of_ne_nil (cut_ne_nil (· == '/') cs)
          rw [shape] at ih ⊢
          rw [List.intercalate_cons_cons, ih]
          rfl
        · obtain ⟨piece, rest, shape, longer⟩ :=
            @cut_cons_of_not_cut _ (· == '/') (beq_eq_false_iff_ne.mpr slash) cs
          rw [longer]
          rw [shape] at ih
          cases rest with
          | nil => simpa using ih
          | cons next later =>
              rw [List.intercalate_cons_cons] at ih ⊢
              simp [← ih]
  apply String.toList_inj.mp
  rw [String.toList_intercalate, pieces, List.map_map]
  have same : String.toList ∘ String.ofList = id := funext fun _ => String.toList_ofList
  rw [same, List.map_id]
  exact whole path.text.toList

/-- How many bytes names take that have a slash behind each of them. -/
def weight : List String → Nat
  | [] => 0
  | name :: rest => name.utf8ByteSize + 1 + weight rest

theorem weight_cons (name : String) (names : List String)
    : weight (name :: names) = name.utf8ByteSize + 1 + weight names :=
  rfl

theorem weight_append (front back : List String)
    : weight (front ++ back) = weight front + weight back := by
  induction front with
  | nil => exact (Nat.zero_add _).symm
  | cons name rest ih =>
      rw [List.cons_append, weight_cons, weight_cons, ih]
      exact (Nat.add_assoc _ _ _).symm

theorem weight_le_of_sublist {names all : List String} (among : names.Sublist all)
    : weight names ≤ weight all := by
  induction among with
  | slnil => exact Nat.le_refl _
  | cons name _ ih => exact Nat.le_trans ih (Nat.le_add_left _ _)
  | cons_cons name _ ih => exact Nat.add_le_add_left ih _

/-- There is no slash behind the last one of some names. -/
theorem utf8ByteSize_intercalate {names : List String} (some : names ≠ [])
    : ("/".intercalate names).utf8ByteSize + 1 = weight names := by
  induction names with
  | nil => exact absurd rfl some
  | cons first rest ih =>
      cases rest with
      | nil => rw [String.intercalate_singleton, weight_cons]; rfl
      | cons second later =>
          have slash : ("/" : String).utf8ByteSize = 1 := by rfl
          rw [String.intercalate_cons_cons, String.utf8ByteSize_append,
            String.utf8ByteSize_append, slash, weight_cons, ← ih (List.cons_ne_nil _ _)]
          omega

/-- The characters between slashes are those of the names. -/
theorem mem_intercalate_iff {names : List String} {c : Char} (other : c ≠ '/')
    : c ∈ ("/".intercalate names).toList ↔ ∃ name ∈ names, c ∈ name.toList := by
  induction names with
  | nil => simp
  | cons first rest ih =>
      cases rest with
      | nil => simp
      | cons second later =>
          rw [String.intercalate_cons_cons, String.toList_append, String.toList_append,
            List.mem_append, List.mem_append, ih]
          simp [other]

theorem head?_intercalate {first : String} (some : first ≠ "") (rest : List String)
    : ("/".intercalate (first :: rest)).toList.head? = first.toList.head? := by
  obtain ⟨c, cs, shape⟩ : ∃ c cs, first.toList = c :: cs :=
    List.exists_cons_of_ne_nil fun none => some (String.toList_eq_nil_iff.mp none)
  cases rest with
  | nil => rw [String.intercalate_singleton]
  | cons second later =>
      rw [String.intercalate_cons_cons, String.toList_append, String.toList_append, shape]
      rfl

-----------------------------------------------------------------------------------------
-- The parent of a path
-----------------------------------------------------------------------------------------

theorem lead_of_relative (relative : path.isAbsolute = false)
    : path.lead = [] ∨ path.lead = ["."] ∧ path.pieces.head? = some "." := by
  rw [lead, relative, if_neg Bool.false_ne_true]
  split_ifs with dot
  · exact .inr ⟨rfl, dot⟩
  · exact .inl rfl

theorem solid_of_relative (relative : path.isAbsolute = false) {name : String}
    (member : name ∈ path.lead ++ path.walk.dropLast)
    : '/' ∉ name.toList ∧ name ≠ "" := by
  rcases List.mem_append.mp member with inLead | inWalk
  · rcases lead_of_relative relative with none | ⟨dot, -⟩
    · rw [none] at inLead
      cases inLead
    · rw [dot] at inLead
      obtain rfl := List.mem_singleton.mp inLead
      exact ⟨by decide, by decide⟩
  · obtain ⟨piece, proper⟩ := List.mem_filter.mp (List.dropLast_subset _ inWalk)
    refine ⟨slash_not_mem_of_mem_pieces piece, ?_⟩
    rintro rfl
    exact Bool.false_ne_true proper

/-- The parent is written out of all parts but the last one. -/
theorem text_parent (named : path.IsNamed)
    : path.parent.text = "/".intercalate (path.lead ++ path.walk.dropLast) := by
  obtain ⟨front, name, -, walk, -⟩ := named.exists_steps
  rw [parent, parts_eq, List.dropLast_append_of_ne_nil (by simp [walk])]

/-- The parent of an absolute path has a slash too many at its start. -/
theorem pieces_parent_of_isAbsolute (named : path.IsNamed) (absolute : path.isAbsolute = true)
    : path.parent.pieces = "" :: "" :: path.walk.dropLast := by
  have solid : ∀ name ∈ path.walk.dropLast, '/' ∉ name.toList := fun _ member =>
    slash_not_mem_of_mem_pieces (List.mem_filter.mp (List.dropLast_subset _ member)).1
  have text := text_parent named
  rw [lead, if_pos absolute, List.singleton_append] at text
  rw [pieces, text]
  cases shape : path.walk.dropLast with
  | nil => rfl
  | cons first rest =>
      rw [shape] at solid
      rw [String.intercalate_cons_cons]
      exact (pieces_append_slash "/" _).trans
        (congrArg (["", ""] ++ ·) (pieces_intercalate (List.cons_ne_nil _ _) solid))

theorem pieces_parent_of_relative (named : path.IsNamed) (relative : path.isAbsolute = false)
    (some : path.lead ++ path.walk.dropLast ≠ [])
    : path.parent.pieces = path.lead ++ path.walk.dropLast := by
  rw [pieces, text_parent named]
  exact pieces_intercalate some fun name member => (solid_of_relative relative member).1

theorem filter_dropLast_walk (path : Path)
    : (path.walk.dropLast.filter fun piece => !isIdle piece) = path.walk.dropLast := by
  refine List.filter_eq_self.mpr fun piece member => ?_
  exact (List.mem_filter.mp (List.dropLast_subset _ member)).2

theorem walk_parent (named : path.IsNamed) : path.parent.walk = path.walk.dropLast := by
  unfold walk
  cases absolute : path.isAbsolute with
  | true =>
      rw [pieces_parent_of_isAbsolute named absolute]
      exact filter_dropLast_walk path
  | false =>
      by_cases none : path.lead ++ path.walk.dropLast = []
      · rw [pieces, text_parent named, none]
        exact (List.append_eq_nil_iff.mp none).2.symm
      · rw [pieces_parent_of_relative named absolute none, List.filter_append]
        rcases lead_of_relative absolute with lead | ⟨lead, -⟩ <;> rw [lead]
        all_goals exact filter_dropLast_walk path

theorem isAbsolute_parent (named : path.IsNamed) : path.parent.isAbsolute = path.isAbsolute := by
  rw [isAbsolute, text_parent named]
  cases absolute : path.isAbsolute with
  | true =>
      rw [lead, if_pos absolute, List.singleton_append, head?_intercalate (by decide)]
      rfl
  | false =>
      cases shape : path.lead ++ path.walk.dropLast with
      | nil => rfl
      | cons first rest =>
          obtain ⟨solid, some⟩ := solid_of_relative absolute (shape ▸ List.mem_cons_self)
          rw [head?_intercalate some]
          refine beq_eq_false_iff_ne.mpr fun slash => solid ?_
          exact List.mem_of_head? slash

-----------------------------------------------------------------------------------------
-- Limits
-----------------------------------------------------------------------------------------

theorem weight_pieces (path : Path) : weight path.pieces = path.text.utf8ByteSize + 1 := by
  rw [← utf8ByteSize_intercalate path.pieces_ne_nil, intercalate_pieces]

/-- All parts of a relative path but the last one are pieces of it. -/
theorem sublist_of_relative (relative : path.isAbsolute = false)
    : (path.lead ++ path.walk.dropLast).Sublist path.pieces := by
  have walk : path.walk.dropLast.Sublist path.walk := List.dropLast_sublist _
  rcases lead_of_relative relative with lead | ⟨lead, first⟩
  · rw [lead]
    exact walk.trans List.filter_sublist
  · obtain ⟨rest, shape⟩ := List.head?_eq_some_iff.mp first
    rw [lead, shape]
    refine (walk.trans ?_).cons_cons "."
    rw [Path.walk, shape]
    exact (List.filter_sublist : (rest.filter fun piece => !isIdle piece).Sublist rest)

/-- The names of an absolute path weigh no more than the path. -/
theorem weight_walk_le (absolute : path.isAbsolute = true)
    : weight path.walk ≤ path.text.utf8ByteSize := by
  obtain ⟨rest, shape⟩ := List.head?_eq_some_iff.mp (head?_pieces_eq_empty_iff.mpr (.inl absolute))
  have whole := weight_pieces path
  have among
      : weight (rest.filter fun piece => !isIdle piece) ≤ weight rest :=
    weight_le_of_sublist List.filter_sublist
  rw [shape, weight_cons] at whole
  rw [walk, shape, List.filter_cons_of_neg (by decide)]
  have empty : ("" : String).utf8ByteSize = 0 := by rfl
  omega

/-- A parent is not longer than the path. -/
theorem size_parent_le (named : path.IsNamed)
    : path.parent.text.utf8ByteSize ≤ path.text.utf8ByteSize := by
  rw [text_parent named]
  cases absolute : path.isAbsolute with
  | true =>
      -- The slash at the start counts twice in the parent, but the last name is gone.
      obtain ⟨front, name, -, walk, proper⟩ := named.exists_steps
      have whole := weight_walk_le absolute
      have size := utf8ByteSize_intercalate (List.cons_ne_nil "/" path.walk.dropLast)
      have last : name.utf8ByteSize ≠ 0 := fun none =>
        proper.ne_empty (String.utf8ByteSize_eq_zero_iff.mp none)
      have slash : ("/" : String).utf8ByteSize = 1 := by rfl
      rw [lead, if_pos absolute, List.singleton_append]
      rw [weight_cons] at size
      rw [walk, List.dropLast_concat] at size ⊢
      rw [walk, weight_append, weight_cons] at whole
      omega
  | false =>
      have whole := weight_pieces path
      have among := weight_le_of_sublist (sublist_of_relative absolute)
      by_cases none : path.lead ++ path.walk.dropLast = []
      · rw [none]
        exact Nat.zero_le _
      · have size := utf8ByteSize_intercalate none
        omega

theorem mem_text_of_mem_parent {c : Char} (named : path.IsNamed) (other : c ≠ '/')
    (member : c ∈ path.parent.text.toList)
    : c ∈ path.text.toList := by
  rw [text_parent named, mem_intercalate_iff other] at member
  rw [← intercalate_pieces path, mem_intercalate_iff other]
  obtain ⟨name, among, inside⟩ := member
  refine ⟨name, ?_, inside⟩
  rcases List.mem_append.mp among with inLead | inWalk
  · rw [lead] at inLead
    split_ifs at inLead with absolute dot
    · obtain rfl := List.mem_singleton.mp inLead
      exact absurd (List.mem_singleton.mp inside) other
    · exact List.mem_of_head? (List.mem_singleton.mp inLead ▸ dot)
    · cases inLead
  · exact (List.mem_filter.mp (List.dropLast_subset _ inWalk)).1

/-- A path is allowed wherever one is that is as long and has a zero character if it has. -/
theorem allowsPath_of_le {limits : Limits} {other : Path}
    (size : path.text.utf8ByteSize ≤ other.text.utf8ByteSize)
    (zero : '\x00' ∈ path.text.toList → '\x00' ∈ other.text.toList)
    (allowed : limits.allowsPath other = true)
    : limits.allowsPath path = true := by
  obtain ⟨zero', size'⟩ := Bool.and_eq_true_iff.mp allowed
  refine Bool.and_eq_true_iff.mpr ⟨?_, ?_⟩
  · refine Bool.or_eq_true_iff.mpr ((Bool.or_eq_true_iff.mp zero').imp_right fun absent => ?_)
    simp only [Bool.not_eq_true', List.contains_eq_mem, decide_eq_false_iff_not] at absent ⊢
    exact fun inside => absent (zero inside)
  · cases most : limits.path with
    | none => rfl
    | some most' =>
        rw [most] at size'
        exact decide_eq_true (Nat.le_trans size (of_decide_eq_true size'))

/-- The parent of a path is allowed wherever the path itself is. -/
theorem allowsPath_parent {limits : Limits} (named : path.IsNamed)
    (allowed : limits.allowsPath path = true)
    : limits.allowsPath path.parent = true :=
  allowsPath_of_le (size_parent_le named) (mem_text_of_mem_parent named (by decide)) allowed

/-- A path is allowed wherever it is so with another one behind it. -/
theorem allowsPath_of_join {limits : Limits} {base : Path} (relative : path.isAbsolute = false)
    (allowed : limits.allowsPath (base.join path) = true)
    : limits.allowsPath base = true := by
  obtain ⟨back, text⟩ : ∃ back, (base.join path).text = base.text ++ back := by
    unfold join
    rw [relative, Bool.false_or]
    split_ifs with empty
    · obtain ⟨text⟩ := base
      obtain rfl : text = "" := eq_of_beq empty
      exact ⟨path.text, String.empty_append.symm⟩
    · exact ⟨path.text, rfl⟩
    · exact ⟨"/" ++ path.text, String.append_assoc⟩
  refine allowsPath_of_le ?_ (fun inside => ?_) allowed
  · rw [text, String.utf8ByteSize_append]
    exact Nat.le_add_right _ _
  · rw [text, String.toList_append]
    exact List.mem_append_left _ inside

end Path

end ApiBindings
