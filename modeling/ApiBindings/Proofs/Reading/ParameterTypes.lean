import ApiBindings.Proofs.Text.Nesting
import ApiBindings.Proofs.Text.Search

/-! The types that parameters of headers are read with.
If the brackets between the parentheses of a prototype are nested, no bracket is open behind the
type of a parameter, and the commas of the type stand inside of its brackets.
-/

namespace ApiBindings.Header

open ApiBindings.Text

variable {text before after inner name : List Char} {depth : Nat}

-----------------------------------------------------------------------------------------
-- Pointers to functions
-----------------------------------------------------------------------------------------

/-- A pointer in parentheses has no other brackets. -/
theorem exists_pointer (reads : functionPointer? text = some (name, after))
    : ∃ inner,
        text = '(' :: (inner ++ ')' :: after) ∧ ∀ c ∈ inner, c ∉ "()[]".toList := by
  simp only [functionPointer?, Declarator.starredName?, Option.bind_eq_bind,
    Option.bind_eq_some_iff] at reads
  obtain ⟨opened, opens, starred, star, ⟨name, rest⟩, isName, behind, closes, same⟩ := reads
  cases same
  have split (cs : List Char)
      : ∃ gap, gap ++ trimStart cs = cs ∧ ∀ c ∈ gap, c ∉ "()[]".toList :=
    ⟨cs.takeWhile isBlank, List.takeWhile_append_dropWhile, fun c member =>
      not_bracket_of_isBlank (List.mem_takeWhile_imp member)⟩
  obtain ⟨first, shape, plain⟩ := split opened
  obtain ⟨second, shape', plain'⟩ := split starred
  obtain ⟨third, shape'', plain''⟩ := split rest
  obtain ⟨whole, word⟩ := eq_append_of_identifier? isName
  refine ⟨first ++ '*' :: (second ++ (name ++ third)), ?_, ?_⟩
  · rw [eq_append_of_strip? opens, ← shape, eq_append_of_strip? star, ← shape', whole, ← shape'',
      eq_append_of_strip? closes]
    simp
  · have named : ∀ c ∈ name, c ∉ "()[]".toList := fun c member =>
      not_bracket_of_isWordChar (word c member)
    simp only [List.forall_mem_append, List.forall_mem_cons]
    exact ⟨plain, by decide, plain', named, plain''⟩

section

variable (plain : ∀ c ∈ inner, c ∉ "()[]".toList)

include plain

theorem depthAfter_pointer : depthAfter depth ('(' :: (inner ++ [')'])) = depth := by
  have opened : depthBehind depth '(' = depth + 1 := rfl
  rw [depthAfter, List.foldl_cons, opened]
  change depthAfter (depth + 1) (inner ++ [')']) = depth
  rw [depthAfter_append, depthAfter_of_plain plain]
  rfl

theorem isUncut_pointer : IsUncut ',' depth ('(' :: (inner ++ [')'])) := by
  refine isUncut_cons_iff.mpr ⟨by simp, isUncut_append_iff.mpr ⟨?_, ?_⟩⟩
  · exact isUncut_of_plain plain (Nat.succ_ne_zero depth)
  · exact isUncut_of_not_mem (by decide)

/-- The name of a pointer does not matter to the brackets. -/
theorem isItem_pointer (uncut : IsUncut ',' 0 (before ++ '(' :: (inner ++ ')' :: after)))
    (closed : depthAfter 0 (before ++ '(' :: (inner ++ ')' :: after)) = 0)
    : IsItem (collapse (before ++ "(*)".toList ++ after)) := by
  have star : ∀ c ∈ ['*'], c ∉ "()[]".toList := by decide
  have whole : '(' :: (inner ++ ')' :: after) = '(' :: (inner ++ [')']) ++ after := by simp
  have unnamed : "(*)".toList = '(' :: (['*'] ++ [')']) := rfl
  rw [whole, isUncut_append_iff, isUncut_append_iff, depthAfter_pointer plain] at uncut
  rw [whole, depthAfter_append, depthAfter_append, depthAfter_pointer plain] at closed
  obtain ⟨front, -, back⟩ := uncut
  rw [List.append_assoc, unnamed]
  refine .collapse ?_ ?_ ⟨'*', by simp, by decide⟩
  · rw [isUncut_append_iff, isUncut_append_iff, depthAfter_pointer star]
    exact ⟨front, isUncut_pointer star, back⟩
  · rw [depthAfter_append, depthAfter_append, depthAfter_pointer star, closed]

end

-----------------------------------------------------------------------------------------
-- Parameters
-----------------------------------------------------------------------------------------

theorem not_bracket_of_mem_stars {arrays : Nat}
    : ∀ c ∈ (List.replicate arrays " *".toList).flatten, c ∉ "()[]".toList ∧ c ≠ ',' := by
  intro c member
  obtain ⟨star, among, inside⟩ := List.mem_flatten.mp member
  rw [List.eq_of_mem_replicate among] at inside
  have each : ∀ c ∈ " *".toList, c ∉ "()[]".toList ∧ c ≠ ',' := by decide
  exact each c inside

/-- What is a type has a word, and trimming leaves it there. -/
theorem exists_word_of_isType (isType : Header.isType before = true)
    : ∃ c ∈ trim before, isBlank c = false := by
  by_contra none
  have blank : ∀ c ∈ trim before, isBlank c = true := by simpa using none
  have all : before.all isBlank = true := by
    obtain ⟨front, back, whole, blankFront, blankBack⟩ := exists_trim before
    rw [whole, List.all_eq_true]
    exact List.forall_mem_append.mpr ⟨List.forall_mem_append.mpr ⟨blankFront, blank⟩, blankBack⟩
  rw [Header.isType, words_eq_nil_iff.mpr all] at isType
  cases isType

/-- The type in front of a name is an item. -/
theorem isItem_base {arrays : Nat} (nested : IsNested before) (uncut : IsUncut ',' 0 before)
    (isType : Header.isType before = true)
    : IsItem (collapse (trim before ++ (List.replicate arrays " *".toList).flatten)) := by
  have plain : ∀ c ∈ (List.replicate arrays " *".toList).flatten, c ∉ "()[]".toList :=
    fun c member => (not_bracket_of_mem_stars c member).1
  refine .collapse (isUncut_append_iff.mpr ⟨uncut.trim, isUncut_of_not_mem fun comma => ?_⟩) ?_ ?_
  · exact (not_bracket_of_mem_stars ',' comma).2 rfl
  · rw [depthAfter_append, depthAfter_trim, nested.closed, depthAfter_of_plain plain]
  · obtain ⟨c, member, word⟩ := exists_word_of_isType isType
    exact ⟨c, List.mem_append_left _ member, word⟩

theorem isItem_of_readParam {position : Nat} {param : Param} (nested : IsNested text)
    (uncut : IsUncut ',' 0 text) (reads : readParam position text = .ok param)
    : IsItem param.type.toList := by
  unfold readParam at reads
  split at reads
  · cases reads
  rename_i nonempty
  have whole : IsItem text := ⟨by simpa using nonempty, nested.closed, uncut⟩
  split at reads
  · cases reads
  split at reads
  · rename_i before name after found
    cases reads
    obtain ⟨_, rest, rfl, pointer⟩ := exists_append_of_find? found
    obtain ⟨inner, rfl, plain⟩ := exists_pointer pointer
    rw [Param.declare, String.toList_ofList]
    exact isItem_pointer plain uncut nested.closed
  · dsimp only at reads
    split at reads
    · cases reads
      rwa [Param.declare, String.toList_ofList]
    · rename_i before name arrays found
      split at reads
      · rename_i accepted
        cases reads
        obtain ⟨_, rest, rfl, named⟩ := exists_append_of_find? found
        rw [Param.declare, String.toList_ofList]
        exact isItem_base (nested.of_nameBeforeArrays? named) (isUncut_append_iff.mp uncut).1
          (Bool.and_eq_true_iff.mp accepted).1
      · cases reads
        rwa [Param.declare, String.toList_ofList]

theorem exists_of_mem_readParamsFrom {position : Nat} {texts : List (List Char)}
    {params : List Param} (reads : readParamsFrom position texts = .ok params) {param : Param}
    (member : param ∈ params)
    : ∃ position, ∃ text ∈ texts, readParam position (trim text) = .ok param := by
  induction texts generalizing position params with
  | nil =>
      cases reads
      cases member
  | cons text texts ih =>
      rw [readParamsFrom] at reads
      cases first : readParam position (trim text) with
      | error problem =>
          rw [first] at reads
          cases reads
      | ok own =>
          cases others : readParamsFrom (position + 1) texts with
          | error problem =>
              rw [first, others] at reads
              cases reads
          | ok later =>
              rw [first, others] at reads
              cases reads
              rcases List.mem_cons.mp member with rfl | behind
              · exact ⟨position, text, List.mem_cons_self, first⟩
              · obtain ⟨place, inner, among, read⟩ := ih others behind
                exact ⟨place, inner, List.mem_cons_of_mem text among, read⟩

/-- The types of the parameters of a prototype are items, if the brackets around and in them are
nested.
-/
theorem isItem_of_mem_readParams {params : List Param} (nested : IsNested text)
    (reads : readParams text = .ok params)
    : ∀ param ∈ params, IsItem param.type.toList := by
  intro param member
  unfold readParams at reads
  dsimp only at reads
  split at reads
  · cases reads
    cases member
  · obtain ⟨position, piece, isPiece, read⟩ := exists_of_mem_readParamsFrom reads member
    obtain ⟨nested, uncut⟩ := nested.trim.of_mem_cutOutside isPiece
    exact isItem_of_readParam nested.trim uncut.trim read

end ApiBindings.Header
