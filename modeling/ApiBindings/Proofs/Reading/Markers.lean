import ApiBindings.Header.Pattern
import ApiBindings.Proofs.Text.Search

/-! What markers leave of a text, and markers that are fixed texts.
A pattern without special signs describes itself. Where its text starts a statement and is found
nowhere else in it, taking the marker out takes out just that.
-/

namespace ApiBindings.Header

open ApiBindings.Text

-----------------------------------------------------------------------------------------
-- Markers
-----------------------------------------------------------------------------------------

namespace Marker

theorem mem_foldl_blank {markers : List Marker} {cs : List Char} {c : Char}
    (member : c ∈ markers.foldl (fun text marker => marker.blank text) cs)
    : c = ' ' ∨ c ∈ cs := by
  induction markers generalizing cs with
  | nil => exact .inr member
  | cons marker markers ih => exact (ih member).elim .inl marker.mem_blank

/-- Markers that are not found take nothing out. -/
theorem foldl_blank_eq_self {markers : List Marker} {cs : List Char}
    (missing : ∀ marker ∈ markers, marker.isIn cs = false)
    : markers.foldl (fun text marker => marker.blank text) cs = cs := by
  induction markers with
  | nil => rfl
  | cons marker markers ih =>
      obtain ⟨here, later⟩ := List.forall_mem_cons.mp missing
      rw [List.foldl_cons, marker.blank_eq_self here, ih later]

end Marker

namespace Pattern

-----------------------------------------------------------------------------------------
-- Patterns
-----------------------------------------------------------------------------------------

/-- The pattern for a fixed text. -/
def literal : List Char → Pattern
  | [] => .nothing
  | c :: rest => .both (.char c) (literal rest)

/-- The signs that mean more than themselves in a pattern. -/
def signs : List Char :=
  "(|)^".toList ++ specials

theorem sequence_literal (text : List Char) : sequence (text.map char).reverse = literal text := by
  rw [sequence, List.foldl_reverse]
  induction text with
  | nil => rfl
  | cons c rest ih => exact congrArg (Pattern.both (.char c)) ih

/-- A text without signs is read into its characters, behind what the group has already. -/
theorem read?_literal {text : List Char} (plain : ∀ c ∈ text, c ∉ signs) (group : Group)
    : read? group [] text =
        some { group with parts := (text.map char).reverse ++ group.parts }.pattern := by
  induction text generalizing group with
  | nil => rfl
  | cons c rest ih =>
      obtain ⟨here, later⟩ := List.forall_mem_cons.mp plain
      have other (sign : Char) (member : sign ∈ signs) : c ≠ sign := by
        rintro rfl
        exact here member
      have ordinary : specials.contains c = false := by
        rw [Bool.eq_false_iff]
        exact fun special => here (List.mem_append_right _ (List.contains_iff_mem.mp special))
      rw [read?, if_neg (by simpa using ordinary), ih later]
      · simp [Group.add]
      · exact other '(' (by decide)
      · exact other '|' (by decide)
      · exact other ')' (by decide)
      · exact other '^' (by decide)
      · exact fun _ same _ => other '\\' (by decide) same
      · exact fun _ _ same _ => other '\\' (by decide) same
      · exact fun _ same _ => other '[' (by decide) same

-----------------------------------------------------------------------------------------
-- Matches
-----------------------------------------------------------------------------------------

/-- A fixed text is matched where the text goes on with it. By induction on the fixed text. -/
theorem behind_literal (text : List Char) (place : Place)
    : (literal text).behind place =
        ((strip? text place.rest).map fun rest =>
          { before := text.getLast?.or place.before, rest : Place }).toList := by
  induction text generalizing place with
  | nil => rfl
  | cons c text ih =>
      obtain ⟨before, cs⟩ := place
      rw [literal, behind]
      cases cs with
      | nil => rfl
      | cons d cs =>
          rw [strip?, behind, getLast?_cons_or]
          by_cases same : c = d
          · subst same
            simp [ih]
          · simp [same, Ne.symm same]

theorem end?_literal (text : List Char) (place : Place)
    : (literal text).end? place =
        (strip? text place.rest).map fun rest =>
          { before := text.getLast?.or place.before, rest } := by
  rw [end?, behind_literal]
  cases strip? text place.rest <;> rfl

/-- What a match covers is passed over. -/
theorem blankFrom_skip (pattern : Pattern) (before : Option Char) (covered rest : List Char)
    : pattern.blankFrom before covered.length false (covered ++ rest) =
        pattern.blankFrom (covered.getLast?.or before) 0 false rest := by
  induction covered generalizing before with
  | nil => rfl
  | cons c covered ih =>
      rw [List.cons_append, List.length_cons, blankFrom, ih, getLast?_cons_or]

/-- A fixed text in front of a text that does not have it again is replaced by a blank. -/
theorem blank_literal {text rest : List Char} (nonempty : text ≠ [])
    (once : ∀ front back, text ++ rest = front ++ (text ++ back) → front = [])
    : (literal text).blank (text ++ rest) = ' ' :: rest := by
  have later (before : Option Char)
      : (literal text).blankFrom before 0 false rest = rest := by
    refine blankFrom_eq_self false (find?_eq_none_iff.mpr fun first later shape => ?_)
    rw [end?_literal]
    cases found : strip? text later with
    | none => rfl
    | some back =>
        have again : text ++ rest = text ++ first ++ (text ++ back) := by
          rw [shape, eq_append_of_strip? found, List.append_assoc]
        exact absurd (List.append_eq_nil_iff.mp (once _ _ again)).1 nonempty
  have here (before : Option Char)
      : (literal text).end? { before, rest := text ++ rest } =
          some { before := text.getLast?.or before, rest } := by
    rw [end?_literal, strip?_append]
    rfl
  cases text with
  | nil => exact absurd rfl nonempty
  | cons c covered =>
      have length : (c :: (covered ++ rest)).length - rest.length = covered.length + 1 := by
        simp only [List.length_cons, List.length_append]
        omega
      have match? := here none
      rw [List.cons_append] at match?
      rw [blank, List.cons_append, blankFrom, match?]
      dsimp only
      rw [length]
      dsimp only
      rw [blankFrom_skip, later]

theorem isIn_literal (text rest : List Char) : (literal text).isIn (text ++ rest) = true := by
  have here : (literal text).end? { before := none, rest := text ++ rest } =
      some { before := text.getLast?.or none, rest } := by
    rw [end?_literal, strip?_append]
    rfl
  rw [isIn, find?_of_some here]
  rfl

end Pattern

-----------------------------------------------------------------------------------------
-- Fixed texts as markers
-----------------------------------------------------------------------------------------

namespace Marker

/-- The marker for a fixed text. -/
def literal (text : List Char) : Marker :=
  (Pattern.literal text).marker

/-- A text without signs is read as the marker for itself. -/
theorem parse?_literal {text : String} (plain : ∀ c ∈ text.toList, c ∉ Pattern.signs)
    : parse? text = some (literal text.toList) := by
  rw [parse?, Pattern.parse?, Pattern.read?_literal plain, List.append_nil, Pattern.Group.pattern,
    List.foldl_nil, Pattern.sequence_literal]
  rfl

theorem blank_literal {text rest : List Char} (nonempty : text ≠ [])
    (once : ∀ front back, text ++ rest = front ++ (text ++ back) → front = [])
    : (literal text).blank (text ++ rest) = ' ' :: rest :=
  Pattern.blank_literal nonempty once

theorem isIn_literal (text rest : List Char) : (literal text).isIn (text ++ rest) = true :=
  Pattern.isIn_literal text rest

end Marker

end ApiBindings.Header
