import ApiBindings.Header.Declaration
import ApiBindings.Proofs.Reading.Statements
import ApiBindings.Proofs.Text.Search

/-! Declarators of type definitions.
A declarator is a type of words and stars with the declared name behind it, or a pointer to a
function with the name in parentheses. Its layout does not matter: collapsed, it is a declarator of
the same name.
-/

namespace ApiBindings

namespace Text

/-- A text that does not run into a name behind it does not do so once its blanks are collapsed. By
induction on the text.
-/
theorem EndsBefore.collapseBefore {text : List Char} (ends : EndsBefore text)
    : EndsBefore (collapseBefore text) := by
  induction text using layout_induction with
  | nil => exact ends
  | blank c rest first ih =>
      rw [collapseBefore_cons_of_blank first]
      exact ih ends.tail
  | last c first =>
      rw [collapseBefore_singleton first]
      exact ends
  | gap c d rest first second ih =>
      rw [collapseBefore_cons_cons_of_blank first second]
      have blank : EndsBefore [' '] := by decide
      exact EndsBefore.cons (blank.append (ih ends.tail)) (List.cons_ne_nil _ _) c
  | word c rest first word ih =>
      rw [collapseBefore_cons_of_startsWord first word]
      obtain ⟨d, behind, rfl, next⟩ := word
      exact EndsBefore.cons (ih ends.tail)
        (List.ne_nil_of_mem (mem_collapseBefore_of_mem List.mem_cons_self next)) c

end Text

namespace Header

open ApiBindings.Text

/-- Words, blanks and stars. -/
def IsTypeText (text : List Char) : Prop :=
  ∀ c ∈ text, isWordChar c = true ∨ isBlank c = true ∨ c = '*'

instance (text : List Char) : Decidable (IsTypeText text) :=
  decidableForallMem _ text

/-- A declarator of one name: behind a type, or as a pointer to a function. -/
inductive Declares (name : List Char) : List Char → Prop where
  | plain {base : List Char} (type : IsTypeText base) (ends : EndsBefore base)
    : Declares name (base ++ name)
  | function {returns params : List Char} (type : IsTypeText returns)
    (statement : IsStatement params)
    : Declares name (returns ++ ("(*".toList ++ name ++ [')'] ++ ('(' :: params ++ [')'])))

-----------------------------------------------------------------------------------------
-- Types
-----------------------------------------------------------------------------------------

theorem IsTypeText.not_mem {text : List Char} (type : IsTypeText text) {sign : Char}
    (word : isWordChar sign = false) (blank : isBlank sign = false) (star : sign ≠ '*')
    : sign ∉ text := by
  intro member
  rcases type sign member with is | is | is
  · rw [word] at is
    cases is
  · rw [blank] at is
    cases is
  · exact star is

theorem isTypeText_of_isWordChar {text : List Char} (words : ∀ c ∈ text, isWordChar c = true)
    : IsTypeText text :=
  fun c member => .inl (words c member)

theorem isBlank_of_isIdentifier {name : List Char} (identifier : isIdentifier name = true)
    : ∀ c ∈ name, isBlank c = false :=
  fun c member => not_isBlank_of_isWordChar (isWordChar_of_isIdentifier identifier c member)

theorem startsWord_of_isIdentifier {name : List Char} (identifier : isIdentifier name = true)
    : StartsWord name := by
  cases name with
  | nil => cases identifier
  | cons c rest =>
      exact ⟨c, rest, rfl, isBlank_of_isIdentifier identifier c List.mem_cons_self⟩

theorem IsTypeText.collapseBefore {text : List Char} (type : IsTypeText text)
    : IsTypeText (collapseBefore text) := by
  intro c member
  rcases mem_collapseBefore member with rfl | ⟨inside, -⟩
  · exact .inr (.inl (by decide))
  · exact type c inside

/-- A name starts where no word goes on. -/
theorem isBoundary_of_isIdentifier {name : List Char} (identifier : isIdentifier name = true)
    {before : Option Char} (ends : ∀ c ∈ before, isWordChar c = false) (back : List Char)
    : isBoundary before (name ++ back).head? = true := by
  have outside : before.any isWordChar = false := by
    cases before with
    | none => rfl
    | some c => exact ends c rfl
  cases name with
  | nil => cases identifier
  | cons c rest =>
      have inside := isWordChar_of_isIdentifier identifier c List.mem_cons_self
      simp [isBoundary, outside, inside]

/-- A type with a name behind it does not go on with a bracket. By induction on the type. -/
theorem trimStart_type_append {type name : List Char} (chars : IsTypeText type)
    (identifier : isIdentifier name = true) (back : List Char)
    : ∃ c rest, trimStart (type ++ (name ++ back)) = c :: rest ∧ c ≠ '(' ∧ c ≠ '[' := by
  induction type with
  | nil =>
      obtain ⟨c, rest, rfl, blank⟩ := startsWord_of_isIdentifier identifier
      refine ⟨c, rest ++ back, trimStart_cons blank, ?_⟩
      have absent (sign : Char) (word : isWordChar sign = false) : c ≠ sign := by
        rintro rfl
        exact not_mem_of_isIdentifier identifier word List.mem_cons_self
      exact ⟨absent '(' (by decide), absent '[' (by decide)⟩
  | cons c type ih =>
      cases blank : isBlank c with
      | true =>
          rw [List.cons_append, trimStart_cons_of_blank blank]
          exact ih (List.forall_mem_cons.mp chars).2
      | false =>
          refine ⟨c, type ++ (name ++ back), trimStart_cons blank, ?_⟩
          have absent (sign : Char) (word : isWordChar sign = false)
              (blank : isBlank sign = false) (star : sign ≠ '*')
              : c ≠ sign := by
            rintro rfl
            exact chars.not_mem word blank star List.mem_cons_self
          exact ⟨absent '(' (by decide) (by decide) (by decide),
            absent '[' (by decide) (by decide) (by decide)⟩

/-- A word inside of a type is followed by more of the type or by the name behind it, but by no
bracket.
-/
theorem identifier?_in_type {type name first later : List Char} {c : Char}
    (chars : IsTypeText type) (ends : EndsBefore type) (identifier : isIdentifier name = true)
    (shape : type = first ++ c :: later) (back : List Char)
    : identifier? (c :: later ++ (name ++ back)) = none
      ∨ ∃ word rest d others,
          identifier? (c :: later ++ (name ++ back)) = some (word, rest)
          ∧ trimStart rest = d :: others ∧ d ≠ '(' ∧ d ≠ '[' := by
  cases starts : isNameStart c with
  | false => exact .inl (if_neg (by simp [starts]))
  | true =>
      have inside : EndsBefore (c :: later) := EndsBefore.of_append (shape ▸ ends)
      obtain ⟨left, -⟩ := inside.tail.dropWhile_append (inside.ne_nil starts) (name ++ back)
      have chars : IsTypeText (later.dropWhile isWordChar) := fun d member =>
        chars d (shape ▸ List.mem_append_right first
          (List.mem_cons_of_mem c ((List.dropWhile_sublist isWordChar).subset member)))
      obtain ⟨d, others, behind, apart⟩ := trimStart_type_append chars identifier back
      refine .inr ⟨_, (later ++ (name ++ back)).dropWhile isWordChar, d, others, if_pos starts, ?_,
        apart⟩
      rw [left, behind]

-----------------------------------------------------------------------------------------
-- Layout
-----------------------------------------------------------------------------------------

theorem IsStatement.append {front back : List Char} (first : IsStatement front)
    (second : IsStatement back)
    : IsStatement (front ++ back) :=
  List.forall_mem_append.mpr ⟨first, second⟩

theorem IsTypeText.isStatement {text : List Char} (type : IsTypeText text) : IsStatement text := by
  intro c member cuts
  have apart : ∀ sign ∈ cuttingSigns,
      isWordChar sign = false ∧ isBlank sign = false ∧ sign ≠ '*' := by decide
  obtain ⟨word, blank, star⟩ := apart c cuts
  exact type.not_mem word blank star member

theorem isStatement_of_isIdentifier {name : List Char} (identifier : isIdentifier name = true)
    : IsStatement name :=
  (isTypeText_of_isWordChar (isWordChar_of_isIdentifier identifier)).isStatement

namespace Declares

variable {name text : List Char}

theorem isStatement (declares : Declares name text) (identifier : isIdentifier name = true)
    : IsStatement text := by
  have named := isStatement_of_isIdentifier identifier
  cases declares with
  | plain type ends => exact type.isStatement.append named
  | @function returns params type statement =>
      have star : IsStatement "(*".toList := by decide
      have closing : IsStatement [')'] := by decide
      have inner : IsStatement ('(' :: params ++ [')']) :=
        List.forall_mem_cons.mpr ⟨by decide, statement.append closing⟩
      exact type.isStatement.append (((star.append named).append closing).append inner)

/-- A declarator ends in a name or in a parenthesis. -/
theorem exists_concat (declares : Declares name text) (identifier : isIdentifier name = true)
    : ∃ front last, text = front ++ [last] ∧ isBlank last = false := by
  cases declares with
  | @plain base type ends =>
      obtain ⟨front, last, shape⟩ : ∃ front last, name = front ++ [last] :=
        ⟨_, _, (List.dropLast_concat_getLast (ne_nil_of_isIdentifier identifier)).symm⟩
      refine ⟨base ++ front, last, by rw [shape, List.append_assoc], ?_⟩
      exact isBlank_of_isIdentifier identifier last (shape ▸ List.mem_concat_self)
  | @function returns params type statement =>
      exact ⟨returns ++ ("(*".toList ++ name ++ [')'] ++ ('(' :: params)), ')', by simp, by decide⟩

/-- The layout of a declarator does not matter. -/
theorem collapse (declares : Declares name text) (identifier : isIdentifier name = true)
    : Declares name (Text.collapse text) := by
  have solid := isBlank_of_isIdentifier identifier
  cases declares with
  | plain type ends =>
      rw [collapse_append (startsWord_of_isIdentifier identifier), collapse_eq_self solid]
      exact .plain type.collapseBefore ends.collapseBefore
  | @function returns params type statement =>
      have pointer : ∀ c ∈ "(*".toList ++ name ++ [')'], isBlank c = false :=
        List.forall_mem_append.mpr ⟨List.forall_mem_append.mpr ⟨by decide, solid⟩, by decide⟩
      have closing : StartsWord [')'] := ⟨')', [], rfl, by decide⟩
      have opening : StartsWord ('(' :: params ++ [')']) := ⟨'(', params ++ [')'], rfl, by decide⟩
      have front : StartsWord ("(*".toList ++ name ++ [')'] ++ ('(' :: params ++ [')'])) :=
        ⟨'(', _, rfl, by decide⟩
      obtain ⟨rest, shape⟩ := exists_collapseBefore_cons (c := '(') (by decide) params
      have kept : IsStatement rest := by
        intro c member
        have member : c ∈ collapseBefore ('(' :: params) := shape ▸ List.mem_cons_of_mem _ member
        rcases mem_collapseBefore member with rfl | ⟨inside, -⟩
        · decide
        · exact List.forall_mem_cons.mpr ⟨by decide, statement⟩ c inside
      rw [collapse_append front, collapse_append opening, collapse_append closing,
        collapseBefore_eq_self pointer, shape]
      exact .function type.collapseBefore kept

end Declares

-----------------------------------------------------------------------------------------
-- Names
-----------------------------------------------------------------------------------------

/-- The name behind a star is read up to the parenthesis, whatever blanks are around it. -/
theorem starredName?_of_blanks {between name behind : List Char}
    (identifier : isIdentifier name = true)
    (blank : ∀ c ∈ between ++ behind, isBlank c = true) (back : List Char)
    : Declarator.starredName? ('*' :: (between ++ (name ++ (behind ++ ')' :: back)))) =
        some (name, back) := by
  obtain ⟨front, later⟩ := List.forall_mem_append.mp blank
  have named : trimStart (between ++ (name ++ (behind ++ ')' :: back))) =
      name ++ (behind ++ ')' :: back) :=
    trimStart_blanks_append front ((startsWord_of_isIdentifier identifier).append _)
  have ends : EndsName (behind ++ ')' :: back) := by
    cases behind with
    | nil =>
        intro c first
        cases first
        decide
    | cons d behind =>
        intro c first
        cases first
        exact not_isWordChar_of_isBlank (later _ List.mem_cons_self)
  have closing : trimStart (behind ++ ')' :: back) = ')' :: back :=
    trimStart_blanks_append later ⟨')', back, rfl, by decide⟩
  simp [Declarator.starredName?, strip?, named, identifier?_append identifier ends, closing]

theorem starredName?_append {name : List Char} (identifier : isIdentifier name = true)
    (back : List Char)
    : Declarator.starredName? ('*' :: (name ++ ')' :: back)) = some (name, back) :=
  have blank : ∀ c ∈ [] ++ [], isBlank c = true := List.forall_mem_nil _
  starredName?_of_blanks identifier blank back

theorem functionPointer?_append {name : List Char} (identifier : isIdentifier name = true)
    (back : List Char)
    : functionPointer? ("(*".toList ++ name ++ [')'] ++ back) = some (name, back) := by
  have star (rest : List Char) : trimStart ('*' :: rest) = '*' :: rest := trimStart_cons (by decide)
  simp [functionPointer?, strip?, star, starredName?_append identifier]

theorem functionPointer?_cons_of_ne {c : Char} (other : c ≠ '(') (rest : List Char)
    : functionPointer? (c :: rest) = none := by
  rw [functionPointer?, strip?_cons_of_ne other.symm]
  rfl

theorem findFunctionPointer?_eq_none {text : List Char} (absent : '(' ∉ text)
    : findFunctionPointer? text = none := by
  refine find?_eq_none_iff.mpr fun first later shape => ?_
  cases later with
  | nil => rfl
  | cons c later =>
      refine functionPointer?_cons_of_ne (fun same => absent ?_) later
      rw [shape, same]
      exact List.mem_append_right _ List.mem_cons_self

theorem findFunctionPointer?_append {front name : List Char} (absent : '(' ∉ front)
    (identifier : isIdentifier name = true) (back : List Char)
    : findFunctionPointer? (front ++ ("(*".toList ++ name ++ [')'] ++ back)) =
        some (front, name, back) := by
  rw [findFunctionPointer?, find?_append,
    find?_of_some (functionPointer?_append identifier back)]
  · simp
  · intro first c later shape
    refine functionPointer?_cons_of_ne (fun same => absent ?_) _
    rw [shape, same]
    exact List.mem_append_right _ List.mem_cons_self

/-- A type definition introduces the name of its declarator. -/
theorem Declares.definedName? {name text : List Char} (declares : Declares name text)
    (identifier : isIdentifier name = true)
    : definedName? ("typedef ".toList ++ text) = some (String.ofList name) := by
  cases declares with
  | @plain base type ends =>
      have absent (sign : Char) (word : isWordChar sign = false) (blank : isBlank sign = false)
          (star : sign ≠ '*') (other : sign ∉ "typedef ".toList)
          : sign ∉ "typedef ".toList ++ (base ++ name) := by
        simp only [List.mem_append, not_or]
        exact ⟨other, type.not_mem word blank star, not_mem_of_isIdentifier identifier word⟩
      have whole : ("typedef ".toList ++ (base ++ name)).takeWhile (· != '[') =
          "typedef ".toList ++ (base ++ name) :=
        List.takeWhile_eq_self_iff.mpr
          (bne_of_not_mem (absent '[' (by decide) (by decide) (by decide) (by decide)))
      have front : EndsBefore "typedef ".toList := by decide
      have before := front.append ends
      rw [Header.definedName?, findFunctionPointer?_eq_none
        (absent '(' (by decide) (by decide) (by decide) (by decide)), whole, lastName?,
        ← List.append_assoc, getLast?_identifiers_append before identifier, Option.map_some]
  | @function returns params type statement =>
      have absent : '(' ∉ "typedef ".toList ++ returns := by
        simp only [List.mem_append, not_or]
        exact ⟨by decide, type.not_mem (by decide) (by decide) (by decide)⟩
      rw [Header.definedName?, ← List.append_assoc, findFunctionPointer?_append absent identifier]

end Header

end ApiBindings
