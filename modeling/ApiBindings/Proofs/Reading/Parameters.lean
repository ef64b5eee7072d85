import ApiBindings.Proofs.Reading.Commands

/-! Which parameters of a prototype read back as they are written.
A type that is made only of words that can qualify another one is none to the reader, though
`unsigned` and `signed` are types by themselves. The name behind such a type is taken for a part of
it, and the parameter for one without a name. All else of a marked prototype reads back.
-/

namespace ApiBindings

namespace CType

open ApiBindings.Text

-----------------------------------------------------------------------------------------
-- The layout of types
-----------------------------------------------------------------------------------------

/-- A text with blanks around each star. -/
def spaced (text : List Char) : List Char :=
  text.flatMap fun c => if c = '*' then [' ', '*', ' '] else [c]

theorem spaced_cons_of_ne {c : Char} (other : c ≠ '*') (text : List Char)
    : spaced (c :: text) = c :: spaced text := by
  simp [spaced, other]

theorem spaced_star (text : List Char)
    : spaced ('*' :: text) = ' ' :: '*' :: ' ' :: spaced text := by
  simp [spaced]

theorem words_spaced_star (text : List Char)
    : words (spaced ('*' :: text)) = ['*'] :: words (spaced text) := by
  have blank : isBlank ' ' = true := by decide
  rw [spaced_star, words_cons_of_blank blank, words_cons_cons_of_blank (by decide) blank,
    words_cons_of_blank blank]

theorem ne_star_of_isBlank {c : Char} (blank : isBlank c = true) : c ≠ '*' := by
  rintro rfl
  cases blank

/-- Stars are told apart from words in whatever layout. By induction on the layout of the text. -/
theorem words_spaced_collapseBefore (text : List Char)
    : words (spaced (collapseBefore text)) = words (spaced text) := by
  have space : isBlank ' ' = true := by decide
  induction text using layout_induction with
  | nil => rfl
  | blank c rest first ih =>
      rw [collapseBefore_cons_of_blank first, ih, spaced_cons_of_ne (ne_star_of_isBlank first),
        words_cons_of_blank first]
  | last c first => rw [collapseBefore_singleton first]
  | gap c d rest first second ih =>
      have inner : words (spaced (' ' :: collapseBefore (d :: rest))) =
          words (spaced (d :: rest)) := by
        rw [spaced_cons_of_ne (by decide), words_cons_of_blank space, ih]
      rw [collapseBefore_cons_cons_of_blank first second]
      by_cases star : c = '*'
      · rw [star, words_spaced_star, words_spaced_star, inner]
      · rw [spaced_cons_of_ne (by decide), spaced_cons_of_ne (ne_star_of_isBlank second)] at inner
        rw [spaced_cons_of_ne star, spaced_cons_of_ne star, spaced_cons_of_ne (by decide),
          spaced_cons_of_ne (ne_star_of_isBlank second), words_cons_cons_of_blank first space,
          words_cons_cons_of_blank first second, inner]
  | word c rest first word ih =>
      rw [collapseBefore_cons_of_startsWord first word]
      by_cases star : c = '*'
      · rw [star, words_spaced_star, words_spaced_star, ih]
      · obtain ⟨d, others, rfl, next⟩ := word
        obtain ⟨behind, shape⟩ := exists_collapseBefore_cons next others
        rw [shape] at ih ⊢
        rw [spaced_cons_of_ne star, spaced_cons_of_ne star]
        by_cases starNext : d = '*'
        · subst starNext
          rw [spaced_star, spaced_star] at ih ⊢
          rw [words_cons_cons_of_blank first space, words_cons_cons_of_blank first space, ih]
        · rw [spaced_cons_of_ne starNext, spaced_cons_of_ne starNext] at ih ⊢
          obtain ⟨w, ws, left, longer⟩ :=
            words_cons_of_startsWord first ⟨d, spaced behind, rfl, next⟩
          obtain ⟨v, vs, right, longer'⟩ :=
            words_cons_of_startsWord first ⟨d, spaced others, rfl, next⟩
          rw [ih, right] at left
          obtain ⟨rfl, rfl⟩ := List.cons.inj left
          rw [longer, longer']

theorem words_spaced_collapse (text : List Char)
    : words (spaced (collapse text)) = words (spaced text) := by
  induction text using List.reverseRecOn with
  | nil => rfl
  | append_singleton front last ih =>
      cases blank : isBlank last with
      | true =>
          have behind : spaced (front ++ [last]) = spaced front ++ [last] := by
            simp [spaced, ne_star_of_isBlank blank]
          rw [collapse_concat_of_blank blank, ih, behind, words_concat_of_blank blank]
      | false => rw [← collapseBefore_eq_collapse blank, words_spaced_collapseBefore]

/-- The layout of a type does not matter. -/
theorem parse_collapse (text : List Char)
    : parse (String.ofList (collapse text)) = parse (String.ofList text) := by
  have same : wordsOf (String.ofList (collapse text)) = wordsOf (String.ofList text) := by
    rw [wordsOf, wordsOf, String.toList_ofList, String.toList_ofList]
    exact congrArg (List.map String.ofList) (words_spaced_collapse text)
  have parenthesis : (collapse text).contains '(' = text.contains '(' := by
    rw [Bool.eq_iff_iff, List.contains_iff_mem, List.contains_iff_mem]
    constructor
    · intro member
      exact ((mem_collapse member).resolve_left (by decide)).1
    · exact fun member => mem_collapse_of_mem member (by decide)
  rw [parse, parse, same, String.toList_ofList, String.toList_ofList, parenthesis]

end CType

namespace Header

open ApiBindings.Text

-----------------------------------------------------------------------------------------
-- Parameters
-----------------------------------------------------------------------------------------

/-- A parameter is read with its name, with its type, which has one more star for each array length,
and as such a type passes data.
-/
structure Parameter.IsReadAs (param : Parameter) (read : Param) : Prop where
  name : read.name = String.ofList param.name
  type : read.type = String.ofList (collapse param.type ++ stars param.lengths.length)
  passing
    : read.passing = (CType.parse (String.ofList (param.type ++ stars param.lengths.length))).passing

namespace Parameter

variable {param : Parameter}

theorem IsWritten.isReadAs_declared (written : param.IsWritten)
    : param.IsReadAs param.declared where
  name := rfl
  type := rfl
  passing := by
    rw [← CType.parse_collapse, collapse_append_stars written.type.starts, declared, Param.declare]

theorem collapse_prefix_collapseBefore (text : List Char)
    : collapse text <+: collapseBefore text := by
  rw [← trim_collapseBefore, trim, trimStart_collapseBefore, ← List.reverse_suffix, trimEnd,
    List.reverse_reverse]
  exact List.dropWhile_suffix isBlank

/-- The text of a parameter has the name in it, so it is no type of the parameter. -/
theorem IsWritten.text_ne_type (written : param.IsWritten)
    : param.collapsed.text ≠ collapse param.type ++ stars param.lengths.length := by
  intro same
  obtain ⟨gap, shape⟩ := collapse_prefix_collapseBefore param.type
  obtain ⟨c, member⟩ := List.exists_mem_of_ne_nil param.name (ne_nil_of_isIdentifier written.name)
  have word := isWordChar_of_isIdentifier written.name c member
  rw [text, Parameter.collapsed, ← shape, List.append_assoc] at same
  have starred : c ∈ stars param.lengths.length := by
    rw [← List.append_cancel_left same]
    exact List.mem_append_right gap (List.mem_append_left _ member)
  obtain ⟨star, among, inside⟩ := List.mem_flatten.mp starred
  rw [List.eq_of_mem_replicate among] at inside
  have plain : ∀ sign ∈ " *".toList, isWordChar sign = false := by decide
  rw [plain c inside] at word
  cases word

/-- A parameter is read as it is written exactly if its type is one to the reader. -/
theorem IsWritten.isReadAs_iff (written : param.IsWritten)
    (isName : String.ofList param.name ∉ typeWords) (position : Nat)
    : param.IsReadAs (param.readAt position) ↔ isType param.type = true := by
  constructor
  · intro reads
    by_contra none
    have unnamed : param.readAt position =
        .declare ("arg" ++ toString position) (String.ofList param.collapsed.text) := by
      rw [readAt, if_neg fun accepted => none (Bool.and_eq_true_iff.mp accepted).1]
    have type := reads.type
    rw [unnamed] at type
    exact written.text_ne_type (String.ofList_injective type)
  · intro typed
    have proper : param.IsProper := ⟨written.type, typed, written.name, isName, written.lengths⟩
    rw [proper.readAt]
    exact written.isReadAs_declared

end Parameter

/-- What holds of every value and what it is changed to at its position, holds one by one. By
induction on the values.
-/
theorem forall₂_mapIdx {α β : Type} {relation : α → β → Prop} {values : List α}
    {change : Nat → α → β}
    (each : ∀ position, ∀ value ∈ values, relation value (change position value))
    : List.Forall₂ relation values (values.mapIdx change) := by
  induction values generalizing change with
  | nil => exact .nil
  | cons first rest ih =>
      rw [List.mapIdx_cons]
      refine .cons (each 0 first List.mem_cons_self) (ih fun position value member => ?_)
      exact each (position + 1) value (List.mem_cons_of_mem first member)

-----------------------------------------------------------------------------------------
-- Prototypes
-----------------------------------------------------------------------------------------

theorem IsMarked.commands_read {dialect : Dialect} {declaration : List Char} {function : Function}
    (marked : IsMarked dialect.markers declaration function) (written : function.IsWritten)
    {fragment : Fragment} (shape : fragment.text.toList = declaration ++ [';'])
    : (Header.read dialect [fragment]).commands =
        [function.readAs (fragment.role.origin dialect.api) fragment.name] := by
  have commands : Findings.Part.commands.SkipsInterfaces := fun _ _ => rfl
  exact marked.read written shape commands

/-- A header of one marked prototype records one command, without a fault. The command has the name
and the return type of the prototype and as many parameters, and a parameter is read as it is
written exactly if its type is one to the reader.
-/
theorem read_prototype {dialect : Dialect} {declaration : List Char} {function : Function}
    (marked : IsMarked dialect.markers declaration function) (written : function.IsWritten)
    (names : ∀ param ∈ function.params, String.ofList param.name ∉ typeWords)
    {fragment : Fragment} (shape : fragment.text.toList = declaration ++ [';'])
    : ∃ command,
        (read dialect [fragment]).commands = [command]
        ∧ (read dialect [fragment]).enums = []
        ∧ (read dialect [fragment]).types = []
        ∧ (read dialect [fragment]).faults = []
        ∧ command.name = String.ofList function.name
        ∧ command.returns = String.ofList (collapse function.returns)
        ∧ List.Forall₂ (fun param read => param.IsReadAs read ↔ isType param.type = true)
            function.params command.params := by
  have enums : Findings.Part.enums.SkipsInterfaces := fun _ _ => rfl
  have types : Findings.Part.types.SkipsInterfaces := fun _ _ => rfl
  have faults : Findings.Part.faults.SkipsInterfaces := fun _ _ => rfl
  refine ⟨function.readAs (fragment.role.origin dialect.api) fragment.name,
    marked.commands_read written shape, marked.read written shape enums,
    marked.read written shape types, marked.read written shape faults, rfl, rfl, ?_⟩
  exact forall₂_mapIdx fun position param member =>
    (written.params param member).isReadAs_iff (names param member) position

/-- A function with a parameter whose type is one word that can also qualify another one. -/
def resizeImage : Function where
  returns := "vx_status ".toList
  name := "vxResizeImage".toList
  params := [
    { type := "const struct vx_image_t *".toList, name := "image".toList, lengths := [] },
    { type := "unsigned ".toList, name := "size".toList, lengths := [] }
  ]

def resizeImageHeader : Fragment where
  name := "vx.h"
  role := .feature { major := 1, minor := 0 }
  text := "VX_API_ENTRY vx_status VX_API_CALL vxResizeImage("
    ++ "const struct vx_image_t *image, unsigned size);"

def entryMarkers : List Marker :=
  [.literal "VX_API_ENTRY ".toList, .literal "VX_API_CALL ".toList]

theorem resizeImage_isWritten : resizeImage.IsWritten where
  returns := ⟨by decide, ⟨_, _, rfl, by decide⟩, by decide⟩
  name := by decide
  params := by
    refine List.forall_mem_cons.mpr ⟨⟨?_, by decide, by decide⟩,
      List.forall_mem_singleton.mpr ⟨?_, by decide, by decide⟩⟩
    · exact ⟨by decide, ⟨_, _, rfl, by decide⟩, by decide⟩
    · exact ⟨by decide, ⟨_, _, rfl, by decide⟩, by decide⟩

theorem resizeImage_names
    : ∀ param ∈ resizeImage.params, String.ofList param.name ∉ typeWords := by
  decide

theorem resizeImage_isMarked
    : IsMarked entryMarkers resizeImageHeader.text.toList.dropLast resizeImage := by
  -- The signs of a literal, which would be decoded in each of the facts otherwise.
  have text : resizeImageHeader.text.toList = _ :=
    String.toList_append.trans (congrArg₂ (· ++ ·) String.toList_ofList String.toList_ofList)
  rw [text]
  exact {
    statement := by decide +kernel
    plain := by decide +kernel
    found := ⟨_, List.mem_cons_self, by decide +kernel⟩
    leaves := by decide +kernel }

theorem resizeImage_shape
    : resizeImageHeader.text.toList = resizeImageHeader.text.toList.dropLast ++ [';'] := by
  have text : resizeImageHeader.text.toList = _ :=
    String.toList_append.trans (congrArg₂ (· ++ ·) String.toList_ofList String.toList_ofList)
  rw [text]
  decide +kernel

theorem resizeImage_read
    : let found := read { api := .vx, markers := entryMarkers } [resizeImageHeader]
      ∃ command,
        found.commands = [command]
        ∧ found.enums = []
        ∧ found.types = []
        ∧ found.faults = []
        ∧ command.name = "vxResizeImage"
        ∧ command.returns = "vx_status"
        ∧ List.Forall₂ (fun param read => param.IsReadAs read ↔ isType param.type = true)
            resizeImage.params command.params :=
  read_prototype resizeImage_isMarked resizeImage_isWritten resizeImage_names resizeImage_shape

/-- The name behind `unsigned` is taken for a part of the type. -/
theorem unsignedSize_unnamed
    : let found := read { api := .vx, markers := entryMarkers } [resizeImageHeader]
      IsMarked entryMarkers resizeImageHeader.text.toList.dropLast resizeImage
      ∧ resizeImage.IsWritten
      ∧ (∀ param ∈ resizeImage.params, String.ofList param.name ∉ typeWords)
      ∧ ¬∃ command,
          found.commands = [command]
          ∧ List.Forall₂ Parameter.IsReadAs resizeImage.params command.params := by
  refine ⟨resizeImage_isMarked, resizeImage_isWritten, resizeImage_names, ?_⟩
  rintro ⟨command, alone, each⟩
  have marked
      : IsMarked ({ api := .vx, markers := entryMarkers } : Dialect).markers
          resizeImageHeader.text.toList.dropLast resizeImage :=
    resizeImage_isMarked
  cases alone.symm.trans (marked.commands_read resizeImage_isWritten resizeImage_shape)
  cases each with
  | cons _ later =>
      cases later with
      | cons second _ =>
          have size
              : { type := "unsigned ".toList, name := "size".toList, lengths := [] }
                ∈ resizeImage.params :=
            List.mem_cons_of_mem _ List.mem_cons_self
          have type := ((resizeImage_isWritten.params _ size).isReadAs_iff
            (resizeImage_names _ size) 1).mp second
          exact absurd type (by decide)

end Header

end ApiBindings
