import ApiBindings.Proofs.Reading.Declarators
import ApiBindings.Proofs.Text.Names
import ApiBindings.Proofs.Text.Trimming

/-! How enums are written.
An enum has a body between braces and a group, which is the name that it defines or else its tag.
Every item of the body is a name, a name and a value behind a sign of equality, or no enumerator at
all.
-/

namespace ApiBindings.Header

open ApiBindings.Text

-----------------------------------------------------------------------------------------
-- Tags
-----------------------------------------------------------------------------------------

/-- A text starts with an enum that has a tag and a body: the word `enum`, the tag behind a blank or
more, and the brace, which may stand behind blanks.
-/
structure StartsEnum (text tag : List Char) : Prop where
  identifier : isIdentifier tag = true
  shape
    : ∃ gap inner back,
        text = "enum".toList ++ (gap ++ (tag ++ (inner ++ '\x7b' :: back)))
        ∧ gap ≠ []
        ∧ (∀ c ∈ gap, isBlank c = true)
        ∧ ∀ c ∈ inner, isBlank c = true

/-- An enum with a tag starts behind the front of a text, which does not run into it. -/
def TagsEnum (text front tag : List Char) : Prop :=
  ∃ rest, text = front ++ rest ∧ EndsBefore front ∧ StartsEnum rest tag

/-- The tag of the first enum in a text that has one. -/
inductive HasTag (text : List Char) : Option (List Char) → Prop where
  | tagged {front tag : List Char} (tags : TagsEnum text front tag)
    (first : ∀ other name, TagsEnum text other name → front.length ≤ other.length)
    : HasTag text (some tag)
  | tagless (missing : ∀ front tag, ¬TagsEnum text front tag) : HasTag text none

theorem isBoundary_enum (before : Option Char) (rest : List Char)
    : isBoundary before ("enum".toList ++ rest).head? = true
      ↔ ∀ c ∈ before, isWordChar c = false := by
  have word : isWordChar 'e' = true := by decide
  have first : ("enum".toList ++ rest).head? = some 'e' := rfl
  rw [first]
  cases before with
  | none => simp [isBoundary, word]
  | some c => cases inside : isWordChar c <;> simp [isBoundary, word, inside]

theorem exists_blanks (cs : List Char)
    : ∃ blanks, cs = blanks ++ trimStart cs ∧ ∀ c ∈ blanks, isBlank c = true :=
  ⟨cs.takeWhile isBlank, List.takeWhile_append_dropWhile.symm, fun _ => List.mem_takeWhile_imp⟩

theorem endsName_brace {inner : List Char} (blank : ∀ c ∈ inner, isBlank c = true)
    (back : List Char)
    : EndsName (inner ++ '\x7b' :: back) := by
  intro c head
  cases inner with
  | nil =>
      cases head
      decide
  | cons d inner =>
      cases head
      exact not_isWordChar_of_isBlank (blank _ List.mem_cons_self)

/-- What is read at a place is the tag of an enum that starts there. -/
theorem enumTagAt?_eq_some_iff {before : Option Char} {cs tag : List Char}
    : enumTagAt? before cs = some tag
      ↔ (∀ c ∈ before, isWordChar c = false) ∧ StartsEnum cs tag := by
  constructor
  · intro reads
    rw [enumTagAt?] at reads
    split at reads
    · rename_i boundary
      obtain ⟨rest, word, tagged⟩ := Option.bind_eq_some_iff.mp reads
      obtain rfl := eq_append_of_strip? word
      split at tagged
      · rename_i parted
        obtain ⟨⟨name, after⟩, named, braced⟩ := Option.bind_eq_some_iff.mp tagged
        obtain ⟨back, brace, same⟩ := Option.bind_eq_some_iff.mp braced
        cases same
        obtain ⟨shape, identifier, -⟩ := identifier?_eq_some_iff.mp named
        obtain ⟨gap, outer, blank⟩ := exists_blanks rest
        obtain ⟨inner, split, blank'⟩ := exists_blanks after
        refine ⟨(isBoundary_enum before rest).mp boundary, identifier, gap, inner, back, ?_, ?_,
          blank, blank'⟩
        · rw [eq_append_of_strip? brace] at split
          rw [outer, shape, split]
          rfl
        · -- Without a blank the tag would start the rest, whose first sign is one.
          rintro rfl
          obtain ⟨c, later, starts, solid⟩ := (startsWord_of_isIdentifier identifier).append after
          rw [outer, shape, List.nil_append, starts, List.head?_cons, Option.any_some, solid]
            at parted
          cases parted
      · cases tagged
    · cases reads
  · rintro ⟨apart, identifier, gap, inner, back, rfl, nonempty, blank, blank'⟩
    obtain ⟨c, gap, rfl⟩ := List.exists_cons_of_ne_nil nonempty
    have parted : ((c :: gap) ++ (tag ++ (inner ++ '\x7b' :: back))).head?.any isBlank = true :=
      blank c List.mem_cons_self
    have brace : trimStart (inner ++ '\x7b' :: back) = '\x7b' :: back :=
      trimStart_blanks_append blank' ⟨'\x7b', back, rfl, by decide⟩
    rw [enumTagAt?, if_pos ((isBoundary_enum before _).mpr apart), strip?_append]
    simp only [Option.bind_eq_bind, Option.bind_some, if_pos parted,
      trimStart_blanks_append blank ((startsWord_of_isIdentifier identifier).append _),
      identifier?_append identifier (endsName_brace blank' back), brace, strip?]
    rfl

theorem tagsEnum_iff {text front tag : List Char}
    : TagsEnum text front tag
      ↔ ∃ rest, text = front ++ rest ∧ enumTagAt? front.getLast? rest = some tag :=
  exists_congr fun _ => and_congr_right fun _ => enumTagAt?_eq_some_iff.symm

/-- The tag that is read is that of the first enum with one. -/
theorem HasTag.enumTag?_eq {text : List Char} {tag : Option (List Char)} (has : HasTag text tag)
    : enumTag? text = tag.map String.ofList := by
  cases has with
  | @tagged front tag tags first =>
      obtain ⟨rest, rfl, reads⟩ := tagsEnum_iff.mp tags
      have found : find? enumTagAt? none (front ++ rest) = some (front, tag) := by
        refine find?_eq_some_iff.mpr ⟨rest, rfl, by rwa [Option.or_none], ?_⟩
        rintro before c later rfl
        cases earlier : enumTagAt? (before.getLast?.or none) (c :: later ++ rest) with
        | none => rfl
        | some name =>
            rw [Option.or_none] at earlier
            have size := first before name
              (tagsEnum_iff.mpr ⟨_, by rw [List.append_assoc], earlier⟩)
            rw [List.length_append, List.length_cons] at size
            omega
      rw [enumTag?, found]
      rfl
  | tagless missing =>
      have none : find? enumTagAt? none text = none := by
        refine find?_eq_none_iff.mpr fun front rest shape => ?_
        rw [Option.or_none]
        cases reads : enumTagAt? front.getLast? rest with
        | none => rfl
        | some tag => exact absurd (tagsEnum_iff.mpr ⟨rest, shape, reads⟩) (missing front tag)
      rw [enumTag?, none]
      rfl

theorem exists_hasTag (text : List Char) : ∃ tag, HasTag text tag := by
  cases found : find? enumTagAt? none text with
  | none =>
      refine ⟨none, .tagless fun front tag tags => ?_⟩
      obtain ⟨rest, shape, reads⟩ := tagsEnum_iff.mp tags
      have missing := find?_eq_none_iff.mp found front rest shape
      rw [Option.or_none, reads] at missing
      cases missing
  | some read =>
      obtain ⟨front, tag⟩ := read
      obtain ⟨rest, rfl, reads, passed⟩ := find?_eq_some_iff.mp found
      rw [Option.or_none] at reads
      refine ⟨some tag, .tagged (tagsEnum_iff.mpr ⟨rest, rfl, reads⟩) fun other name tags => ?_⟩
      obtain ⟨rest', shape, reads'⟩ := tagsEnum_iff.mp tags
      -- A shorter front would be a place that the search has passed.
      by_contra shorter
      rcases List.append_eq_append_iff.mp shape with ⟨inner, rfl, -⟩ | ⟨inner, rfl, same⟩
      · rw [List.length_append] at shorter
        omega
      · cases inner with
        | nil => simp at shorter
        | cons c later =>
            have missing := passed other c later rfl
            rw [Option.or_none, ← same, reads'] at missing
            cases missing

-----------------------------------------------------------------------------------------
-- Groups
-----------------------------------------------------------------------------------------

/-- A statement with a body between its first opening and its last closing brace, which starts as an
enum or defines a type and has an enum in front of its body.
-/
structure IsEnum (text before body after : List Char) : Prop where
  shape : text = before ++ '\x7b' :: (body ++ '\x7d' :: after)
  opens : '\x7b' ∉ before
  closes : '\x7d' ∉ after
  isEnum : "enum".toList <+: before ∨ "typedef ".toList <+: before ∧ "enum".toList <:+: before

/-- The group of an enum. That of a type definition is the last name behind the body, if there is
one, and any other is the tag.
-/
inductive HasGroup (text before after : List Char) : Option (List Char) → Prop where
  | tagged {tag : Option (List Char)} (starts : "enum".toList <+: before) (has : HasTag text tag)
    : HasGroup text before after tag
  | defined {name : List Char} (starts : "typedef ".toList <+: before)
    (named : HasLastName after (some name))
    : HasGroup text before after (some name)
  | nameless {tag : Option (List Char)} (starts : "typedef ".toList <+: before)
    (unnamed : HasLastName after none) (has : HasTag text tag)
    : HasGroup text before after tag

/-- Every enum has a group, or is known to have none. -/
theorem IsEnum.exists_hasGroup {text before body after : List Char}
    (isEnum : IsEnum text before body after)
    : ∃ group, HasGroup text before after group := by
  obtain ⟨tag, has⟩ := exists_hasTag text
  rcases isEnum.isEnum with starts | ⟨starts, -⟩
  · exact ⟨tag, .tagged starts has⟩
  · have last := hasLastName_identifiers after
    cases found : (identifiers after).getLast? with
    | none => exact ⟨tag, .nameless starts (found ▸ last) has⟩
    | some name => exact ⟨some name, .defined starts (found ▸ last)⟩

theorem HasGroup.ne_nil {text before after group : List Char}
    (has : HasGroup text before after (some group))
    : group ≠ [] := by
  have tagged (tag : HasTag text (some group)) : group ≠ [] := by
    cases tag with
    | tagged tags =>
        obtain ⟨_, -, -, starts⟩ := tags
        exact ne_nil_of_isIdentifier starts.identifier
  cases has with
  | tagged _ tag => exact tagged tag
  | nameless _ _ tag => exact tagged tag
  | defined _ named =>
      cases named with
      | named _ identifier => exact ne_nil_of_isIdentifier identifier

-----------------------------------------------------------------------------------------
-- Items
-----------------------------------------------------------------------------------------

/-- An item of an enum's body. -/
inductive Entry where
  /-- A name and the text of its value, as in `N = e`. -/
  | assigned (name value : List Char)
  /-- A name alone. -/
  | counted (name : List Char)
  /-- A text in which no name stands alone or in front of a sign of equality. -/
  | unnamed (text : List Char)

/-- How an item is written. Blanks around its parts do not matter. -/
inductive Entry.IsWritten : Entry → List Char → Prop where
  | assigned {name value left right : List Char} (identifier : isIdentifier name = true)
    (named : IsTrimmed name left) (given : IsTrimmed value right)
    : IsWritten (.assigned name value) (left ++ '=' :: right)
  | counted {name text : List Char} (identifier : isIdentifier name = true)
    (named : IsTrimmed name text)
    : IsWritten (.counted name) text
  | unnamed {inner text : List Char} (whole : IsTrimmed inner text)
    (nameless
      : ∀ name left, isIdentifier name = true → IsTrimmed name left
        → text ≠ left ∧ ∀ right, text ≠ left ++ '=' :: right)
    : IsWritten (.unnamed inner) text

/-- The name of an item; one that is no enumerator has none. -/
def Entry.name : Entry → List Char
  | .assigned name _ | .counted name => name
  | .unnamed _ => []

/-- What an enumerator that is read says. -/
def Enumerator.entry (item : Enumerator) : Entry :=
  if isIdentifier item.name then
    match item.value with
    | some value => .assigned item.name value
    | none => .counted item.name
  else
    .unnamed item.text

/-- An item in front of whose first sign of equality there is its name. -/
theorem enumerator_assigned {front : List Char} (absent : '=' ∉ front) (back : List Char)
    : enumerator (front ++ '=' :: back)
      = { name := trim front, value := some (trim back), text := front ++ '=' :: back } := by
  have passed := bne_of_not_mem absent
  simp [enumerator, List.takeWhile_append_of_pos passed, List.dropWhile_append_of_pos passed]

theorem enumerator_plain {text : List Char} (absent : '=' ∉ text)
    : enumerator text = { name := trim text, value := none, text } := by
  have whole : text.takeWhile (· != '=') = text :=
    List.takeWhile_eq_self_iff.mpr (bne_of_not_mem absent)
  simp [enumerator, whole, absent]

theorem not_mem_left {name left : List Char} (identifier : isIdentifier name = true)
    (named : IsTrimmed name left)
    : '=' ∉ left :=
  named.not_mem (by decide) (not_mem_of_isIdentifier identifier (by decide))

/-- There is only one front of a text up to the first time that a sign occurs. -/
theorem eq_front_of_absent {sign : Char} {front other back behind : List Char}
    (absent : sign ∉ front) (absent' : sign ∉ other)
    (same : front ++ sign :: back = other ++ sign :: behind)
    : front = other := by
  have passed := bne_of_not_mem absent
  have passed' := bne_of_not_mem absent'
  have taken := congrArg (List.takeWhile (· != sign)) same
  simpa [List.takeWhile_append_of_pos passed, List.takeWhile_append_of_pos passed'] using taken

/-- A text with a sign of equality but no name in front of the first one is no enumerator. -/
theorem isWritten_unnamed_assigned {inner left right : List Char}
    (whole : IsTrimmed inner (left ++ '=' :: right)) (absent : '=' ∉ left)
    (nameless : isIdentifier (trim left) = false)
    : (Entry.unnamed inner).IsWritten (left ++ '=' :: right) := by
  refine .unnamed whole fun name other identifier named => ⟨?_, fun back same => ?_⟩
  · rintro rfl
    exact not_mem_left identifier named (by simp)
  · obtain rfl := eq_front_of_absent absent (not_mem_left identifier named) same
    rw [named.trim_eq, identifier] at nameless
    cases nameless

theorem isWritten_unnamed_plain {text : List Char} (absent : '=' ∉ text)
    (nameless : isIdentifier (trim text) = false)
    : (Entry.unnamed (trim text)).IsWritten text := by
  refine .unnamed (isTrimmed_trim text) fun name other identifier named => ⟨?_, fun back same => ?_⟩
  · rintro rfl
    rw [named.trim_eq, identifier] at nameless
    cases nameless
  · rw [same] at absent
    exact absent (by simp)

/-- An item is read as it is written. -/
theorem isWritten_entry (text : List Char) : (enumerator (trim text)).entry.IsWritten text := by
  have trimmed := isTrimmed_trim text
  obtain ⟨front, back, shape, before, behind⟩ := trimmed.shape
  by_cases assigned : '=' ∈ trim text
  · obtain ⟨left, right, split, absent⟩ := List.eq_append_cons_of_mem assigned
    have named : IsTrimmed (trim left) (front ++ left ++ []) :=
      (isTrimmed_trim left).pad before (by simp)
    have given : IsTrimmed (trim right) ([] ++ right ++ back) :=
      (isTrimmed_trim right).pad (by simp) behind
    rw [List.append_nil] at named
    rw [List.nil_append] at given
    have apart : '=' ∉ front ++ left :=
      List.not_mem_append (fun member => absurd (before _ member) (by decide)) absent
    have same : text = (front ++ left) ++ '=' :: (right ++ back) := by
      conv_lhs => rw [shape, split]
      simp only [List.append_assoc, List.cons_append]
    rw [Enumerator.entry, split, enumerator_assigned absent, ← split]
    cases identifier : isIdentifier (trim left) with
    | true =>
        rw [same]
        exact .assigned identifier named given
    | false =>
        have written := isWritten_unnamed_assigned (same ▸ trimmed) apart
          (named.trim_eq ▸ identifier)
        rw [← same] at written
        exact written
  · have plain : '=' ∉ text := trimmed.not_mem (by decide) assigned
    have again : trim (trim text) = trim text :=
      IsTrimmed.trim_eq ⟨⟨[], [], by simp, by simp, by simp⟩, trimmed.starts, trimmed.ends⟩
    rw [Enumerator.entry, enumerator_plain assigned, again]
    cases identifier : isIdentifier (trim text) with
    | true => exact .counted identifier trimmed
    | false => exact isWritten_unnamed_plain plain identifier

end ApiBindings.Header
