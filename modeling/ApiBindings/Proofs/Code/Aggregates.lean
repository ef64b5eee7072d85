import ApiBindings.Proofs.Code.Typedefs

/-! The items for structures and unions that are defined with their fields.
A definition is read up to its first semicolon, which is the one behind its first field. So it is
that field in which a star is looked for, and not the declarator.
-/

namespace ApiBindings.Code

open ApiBindings.Text
open ApiBindings.Header

-----------------------------------------------------------------------------------------
-- Stars
-----------------------------------------------------------------------------------------

/-- There is a star with no closing brace behind it. -/
def EndsStarred (cs : List Char) : Prop :=
  ∃ front back, cs = front ++ '*' :: back ∧ '\x7d' ∉ back

section

variable {cs front back : List Char}

theorem endsStarred_of_mem (member : '*' ∈ cs) (open? : '\x7d' ∉ cs) : EndsStarred cs := by
  obtain ⟨front, back, rfl⟩ := List.append_of_mem member
  exact ⟨front, back, rfl, fun inside => open? (by simp [inside])⟩

theorem EndsStarred.append_left (starred : EndsStarred back) (front : List Char)
    : EndsStarred (front ++ back) := by
  obtain ⟨before, behind, rfl, closed⟩ := starred
  exact ⟨front ++ before, behind, (List.append_assoc ..).symm, closed⟩

theorem endsStarred_append_iff (unstarred : '*' ∉ front)
    : EndsStarred (front ++ back) ↔ EndsStarred back := by
  refine ⟨?_, fun starred => starred.append_left front⟩
  rintro ⟨before, behind, same, closed⟩
  rcases List.append_eq_append_iff.mp same with ⟨middle, -, rfl⟩ | ⟨middle, rfl, later⟩
  · exact ⟨middle, behind, rfl, closed⟩
  · cases middle with
    | nil => exact ⟨[], behind, later.symm, closed⟩
    | cons c middle =>
        obtain ⟨rfl, -⟩ := List.cons.inj later
        exact absurd (List.mem_append_right _ List.mem_cons_self) unstarred

/-- Only what is behind a closing brace counts. -/
theorem endsStarred_append_brace_iff
    : EndsStarred (front ++ '\x7d' :: back) ↔ EndsStarred back := by
  refine ⟨?_, fun starred => ?_⟩
  · rintro ⟨before, behind, same, closed⟩
    rcases List.append_eq_append_iff.mp same with ⟨middle, rfl, later⟩ | ⟨middle, rfl, later⟩
    · cases middle with
      | nil => cases (List.cons.inj later).1
      | cons c middle => exact ⟨middle, behind, (List.cons.inj later).2, closed⟩
    · cases middle with
      | nil => cases (List.cons.inj later).1
      | cons c middle =>
          obtain ⟨-, rfl⟩ := List.cons.inj later
          exact absurd (List.mem_append_right _ List.mem_cons_self) closed
  · have whole := starred.append_left (front ++ ['\x7d'])
    rwa [List.append_assoc, List.singleton_append] at whole

/-- A text without a closing brace, or what is in front of the last one and behind it. -/
theorem exists_of_brace (cs : List Char)
    : '\x7d' ∉ cs ∨ ∃ front back, cs = front ++ '\x7d' :: back ∧ '\x7d' ∉ back := by
  refine or_iff_not_imp_left.mpr fun braced => ?_
  obtain ⟨back, front, same, first⟩ :=
    List.eq_append_cons_of_mem (List.mem_reverse.mpr (not_not.mp braced))
  refine ⟨front.reverse, back.reverse, ?_, by simpa using first⟩
  rw [← List.reverse_reverse cs, same]
  simp

theorem endsStarred_iff_mem (open? : '\x7d' ∉ cs) : EndsStarred cs ↔ '*' ∈ cs := by
  refine ⟨?_, fun member => endsStarred_of_mem member open?⟩
  rintro ⟨front, back, rfl, -⟩
  exact List.mem_append_right _ List.mem_cons_self

theorem contains_fromLastBrace_iff (cs : List Char)
    : (fromLastBrace cs).contains '*' = true ↔ EndsStarred cs := by
  rw [List.contains_iff_mem, fromLastBrace]
  rcases exists_of_brace cs with open? | ⟨front, back, rfl, closed⟩
  · rw [if_neg (mt List.contains_iff_mem.mp open?), endsStarred_iff_mem open?]
  · have behind : ((front ++ '\x7d' :: back).reverse.takeWhile (· != '\x7d')).reverse = back := by
      rw [List.reverse_append, List.reverse_cons, List.append_assoc,
        List.takeWhile_append_of_pos (bne_of_not_mem (mt List.mem_reverse.mp closed))]
      simp
    rw [if_pos (by simp), behind, endsStarred_append_brace_iff, endsStarred_iff_mem closed,
      List.mem_cons]
    simp

/-- Blanks do not matter to where a star stands. -/
theorem endsStarred_collapse_iff (cs : List Char) : EndsStarred (collapse cs) ↔ EndsStarred cs := by
  have kept {c : Char} (word : isBlank c = false) (cs : List Char) : c ∈ collapse cs ↔ c ∈ cs := by
    refine ⟨fun member => ?_, fun member => mem_collapse_of_mem member word⟩
    rcases mem_collapse member with rfl | ⟨member, -⟩
    · cases word
    · exact member
  have star := @kept '*' (by decide)
  have brace := @kept '\x7d' (by decide)
  constructor
  · intro starred
    rcases exists_of_brace cs with open? | ⟨front, back, rfl, closed⟩
    · rw [endsStarred_iff_mem (mt (brace cs).mp open?), star] at starred
      exact endsStarred_of_mem starred open?
    have inside : '\x7d' ∈ collapse ('\x7d' :: back) := (brace _).mpr List.mem_cons_self
    obtain ⟨before, behind, shape⟩ := List.append_of_mem inside
    rw [collapse_append ⟨_, back, rfl, by decide⟩, shape, ← List.append_assoc,
      endsStarred_append_brace_iff] at starred
    rw [endsStarred_append_brace_iff, endsStarred_iff_mem closed]
    obtain ⟨first, last, rfl, -⟩ := starred
    have member : '*' ∈ collapse ('\x7d' :: back) := by simp [shape]
    exact List.mem_of_ne_of_mem (by decide) ((star _).mp member)
  · rintro ⟨front, back, rfl, closed⟩
    have open? : '\x7d' ∉ collapse ('*' :: back) := by
      rw [brace, List.mem_cons, not_or]
      exact ⟨by decide, closed⟩
    rw [collapse_append ⟨_, back, rfl, by decide⟩]
    exact (endsStarred_of_mem ((star _).mpr List.mem_cons_self) open?).append_left _

end

-----------------------------------------------------------------------------------------
-- Definitions
-----------------------------------------------------------------------------------------

/-- What stands between the keyword and the fields: blanks, and a tag among them or none. -/
inductive IsTag : List Char → Prop where
  | none {gap : List Char} (blank : ∀ c ∈ gap, isBlank c = true) : IsTag gap
  | some {gap tag behind : List Char} (parted : gap ≠ [])
    (blank : ∀ c ∈ gap ++ behind, isBlank c = true) (identifier : isIdentifier tag = true)
    : IsTag (gap ++ (tag ++ behind))

/-- What stands between the fields and the end of a definition, by which the structure itself or the
pointer to it has a name.
-/
inductive NamesAggregate (name : List Char) : Bool → List Char → Prop where
  | value {gap behind : List Char} (identifier : isIdentifier name = true)
    (blank : ∀ c ∈ gap ++ behind, isBlank c = true)
    : NamesAggregate name false (gap ++ (name ++ behind))
  | pointer {gap between behind : List Char} (identifier : isIdentifier name = true)
    (blank : ∀ c ∈ gap ++ between ++ behind, isBlank c = true)
    : NamesAggregate name true (gap ++ '*' :: (between ++ (name ++ behind)))

/-- The parts of a structure or union that is defined with at least one field. -/
structure Aggregate where
  /-- The blanks behind `typedef`. -/
  indent : List Char
  isUnion : Bool
  tag : List Char
  /-- The first field without its semicolon. -/
  field : List Char
  fields : List (List Char)
  /-- The blanks in front of the closing brace. -/
  gap : List Char
  declarator : List Char

namespace Aggregate

def keyword (aggregate : Aggregate) : List Char :=
  if aggregate.isUnion then "union".toList else "struct".toList

/-- What follows the semicolon of the first field. -/
def behind (aggregate : Aggregate) : List Char :=
  aggregate.fields.flatMap (· ++ [';'])
    ++ (aggregate.gap ++ '\x7d' :: (aggregate.declarator ++ [';']))

/-- The definition without its `typedef`. -/
def definition (aggregate : Aggregate) : List Char :=
  aggregate.indent ++ (aggregate.keyword ++ (aggregate.tag
    ++ '\x7b' :: (aggregate.field ++ ';' :: aggregate.behind)))

def text (aggregate : Aggregate) : List Char :=
  "typedef".toList ++ aggregate.definition

structure IsWritten (aggregate : Aggregate) : Prop where
  parted : aggregate.indent ≠ []
  blank : ∀ c ∈ aggregate.indent ++ aggregate.gap, isBlank c = true
  tag : IsTag aggregate.tag

end Aggregate

/-- No word of a text ends in `typedef` in front of a blank. -/
def NamesNoTypedef (cs : List Char) : Prop :=
  ∀ front c back, isBlank c = true → cs ≠ front ++ ("typedef".toList ++ c :: back)

theorem NamesNoTypedef.of_append {front back : List Char} (names : NamesNoTypedef (front ++ back))
    : NamesNoTypedef back := by
  rintro before c behind blank rfl
  exact names (front ++ before) c behind blank (List.append_assoc ..).symm

theorem NamesNoTypedef.typedefBodies_eq_nil {cs : List Char} (names : NamesNoTypedef cs)
    : typedefBodies cs = [] := by
  fun_induction typedefBodies cs with
  | case1 => rfl
  | case2 c rest body found =>
      obtain ⟨d, later, shape, blank, -⟩ := exists_of_afterKeyword? found
      exact absurd shape (names [] d later blank)
  | case3 => rfl
  | case4 c rest _ ih => exact ih (@NamesNoTypedef.of_append [c] rest names)

theorem Aggregate.keyword_cases (aggregate : Aggregate)
    : ∃ first rest,
        aggregate.keyword = first :: rest
        ∧ isBlank first = false
        ∧ first ≠ 'e'
        ∧ (∀ sign ∈ [';', '*', '\x7d'], sign ∉ aggregate.keyword) := by
  unfold Aggregate.keyword
  cases aggregate.isUnion with
  | false => exact ⟨'s', "truct".toList, rfl, by decide, by decide, by decide⟩
  | true => exact ⟨'u', "nion".toList, rfl, by decide, by decide, by decide⟩

theorem IsTag.not_mem {tag : List Char} (isTag : IsTag tag) {sign : Char}
    (word : isWordChar sign = false) (solid : isBlank sign = false)
    : sign ∉ tag := by
  have apart {gap : List Char} (blank : ∀ c ∈ gap, isBlank c = true) : sign ∉ gap := by
    intro inside
    rw [blank sign inside] at solid
    cases solid
  cases isTag with
  | none blank => exact apart blank
  | some parted blank identifier =>
      obtain ⟨front, back⟩ := List.forall_mem_append.mp blank
      simp only [List.mem_append, not_or]
      exact ⟨apart front, not_mem_of_isIdentifier identifier word, apart back⟩

/-- A definition with fields is told by its stars alone. -/
theorem definitionItem?_fields {first : Char} {front back : List Char}
    (word : isBlank first = false) (other : first ≠ 'e') (name : String)
    : definitionItem? name (collapse (first :: front ++ '\x7b' :: back)) =
        some (if (fromLastBrace (collapse (first :: front ++ '\x7b' :: back))).contains '*' then
          aliasItem name "*mut raw::c_void" else opaqueItem name) := by
  have fields : (collapse (first :: front ++ '\x7b' :: back)).contains '\x7b' = true :=
    List.contains_iff_mem.mpr (mem_collapse_of_mem (by simp) (by decide))
  have noEnum : strip? "enum".toList (collapse (first :: front ++ '\x7b' :: back)) = none := by
    obtain ⟨later, shape⟩ := exists_collapseBefore_cons word front
    rw [collapse_append ⟨_, back, rfl, by decide⟩, shape, List.cons_append]
    exact strip?_cons_of_ne other.symm
  rw [definitionItem?, fields, noEnum, Bool.true_or, Bool.true_or, if_pos rfl]
  split
  · rfl
  · rfl

/-- A text with a semicolon behind it goes on to its own first one, or to that. -/
theorem exists_takeWhile_append (cs back : List Char)
    : ∃ later, cs ++ ';' :: back = cs.takeWhile (· != ';') ++ ';' :: later := by
  induction cs with
  | nil => exact ⟨back, rfl⟩
  | cons c cs ih =>
      by_cases ends : c = ';'
      · subst ends
        exact ⟨cs ++ ';' :: back, rfl⟩
      · obtain ⟨later, shape⟩ := ih
        refine ⟨later, ?_⟩
        rw [List.takeWhile_cons_of_pos (by simpa using ends), List.cons_append, shape,
          List.cons_append]

namespace Aggregate

variable {aggregate : Aggregate}

theorem IsWritten.not_mem (written : aggregate.IsWritten) {sign : Char} (cuts : sign = ';' ∨ sign = '*')
    : sign ∉ aggregate.keyword ++ (aggregate.tag ++ ['\x7b']) := by
  obtain ⟨-, -, -, -, -, absent⟩ := aggregate.keyword_cases
  rcases cuts with rfl | rfl
  · have tag : ';' ∉ aggregate.tag := written.tag.not_mem (by decide) (by decide)
    simp [absent, tag]
  · have tag : '*' ∉ aggregate.tag := written.tag.not_mem (by decide) (by decide)
    simp [absent, tag]

/-- What is read of a definition with fields: its text up to the semicolon of the first one. -/
theorem IsWritten.typedefBodies_eq (written : aggregate.IsWritten)
    (alone : NamesNoTypedef aggregate.definition)
    : typedefBodies aggregate.text =
        [aggregate.keyword ++ (aggregate.tag
          ++ '\x7b' :: aggregate.field.takeWhile (· != ';'))] := by
  obtain ⟨first, rest, keyword, word, -, -⟩ := aggregate.keyword_cases
  obtain ⟨later, shape⟩ := exists_takeWhile_append aggregate.field aggregate.behind
  have starts : StartsWord (aggregate.keyword ++ (aggregate.tag
      ++ '\x7b' :: aggregate.field.takeWhile (· != ';'))) := by
    rw [keyword]
    exact ⟨first, _, rfl, word⟩
  have unended : ';' ∉ aggregate.keyword ++ (aggregate.tag
      ++ '\x7b' :: aggregate.field.takeWhile (· != ';')) := by
    have head : ';' ∉ aggregate.keyword ++ (aggregate.tag ++ ['\x7b']) := written.not_mem (.inl rfl)
    have field : ';' ∉ aggregate.field.takeWhile (· != ';') := fun inside => by
      simpa using List.mem_takeWhile_imp inside
    simp only [List.mem_append, List.mem_cons, not_or] at head ⊢
    exact ⟨head.1, head.2.1, head.2.2.1, field⟩
  have whole : aggregate.definition = aggregate.indent ++ (aggregate.keyword ++ (aggregate.tag
      ++ '\x7b' :: aggregate.field.takeWhile (· != ';')) ++ ';' :: later) := by
    simp only [definition, shape, List.append_assoc, List.cons_append]
  have alone : NamesNoTypedef later := by
    have behind : aggregate.definition = (aggregate.indent ++ aggregate.keyword ++ aggregate.tag
        ++ '\x7b' :: aggregate.field.takeWhile (· != ';') ++ [';']) ++ later := by
      rw [whole]
      simp
    rw [behind] at alone
    exact alone.of_append
  have bodies := typedefBodies_append written.parted (List.forall_mem_append.mp written.blank).1
    starts unended later
  rw [alone.typedefBodies_eq_nil, ← whole] at bodies
  exact bodies

/-- The item of a definition with fields is that of a pointer exactly if the first field ends in
stars.
-/
theorem IsWritten.typeItem?_eq (written : aggregate.IsWritten)
    (alone : NamesNoTypedef aggregate.definition) (name source : String)
    : ∃ isPointer : Bool,
        (isPointer = true ↔ EndsStarred (aggregate.field.takeWhile (· != ';')))
        ∧ typeItem? { name, c := String.ofList aggregate.text, source }
          = some (if isPointer then aliasItem name "*mut raw::c_void" else opaqueItem name) := by
  obtain ⟨first, rest, keyword, word, other, -⟩ := aggregate.keyword_cases
  have body : aggregate.keyword ++ (aggregate.tag
        ++ '\x7b' :: aggregate.field.takeWhile (· != ';'))
      = first :: (rest ++ aggregate.tag) ++ '\x7b' :: aggregate.field.takeWhile (· != ';') := by
    simp [keyword]
  have stars : EndsStarred (aggregate.keyword ++ (aggregate.tag
        ++ '\x7b' :: aggregate.field.takeWhile (· != ';')))
      ↔ EndsStarred (aggregate.field.takeWhile (· != ';')) := by
    have front : '*' ∉ aggregate.keyword ++ (aggregate.tag ++ ['\x7b']) := written.not_mem (.inr rfl)
    have behind := @endsStarred_append_iff _ (aggregate.field.takeWhile (· != ';')) front
    simpa using behind
  refine ⟨(fromLastBrace (collapse (aggregate.keyword ++ (aggregate.tag
    ++ '\x7b' :: aggregate.field.takeWhile (· != ';'))))).contains '*', ?_, ?_⟩
  · rw [contains_fromLastBrace_iff, endsStarred_collapse_iff, stars]
  · rw [typeItem?, String.toList_ofList, written.typedefBodies_eq alone]
    dsimp only [List.getLast?_singleton]
    rw [body]
    exact definitionItem?_fields word other name

end Aggregate

/-- The two items that there are for a structure differ. -/
theorem aliasItem_ne_opaqueItem (name type : String) : aliasItem name type ≠ opaqueItem name := by
  intro same
  obtain ⟨later, ofAlias⟩ : ∃ later, aliasItem name type = "pub type " ++ later := by
    simp only [aliasItem, String.append_assoc]
    exact ⟨_, rfl⟩
  obtain ⟨later', ofStruct⟩ : ∃ later, opaqueItem name = "#[repr(C)] pub struct " ++ later :=
    ⟨_, String.append_assoc ..⟩
  have texts : "pub type ".toList ++ later.toList
      = "#[repr(C)] pub struct ".toList ++ later'.toList :=
    String.toList_append.symm.trans
      ((congrArg String.toList (ofAlias.symm.trans (same.trans ofStruct))).trans
        String.toList_append)
  have front : "pub type ".toList <+: "#[repr(C)] pub struct ".toList :=
    List.prefix_of_prefix_length_le ⟨_, texts⟩ (List.prefix_append _ _) (by decide)
  exact absurd front (by decide)

/-- A structure or union that is defined with its fields has the item that its declarator asks for
exactly if the first field ends in stars when the declarator has one.
-/
theorem aggregate_item_iff {aggregate : Aggregate} {name : List Char} {isPointer : Bool}
    (written : aggregate.IsWritten) (named : NamesAggregate name isPointer aggregate.declarator)
    (alone : NamesNoTypedef aggregate.definition) (source : String)
    : typeItem? {
          name := String.ofList name
          c := String.ofList aggregate.text
          source
        } = some (if isPointer then aliasItem (String.ofList name) "*mut raw::c_void"
          else opaqueItem (String.ofList name))
        ↔ (EndsStarred (aggregate.field.takeWhile (· != ';')) ↔ isPointer = true) := by
  obtain ⟨starred, stars, item⟩ := written.typeItem?_eq alone (String.ofList name) source
  rw [item, ← stars]
  have differ := aliasItem_ne_opaqueItem (String.ofList name) "*mut raw::c_void"
  cases starred <;> cases isPointer <;> simp [differ, differ.symm]

/-- `typedef struct vx_range_t { int start; int *end; } vx_range;` -/
def rangeDefinition : Aggregate where
  indent := [' ']
  isUnion := false
  tag := " vx_range_t ".toList
  field := " int start".toList
  fields := [" int *end".toList]
  gap := [' ']
  declarator := " vx_range".toList

/-- `typedef struct { void *p; } vx_pair;` -/
def pairDefinition : Aggregate where
  indent := [' ']
  isUnion := false
  tag := [' ']
  field := " void *p".toList
  fields := []
  gap := [' ']
  declarator := " vx_pair".toList

theorem namesNoTypedef_of_not_mem {cs : List Char} (absent : 'f' ∉ cs) : NamesNoTypedef cs := by
  rintro front c back - rfl
  exact absent (by simp)

theorem rangeDefinition_item
    : rangeDefinition.IsWritten
      ∧ NamesAggregate "vx_range".toList false rangeDefinition.declarator
      ∧ NamesNoTypedef rangeDefinition.definition
      ∧ typeItem? { name := "vx_range", c := String.ofList rangeDefinition.text, source := "cl.xml" }
        = some (opaqueItem "vx_range") := by
  have written : rangeDefinition.IsWritten := {
    parted := by decide
    blank := by decide
    tag := @IsTag.some [' '] "vx_range_t".toList [' '] (by decide) (by decide) (by decide) }
  have named : NamesAggregate "vx_range".toList false rangeDefinition.declarator :=
    @NamesAggregate.value _ [' '] [] (by decide) (by decide)
  have alone : NamesNoTypedef rangeDefinition.definition := namesNoTypedef_of_not_mem (by decide)
  refine ⟨written, named, alone, (aggregate_item_iff written named alone "cl.xml").mpr ?_⟩
  rw [endsStarred_iff_mem (by decide)]
  decide

/-- The item of a structure whose first field is a pointer is that of a pointer. -/
theorem pairDefinition_misread
    : pairDefinition.IsWritten
      ∧ NamesAggregate "vx_pair".toList false pairDefinition.declarator
      ∧ NamesNoTypedef pairDefinition.definition
      ∧ String.ofList pairDefinition.text = "typedef struct { void *p; } vx_pair;"
      ∧ typeItem? { name := "vx_pair", c := String.ofList pairDefinition.text, source := "cl.xml" }
        = some (aliasItem "vx_pair" "*mut raw::c_void")
      ∧ typeItem? { name := "vx_pair", c := String.ofList pairDefinition.text, source := "cl.xml" }
        ≠ some (opaqueItem "vx_pair") := by
  have written : pairDefinition.IsWritten := {
    parted := by decide
    blank := by decide
    tag := .none (by decide) }
  have named : NamesAggregate "vx_pair".toList false pairDefinition.declarator :=
    @NamesAggregate.value _ [' '] [] (by decide) (by decide)
  have alone : NamesNoTypedef pairDefinition.definition := namesNoTypedef_of_not_mem (by decide)
  obtain ⟨isPointer, stars, item⟩ := written.typeItem?_eq alone "vx_pair" "cl.xml"
  have starred : EndsStarred (pairDefinition.field.takeWhile (· != ';')) :=
    ⟨" void ".toList, ['p'], by decide, by decide⟩
  rw [stars.mpr starred, if_pos rfl] at item
  refine ⟨written, named, alone, by decide, item, ?_⟩
  rw [item]
  exact fun same => aliasItem_ne_opaqueItem _ _ (Option.some.inj same)

end ApiBindings.Code
