import ApiBindings.Proofs.Reading.EnumTexts
import ApiBindings.Proofs.Reading.Headers
import ApiBindings.Proofs.Text.Pieces

/-! The numbering of enumerators.
The items of an enum's body are read one behind the other, and each of them is read into one
enumerant or into one fault. How an item turns out depends on the scope with the enumerators before
it and on how the one right before it has turned out, and on nothing else of the body.
-/

namespace ApiBindings

namespace Header

open ApiBindings.Text
open Findings

-----------------------------------------------------------------------------------------
-- Items
-----------------------------------------------------------------------------------------

/-- How an enumerator turns out: with a value, or with what is wrong about it. -/
abbrev Outcome :=
  Except Problem Value

namespace Entry

/-- The bits of an enumerator that gives no value: zero at the start of a body, and one more than
those of the one before it, if that one has any.
-/
def following : Option Outcome → Option (BitVec 64)
  | none => some 0
  | some (.ok value) => some (value.bits + 1)
  | some (.error _) => none

/-- How an item turns out in a scope, behind the one before it. -/
def outcome (scope : Constant.Scope) (before : Option Outcome) : Entry → Outcome
  | assigned _ text =>
      match scope.eval? text with
      | some value => .ok value
      | none => .error (.unreadableValue (String.ofList text))
  | counted _ =>
      match following before with
      | some bits => .ok (Value.ofBits bits)
      | none => .error .valueUnknown
  | unnamed text => .error (.unreadableEnumerator (String.ofList text))

/-- The enumerant of an enumerator with a value, in the group of the enum if it has one. -/
def record (entry : Entry) (context : Context) (group : Option String) (value : Value)
    : Enumerant :=
  { Enumerant.declare (String.ofList entry.name) value context.origin context.source with
    groups := group.toList }

/-- The element of an item's fault: that of its name, or if it has none, that of the enum. -/
def element (group : Option String) : Entry → String
  | assigned name _ | counted name => "enum " ++ String.ofList name
  | unnamed _ => "enum " ++ group.getD ""

/-- The fault of an item without a value. -/
def fault (entry : Entry) (context : Context) (group : Option String) (line : Nat)
    (problem : Problem) : Fault where
  input := context.source
  element := entry.element group
  problem
  line := some line

/-- One enumerant or one fault. -/
def findings (entry : Entry) (context : Context) (group : Option String) (line : Nat)
    : Outcome → Findings
  | .ok value => { enums := [entry.record context group value] }
  | .error problem => { faults := [entry.fault context group line problem] }

end Entry

/-- A scope with the enumerators that have values. -/
def extend (scope : Constant.Scope) (read : List (Entry × Outcome)) : Constant.Scope :=
  read.foldl
    (fun scope item =>
      match item.2 with
      | .ok value => scope.define (String.ofList item.1.name) value
      | .error _ => scope)
    scope

/-- Each enumerator turns out as it does in the scope with all those before it, behind the last of
these.
-/
def IsNumbered (scope : Constant.Scope) (read : List (Entry × Outcome)) : Prop :=
  ∀ front item outcome back,
    read = front ++ (item, outcome) :: back
    → outcome = item.outcome (extend scope front) (front.getLast?.map Prod.snd)

/-- What enumerators are read into. -/
def joined (context : Context) (group : Option String) (line : Nat)
    (read : List (Entry × Outcome)) : Findings :=
  join (read.map fun item => item.1.findings context group line item.2)

theorem mem_enums_joined {context : Context} {group : Option String} {line : Nat}
    {read : List (Entry × Outcome)} {item : Entry} {value : Value}
    (member : (item, .ok value) ∈ read)
    : item.record context group value ∈ (joined context group line read).enums := by
  have listed
      : (joined context group line read).enums
        = (read.map fun item => item.1.findings context group line item.2).flatMap
            Findings.enums :=
    Findings.Part.enums.of_join _
  rw [listed]
  exact List.mem_flatMap.mpr ⟨_, List.mem_map_of_mem member, List.mem_singleton.mpr rfl⟩

theorem isNumbered_nil (scope : Constant.Scope) : IsNumbered scope [] := by
  intro front item outcome back shape
  simp at shape

theorem IsNumbered.concat {scope : Constant.Scope} {read : List (Entry × Outcome)}
    (numbered : IsNumbered scope read) {item : Entry} {outcome : Outcome}
    (turns : outcome = item.outcome (extend scope read) (read.getLast?.map Prod.snd))
    : IsNumbered scope (read ++ [(item, outcome)]) := by
  intro front other others back shape
  rcases List.eq_nil_or_concat back with rfl | ⟨inner, last, rfl⟩
  · obtain ⟨rfl, same⟩ := List.append_inj' shape rfl
    cases same
    exact turns
  · rw [List.concat_eq_append, ← List.cons_append, ← List.append_assoc] at shape
    obtain ⟨same, -⟩ := List.append_inj' shape rfl
    exact numbered front other others inner same

theorem enumerant_eq_record {group : Option String} (named : group ≠ some "") (context : Context)
    (item : Entry) (value : Value)
    : context.enumerant (String.ofList item.name) value group
      = { enums := [item.record context group value] } := by
  cases group with
  | none => rfl
  | some group =>
      have full : ¬(group = "" ∨ group ∈ ([] : List String)) := by
        rintro (rfl | member)
        · exact named rfl
        · cases member
      rw [Context.enumerant, Option.toList_some, Enumerant.addGroups, List.foldl_cons,
        List.foldl_nil, Enumerant.addGroup, Enumerant.declare, if_neg full]
      rfl

section

variable {group : Option String}

/-- Reading one enumerator: it is read into what its item turns out to be, and what follows it
depends on that.
-/
theorem readEnumerators_cons (named : group ≠ some "") (context : Context) (line : Nat)
    (scope : Constant.Scope) (before : Option Outcome) (item : Enumerator) (rest : List Enumerator)
    : readEnumerators context group line (Entry.following before) scope (item :: rest)
      = let outcome := item.entry.outcome scope before
        let later := readEnumerators context group line (Entry.following (some outcome))
          (extend scope [(item.entry, outcome)]) rest
        (item.entry.findings context group line outcome ++ later.1, later.2) := by
  conv_lhs => unfold readEnumerators
  have refused {problem : Problem} (turns : item.entry.outcome scope before = .error problem)
      : let later := readEnumerators context group line none scope rest
        let outcome := item.entry.outcome scope before
        let behind := readEnumerators context group line (Entry.following (some outcome))
          (extend scope [(item.entry, outcome)]) rest
        (context.fault (item.entry.element group) problem line ++ later.1, later.2)
          = (item.entry.findings context group line outcome ++ behind.1, behind.2) := by
    rw [turns]
    rfl
  have accepted {value : Value} (turns : item.entry.outcome scope before = .ok value)
      : let later := readEnumerators context group line (some (value.bits + 1))
          (scope.define (String.ofList item.entry.name) value) rest
        let outcome := item.entry.outcome scope before
        let behind := readEnumerators context group line (Entry.following (some outcome))
          (extend scope [(item.entry, outcome)]) rest
        (context.enumerant (String.ofList item.entry.name) value group ++ later.1, later.2)
          = (item.entry.findings context group line outcome ++ behind.1, behind.2) := by
    rw [turns, enumerant_eq_record named]
    rfl
  cases identifier : isIdentifier item.name with
  | false =>
      have unnamed : item.entry = .unnamed item.text := by simp [Enumerator.entry, identifier]
      rw [unnamed] at refused ⊢
      exact refused rfl
  | true =>
      rw [Bool.not_true, if_neg Bool.false_ne_true]
      cases given : item.value with
      | some text =>
          have assigned : item.entry = .assigned item.name text := by
            simp [Enumerator.entry, identifier, given]
          rw [assigned] at refused accepted ⊢
          dsimp only
          cases evaluated : scope.eval? text with
          | none => exact refused (by simp [Entry.outcome, evaluated])
          | some value => exact accepted (by simp [Entry.outcome, evaluated])
      | none =>
          have counted : item.entry = .counted item.name := by
            simp [Enumerator.entry, identifier, given]
          rw [counted] at refused accepted ⊢
          cases next : Entry.following before with
          | none => exact refused (by simp [Entry.outcome, next])
          | some bits => exact accepted (by simp [Entry.outcome, next])

/-- Enumerators are read in their order behind others. By induction on those that are left, with
the numbering of those before them.
-/
theorem exists_isNumbered (named : group ≠ some "") (context : Context) (line : Nat)
    {scope : Constant.Scope} {front : List (Entry × Outcome)} (numbered : IsNumbered scope front)
    (items : List Enumerator)
    : ∃ read,
        read.map Prod.fst = items.map Enumerator.entry
        ∧ IsNumbered scope (front ++ read)
        ∧ readEnumerators context group line (Entry.following (front.getLast?.map Prod.snd))
            (extend scope front) items
          = (joined context group line read, extend scope (front ++ read)) := by
  induction items generalizing front with
  | nil => exact ⟨[], rfl, by simpa using numbered, by simp [readEnumerators, joined, join]⟩
  | cons item rest ih =>
      let outcome := item.entry.outcome (extend scope front) (front.getLast?.map Prod.snd)
      have more : IsNumbered scope (front ++ [(item.entry, outcome)]) := numbered.concat rfl
      obtain ⟨read, items, whole, reads⟩ := ih more
      have last : (front ++ [(item.entry, outcome)]).getLast?.map Prod.snd = some outcome := by simp
      have behind
          : extend scope (front ++ [(item.entry, outcome)])
            = extend (extend scope front) [(item.entry, outcome)] :=
        List.foldl_append
      rw [last, behind] at reads
      refine ⟨(item.entry, outcome) :: read, ?_, ?_, ?_⟩
      · rw [List.map_cons, items, List.map_cons]
      · rwa [List.append_assoc] at whole
      · rw [readEnumerators_cons named]
        dsimp only
        rw [reads, List.append_assoc]
        rfl

end

-----------------------------------------------------------------------------------------
-- Bodies
-----------------------------------------------------------------------------------------

/-- The items of a body with a text are read as they are written. -/
theorem areWritten_enumerators {texts : List (List Char)} (are : AreItems ',' 0 texts)
    : List.Forall₂ Entry.IsWritten ((enumerators ([','].intercalate texts)).map Enumerator.entry)
        (texts.filter fun text => !text.all isBlank) := by
  have full : (fun text => !List.isEmpty text) ∘ trim = fun text => !text.all isBlank :=
    funext fun text => congrArg _ (isEmpty_trim text)
  rw [enumerators, are.cutOutside, List.filter_map, full, List.map_map, List.map_map,
    List.forall₂_map_left_iff, List.forall₂_same]
  exact fun text _ => isWritten_entry text

theorem braces?_append {before after : List Char} (opens : '\x7b' ∉ before)
    (closes : '\x7d' ∉ after) (inner : List Char)
    : braces? (before ++ '\x7b' :: (inner ++ '\x7d' :: after)) = some { before, inner, after } := by
  have passed := bne_of_not_mem opens
  have passedBack : ∀ c ∈ after.reverse, (c != '\x7d') = true :=
    bne_of_not_mem (by simpa using closes)
  have back
      : (inner ++ '\x7d' :: after).reverse = after.reverse ++ '\x7d' :: inner.reverse := by
    simp
  simp [braces?, List.takeWhile_append_of_pos passed, List.dropWhile_append_of_pos passed, back,
    List.takeWhile_append_of_pos passedBack, List.dropWhile_append_of_pos passedBack]

theorem append_empty (found : Findings) : found ++ ({} : Findings) = found := by
  change Findings.append found {} = found
  simp only [Findings.append, List.append_nil]

section

variable {text before body after raw : List Char} {group : Option (List Char)}

/-- An enum is read into its enumerators in its group, and into a type if it is the definition of
one.
-/
theorem readStatement_isEnum (isEnum : IsEnum text before body after)
    (has : HasGroup text before after group) (whole : withoutExtern (collapse raw) = text)
    (context : Context) (line : Nat) (scope : Constant.Scope)
    : let read := readEnumerators context (group.map String.ofList) line (some 0) scope
        (enumerators body)
      ∃ types, readStatement context line scope raw = (read.1 ++ { types }, read.2) := by
  intro read
  obtain ⟨rfl, opens, closes, isEnum⟩ := isEnum
  rw [withoutExtern] at whole
  rw [readStatement, whole]
  -- A statement does not start both as an enum and as the definition of a type.
  have typed (starts : "typedef ".toList <+: before)
      : (strip? "typedef ".toList (before ++ '\x7b' :: (body ++ '\x7d' :: after))).isSome = true
        ∧ contains "enum".toList before = true := by
    obtain ⟨rest, rfl⟩ := starts
    refine ⟨by rw [List.append_assoc, strip?_append]; rfl, contains_of_isInfix ?_⟩
    rcases isEnum with ⟨rest', clash⟩ | ⟨-, inside⟩
    · cases clash
    · exact inside
  cases has with
  | tagged starts tag =>
      obtain ⟨rest, rfl⟩ := starts
      have untyped
          : strip? "typedef ".toList
              ("enum".toList ++ rest ++ '\x7b' :: (body ++ '\x7d' :: after)) = none :=
        rfl
      have first
          : (strip? "enum".toList
              ("enum".toList ++ rest ++ '\x7b' :: (body ++ '\x7d' :: after))).isSome = true := by
        rw [List.append_assoc, strip?_append]
        rfl
      refine ⟨[], ?_⟩
      rw [untyped, first, readEnum, braces?_append opens closes, tag.enumTag?_eq, append_empty]
      simp [read]
  | defined starts named =>
      obtain ⟨first, inside⟩ := typed starts
      rw [if_pos first, readTypedef, braces?_append opens closes]
      dsimp only
      rw [if_pos inside, readEnum, braces?_append opens closes, lastName?,
        named.getLast?_identifiers]
      exact ⟨_, rfl⟩
  | nameless starts unnamed tag =>
      obtain ⟨first, inside⟩ := typed starts
      rw [if_pos first, readTypedef, braces?_append opens closes]
      dsimp only
      rw [if_pos inside, readEnum, braces?_append opens closes, lastName?,
        unnamed.getLast?_identifiers, tag.enumTag?_eq]
      exact ⟨_, rfl⟩

/-- The items of an enum are numbered where it is read. -/
theorem readStatement_enum {texts : List (List Char)} (are : AreItems ',' 0 texts)
    (isEnum : IsEnum (withoutExtern (collapse raw)) before ([','].intercalate texts) after)
    (has : HasGroup (withoutExtern (collapse raw)) before after group) (context : Context)
    (line : Nat) (scope : Constant.Scope)
    : ∃ read types,
        List.Forall₂ Entry.IsWritten (read.map Prod.fst)
            (texts.filter fun text => !text.all isBlank)
        ∧ IsNumbered scope read
        ∧ readStatement context line scope raw
          = (joined context (group.map String.ofList) line read ++ { types },
            extend scope read) := by
  have named : group.map String.ofList ≠ some "" := by
    intro same
    obtain ⟨name, rfl, empty⟩ := Option.map_eq_some_iff.mp same
    exact ofList_ne_empty has.ne_nil empty
  obtain ⟨read, same, numbered, reads⟩ :=
    exists_isNumbered named context line (isNumbered_nil scope)
      (enumerators ([','].intercalate texts))
  obtain ⟨types, statement⟩ := readStatement_isEnum isEnum has rfl context line scope
  refine ⟨read, types, same ▸ areWritten_enumerators are, numbered, statement.trans ?_⟩
  have start
      : readEnumerators context (group.map String.ofList) line (some 0) scope
          (enumerators ([','].intercalate texts))
        = (joined context (group.map String.ofList) line read, extend scope read) :=
    reads
  rw [start]

end

-----------------------------------------------------------------------------------------
-- Headers
-----------------------------------------------------------------------------------------

/-- A header is read into what its items are read into, and stands for it with one block. -/
theorem readFragment_block (dialect : Dialect) (scope : Constant.Scope) (fragment : Fragment)
    : let found := (readFragment dialect scope fragment).1
      ∃ block,
        found.features.flatMap Feature.requires ++ found.extensions.flatMap Extension.requires
          = [block]
        ∧ ∀ enumerant ∈ found.enums, enumerant.name ∈ block.enums := by
  intro found
  obtain ⟨features, extensions⟩ := standsFor_readFragment dialect scope fragment
  refine ⟨required found, ?_, fun enumerant member => ?_⟩
  · rw [features, extensions]
    cases fragment.role <;> rfl
  · exact List.mem_eraseDups.mpr (List.mem_map_of_mem member)

/-- An enum in a header is read behind what stands before it. Its items are read into one enumerant
or one fault each, numbered in the scope with what stands before the enum, and the names of those
that have values are required by what the header stands for.
-/
theorem enum_numbered {dialect : Dialect} {scope : Constant.Scope} {fragment : Fragment}
    {earlier later : List Item} {raw : List Char} {line : Nat}
    (whole
      : items (prepare fragment.text.toList) = earlier ++ .statement raw line :: later)
    {texts : List (List Char)} (are : AreItems ',' 0 texts) {opening ending : List Char}
    (isEnum : IsEnum (withoutExtern (collapse raw)) opening ([','].intercalate texts) ending)
    : let context : Context :=
        { dialect, source := fragment.name, origin := fragment.role.origin dialect.api }
      let before := collect (readItem context) scope earlier
      let found := (readFragment dialect scope fragment).1
      ∃ group read block,
        let numbered := joined context (group.map String.ofList) line read
        let behind := collect (readItem context) (extend before.2 read) later
        HasGroup (withoutExtern (collapse raw)) opening ending group
        ∧ List.Forall₂ Entry.IsWritten (read.map Prod.fst)
          (texts.filter fun text => !text.all isBlank)
        ∧ IsNumbered before.2 read
        ∧ found.enums = before.1.enums ++ numbered.enums ++ behind.1.enums
        ∧ found.faults = before.1.faults ++ numbered.faults ++ behind.1.faults
        ∧ found.features.flatMap Feature.requires ++ found.extensions.flatMap Extension.requires
          = [block]
        ∧ ∀ item value, (item, .ok value) ∈ read → String.ofList item.name ∈ block.enums := by
  intro context before found
  obtain ⟨group, has⟩ := isEnum.exists_hasGroup
  obtain ⟨read, types, written, numbered, reads⟩ :=
    readStatement_enum are isEnum has context line before.2
  obtain ⟨block, only, names⟩ := readFragment_block dialect scope fragment
  have parts {α : Type} {part : Findings.Part α} (skips : part.SkipsInterfaces)
      (typeless : part.of { types } = [])
      : part.of found
        = part.of before.1 ++ part.of (joined context (group.map String.ofList) line read)
          ++ part.of (collect (readItem context) (extend before.2 read) later).1 := by
    have all : part.of found = _ := of_readFragment skips dialect scope fragment
    rw [all, whole, part.of_collect_append, collect_cons, part.of_append, readItem, reads,
      part.of_append, typeless, List.append_nil, List.append_assoc]
  have skipsEnums : Findings.Part.enums.SkipsInterfaces := fun _ _ => rfl
  have skipsFaults : Findings.Part.faults.SkipsInterfaces := fun _ _ => rfl
  have enums := parts skipsEnums rfl
  have faults := parts skipsFaults rfl
  refine ⟨group, read, block, has, written, numbered, enums, faults, only, ?_⟩
  intro item value member
  refine names (item.record context (group.map String.ofList) value) ?_
  rw [show found.enums = Findings.Part.enums.of found from rfl, enums]
  exact List.mem_append_left _ (List.mem_append_right _ (mem_enums_joined member))

/-- An enum behind a constant, with items that cannot be read among the others. -/
def stepsHeader : Fragment where
  name := "vx.h"
  role := .feature { major := 1, minor := 0 }
  text := "#define VX_BASE 0x10\n"
    ++ "enum vx_step_e \x7b VX_A, VX_B = VX_BASE, VX_C, 4D, VX_E, , VX_F = (VX_C) \x7d;"

def stepsItems : List (List Char) :=
  [" VX_A".toList, " VX_B = VX_BASE".toList, " VX_C".toList, " 4D".toList, " VX_E".toList,
    " ".toList, " VX_F = (VX_C) ".toList]

def stepsRaw : List Char :=
  "enum vx_step_e \x7b VX_A, VX_B = VX_BASE, VX_C, 4D, VX_E, , VX_F = (VX_C) \x7d".toList

theorem steps_items
    : items (prepare stepsHeader.text.toList)
      = [.directive "#define VX_BASE 0x10".toList] ++ .statement stepsRaw 2 :: [] := by
  -- The signs of the literals, which would be decoded again at each step otherwise.
  have text : stepsHeader.text.toList = _ :=
    String.toList_append.trans (congrArg₂ (· ++ ·) String.toList_ofList String.toList_ofList)
  have raw : stepsRaw = _ := String.toList_ofList
  rw [text, raw]
  decide +kernel

theorem steps_areItems : AreItems ',' 0 stepsItems := by
  have cuts : cutOutside ',' 0 ([','].intercalate stepsItems) = stepsItems := by decide +kernel
  exact cuts ▸ (areItems_cutOutside ',' 0 _).1

theorem steps_shape
    : withoutExtern (collapse stepsRaw)
      = "enum vx_step_e ".toList ++ '\x7b' :: ([','].intercalate stepsItems ++ '\x7d' :: []) := by
  have raw : stepsRaw = _ := String.toList_ofList
  rw [raw]
  decide +kernel

theorem steps_isEnum
    : IsEnum (withoutExtern (collapse stepsRaw)) "enum vx_step_e ".toList
        ([','].intercalate stepsItems) [] where
  shape := steps_shape
  opens := by decide
  closes := by decide
  isEnum := .inl ⟨" vx_step_e ".toList, by decide⟩

theorem steps_values
    : let found := (readFragment { api := .vx, markers := [] } .initial stepsHeader).1
      found.enums.map (fun found => (found.name, found.value.bits, found.groups))
        = [("VX_BASE", 0x10, []), ("VX_A", 0, ["vx_step_e"]), ("VX_B", 0x10, ["vx_step_e"]),
            ("VX_C", 0x11, ["vx_step_e"]), ("VX_F", 0x11, ["vx_step_e"])]
      ∧ found.faults.map (fun fault => (fault.element, fault.problem))
        = [("enum vx_step_e", .unreadableEnumerator "4D"), ("enum VX_E", .valueUnknown)] := by
  rw [readFragment, steps_items]
  have raw : stepsRaw = _ := String.toList_ofList
  rw [raw]
  decide +kernel

theorem steps_numbered
    : let context : Context :=
        { dialect := { api := .vx, markers := [] }, source := "vx.h",
          origin := stepsHeader.role.origin .vx }
      let before := collect (readItem context) .initial [.directive "#define VX_BASE 0x10".toList]
      let found := (readFragment { api := .vx, markers := [] } .initial stepsHeader).1
      (∃ group read block,
        let numbered := joined context (group.map String.ofList) 2 read
        let behind := collect (readItem context) (extend before.2 read) []
        HasGroup (withoutExtern (collapse stepsRaw)) "enum vx_step_e ".toList [] group
        ∧ List.Forall₂ Entry.IsWritten (read.map Prod.fst)
          (stepsItems.filter fun text => !text.all isBlank)
        ∧ IsNumbered before.2 read
        ∧ found.enums = before.1.enums ++ numbered.enums ++ behind.1.enums
        ∧ found.faults = before.1.faults ++ numbered.faults ++ behind.1.faults
        ∧ found.features.flatMap Feature.requires ++ found.extensions.flatMap Extension.requires
          = [block]
        ∧ ∀ item value, (item, .ok value) ∈ read → String.ofList item.name ∈ block.enums)
      ∧ found.enums.map (fun found => (found.name, found.value.bits, found.groups))
        = [("VX_BASE", 0x10, []), ("VX_A", 0, ["vx_step_e"]), ("VX_B", 0x10, ["vx_step_e"]),
            ("VX_C", 0x11, ["vx_step_e"]), ("VX_F", 0x11, ["vx_step_e"])]
      ∧ found.faults.map (fun fault => (fault.element, fault.problem))
        = [("enum vx_step_e", .unreadableEnumerator "4D"), ("enum VX_E", .valueUnknown)] :=
  ⟨enum_numbered steps_items steps_areItems steps_isEnum, steps_values⟩

end Header

end ApiBindings
