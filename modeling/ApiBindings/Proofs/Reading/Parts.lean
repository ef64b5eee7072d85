import ApiBindings.Document.Reader
import Mathlib.Tactic.SplitIfs

/-! One part of what is found in a document, such as its enumerants or its features.
Findings are put together part by part, so a part of a document is made of those of its elements.
-/

namespace ApiBindings

namespace Findings

/-- A list that is part of findings and is put together as they are. -/
structure Part (α : Type) where
  of : Findings → List α
  of_empty : of {} = []
  of_append : ∀ earlier later, of (earlier ++ later) = of earlier ++ of later

namespace Part

variable {α : Type}

def enums : Part Enumerant where
  of := Findings.enums
  of_empty := rfl
  of_append := fun _ _ => rfl

def commands : Part Command where
  of := Findings.commands
  of_empty := rfl
  of_append := fun _ _ => rfl

def types : Part TypeDecl where
  of := Findings.types
  of_empty := rfl
  of_append := fun _ _ => rfl

def features : Part Feature where
  of := Findings.features
  of_empty := rfl
  of_append := fun _ _ => rfl

def extensions : Part Extension where
  of := Findings.extensions
  of_empty := rfl
  of_append := fun _ _ => rfl

def faults : Part Fault where
  of := Findings.faults
  of_empty := rfl
  of_append := fun _ _ => rfl

variable (part : Part α)

theorem of_join (parts : List Findings) : part.of (join parts) = parts.flatMap part.of := by
  induction parts with
  | nil => exact part.of_empty
  | cons first rest ih =>
      rw [List.flatMap_cons, ← ih]
      exact part.of_append first (join rest)

/-- Items have of a part what each of them has, by induction on the items for any state before
them.
-/
theorem of_collect {σ β : Type} {read : σ → β → Findings × σ} {found : β → List α}
    (reads : ∀ state item, part.of (read state item).1 = found item) (state : σ)
    (items : List β)
    : part.of (collect read state items).1 = items.flatMap found := by
  induction items generalizing state with
  | nil => exact part.of_empty
  | cons item rest ih =>
      rw [List.flatMap_cons, ← reads state item, ← ih (read state item).2]
      exact part.of_append _ _

theorem of_collect_eq_nil {σ β : Type} {read : σ → β → Findings × σ}
    (none : ∀ state item, part.of (read state item).1 = []) (state : σ) (items : List β)
    : part.of (collect read state items).1 = [] := by
  rw [part.of_collect none]
  exact List.flatMap_eq_nil_iff.mpr fun _ _ => rfl

theorem of_join_map_eq_nil {β : Type} {read : β → Findings}
    (none : ∀ item, part.of (read item) = []) (items : List β)
    : part.of (join (items.map read)) = [] := by
  rw [of_join, List.flatMap_map]
  exact List.flatMap_eq_nil_iff.mpr fun item _ => none item

/-- Types, commands, members of groups and faults do not show in the part. -/
def SkipsDefinitions : Prop :=
  ∀ types commands groupMembers faults,
    part.of { types, commands, groupMembers, faults } = []

/-- Enumerants, groups of bits and faults do not show in the part. -/
def SkipsEnumerants : Prop :=
  ∀ enums bitmaskGroups faults, part.of { enums, bitmaskGroups, faults } = []

theorem features_skipsEnumerants : features.SkipsEnumerants :=
  fun _ _ _ => rfl

theorem commands_skipsEnumerants : commands.SkipsEnumerants :=
  fun _ _ _ => rfl

theorem enums_skipsDefinitions : enums.SkipsDefinitions :=
  fun _ _ _ _ => rfl

theorem features_skipsDefinitions : features.SkipsDefinitions :=
  fun _ _ _ _ => rfl

theorem extensions_skipsEnumerants : extensions.SkipsEnumerants :=
  fun _ _ _ => rfl

theorem extensions_skipsDefinitions : extensions.SkipsDefinitions :=
  fun _ _ _ _ => rfl

end Part

end Findings

-----------------------------------------------------------------------------------------
-- Elements that define types, groups and commands
-----------------------------------------------------------------------------------------

namespace Document

open ApiBindings.Markup
open Findings

variable {α : Type} {part : Findings.Part α}

theorem of_readType (skips : part.SkipsDefinitions) (source : Source) (element : Element)
    : part.of (readType source element) = [] := by
  unfold readType
  split
  · exact skips _ [] [] []
  · exact part.of_empty

theorem of_readGroup (skips : part.SkipsDefinitions) (source : Source) (element : Element)
    : part.of (readGroup source element) = [] := by
  unfold readGroup
  split
  · exact skips [] [] [] _
  · exact skips [] [] _ []

/-- Of parameters only the faults are found. -/
theorem of_readParams (skips : part.SkipsDefinitions) (source : Source) (label : String)
    (elements : List Element)
    : part.of (readParams source label elements).1 = [] := by
  unfold readParams
  dsimp only
  rw [part.of_join, List.flatMap_eq_nil_iff]
  intro found member
  obtain ⟨⟨element, outcome⟩, _, rfl⟩ := List.mem_map.mp member
  cases outcome with
  | ok param => exact part.of_empty
  | error problem => exact skips [] [] [] _

theorem of_readCommand (skips : part.SkipsDefinitions) (source : Source) (element : Element)
    : part.of (readCommand source element) = [] := by
  unfold readCommand
  split
  · exact part.of_empty
  · split
    · exact skips [] [] [] _
    · split
      · exact skips [] [] [] _
      · dsimp only
        split
        · exact skips [] [] [] _
        · split
          · exact skips [] _ [] []
          · exact of_readParams skips source _ _

-----------------------------------------------------------------------------------------
-- Elements that define enumerants
-----------------------------------------------------------------------------------------

theorem of_readEnumerant (skips : part.SkipsEnumerants) (source : Source)
    (blockGroup : Option String) (origin : Origin) (scope : Constant.Scope) (element : Element)
    : part.of (readEnumerant source blockGroup origin scope element).1 = [] := by
  unfold readEnumerant
  split
  · exact part.of_empty
  · split
    · exact skips [] [] _
    · split
      · exact skips [] [] _
      · exact skips _ [] []

theorem of_readEnums (skips : part.SkipsEnumerants) (source : Source) (scope : Constant.Scope)
    (element : Element)
    : part.of (readEnums source scope element).1 = [] := by
  unfold readEnums
  dsimp only
  rw [part.of_append, skips [] _ [], List.nil_append]
  exact part.of_collect_eq_nil (of_readEnumerant skips source _ _) scope _

theorem of_readItem (skips : part.SkipsEnumerants) (source : Source) (origin : Origin)
    (scope : Constant.Scope) (item : Element)
    : part.of (readItem source origin scope item).1 = [] := by
  unfold readItem
  split
  · exact skips [] [] _
  · split
    · exact of_readEnumerant skips source _ origin scope item
    · exact part.of_empty

/-- Blocks define enumerants only. -/
theorem of_collect_readItems (skips : part.SkipsEnumerants) (source : Source) (origin : Origin)
    (scope : Constant.Scope) (blocks : List Element)
    : part.of (collect (readItems source origin) scope blocks).1 = [] := by
  refine part.of_collect_eq_nil (fun scope block => ?_) scope blocks
  exact part.of_collect_eq_nil (of_readItem skips source origin) scope _

-----------------------------------------------------------------------------------------
-- Sections
-----------------------------------------------------------------------------------------

/-- A feature element holds enumerants and a feature only. -/
theorem of_readFeature (skips : part.SkipsEnumerants)
    (featureless : ∀ features, part.of { features } = []) (source : Source)
    (scope : Constant.Scope) (element : Element)
    : part.of (readFeature source scope element).1 = [] := by
  unfold readFeature
  split
  · exact part.of_empty
  · split
    · split
      · exact skips [] [] _
      · dsimp only
        rw [part.of_append, of_collect_readItems skips, featureless, List.append_nil]
    · exact skips [] [] _

/-- A part that skips all definitions is found in features and extensions only. -/
theorem of_readSection (definitions : part.SkipsDefinitions) (enumerants : part.SkipsEnumerants)
    (source : Source) (scope : Constant.Scope) {element : Element}
    (noFeature : element.name ≠ "feature") (noExtensions : element.name ≠ "extensions")
    : part.of (readSection source scope element).1 = [] := by
  unfold readSection
  split_ifs
  · exact part.of_join_map_eq_nil (of_readType definitions source) _
  · exact of_readEnums enumerants source scope element
  · exact part.of_join_map_eq_nil (of_readGroup definitions source) _
  · exact part.of_join_map_eq_nil (of_readCommand definitions source) _
  · exact part.of_empty

end Document

end ApiBindings
