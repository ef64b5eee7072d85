import ApiBindings.Header.Reader
import ApiBindings.Proofs.Constant.Width
import ApiBindings.Proofs.Merging.Groups
import ApiBindings.Proofs.Reading.Parts

/-! Every enumerant that is read from a document or a header is well-formed: it names its groups
once, and its value fits its width.
Readers put enumerants into groups one by one, and a group that is there or has no name adds
nothing. Values are those of constant expressions and of bit patterns, or one of these made wide.
All other steps of reading only put findings behind each other.
-/

namespace ApiBindings

-----------------------------------------------------------------------------------------
-- Findings
-----------------------------------------------------------------------------------------

/-- An enumerant as readers declare it. -/
structure Enumerant.IsWellFormed (enumerant : Enumerant) : Prop where
  grouped : enumerant.IsGrouped
  fits : enumerant.value.FitsWidth

/-- A declared enumerant is well-formed in any groups, if its value is. -/
theorem Enumerant.isWellFormed_declare {value : Value} (fits : value.FitsWidth) (name : String)
    (origin : Origin) (source : String) (groups : List String)
    : ((declare name value origin source).addGroups groups).IsWellFormed where
  grouped := (isGrouped_declare name value origin source).addGroups groups
  fits := by
    rw [value_addGroups]
    exact fits

namespace Findings

/-- All enumerants that were found are well-formed. -/
def AllWellFormed (found : Findings) : Prop :=
  ∀ enumerant ∈ found.enums, enumerant.IsWellFormed

theorem allWellFormed_of_enums {found : Findings} (none : found.enums = [])
    : found.AllWellFormed := by
  intro enumerant member
  rw [none] at member
  cases member

theorem allWellFormed_singleton {found : Findings} {enumerant : Enumerant}
    (only : found.enums = [enumerant]) (wellFormed : enumerant.IsWellFormed)
    : found.AllWellFormed := by
  intro other member
  rw [only] at member
  exact List.mem_singleton.mp member ▸ wellFormed

theorem AllWellFormed.append {earlier later : Findings} (first : earlier.AllWellFormed)
    (second : later.AllWellFormed)
    : (earlier ++ later).AllWellFormed := by
  intro enumerant member
  rcases List.mem_append.mp member with member | member
  · exact first enumerant member
  · exact second enumerant member

/-- Items of which none is read into any enumerant have none together. -/
theorem allWellFormed_join_map {α : Type} {read : α → Findings}
    (none : ∀ item, (read item).enums = []) (items : List α)
    : (join (items.map read)).AllWellFormed := by
  exact allWellFormed_of_enums (Part.enums.of_join_map_eq_nil none items)

/-- Items are read with well-formed enumerants if each of them is, by induction on the items for
any state before them.
-/
theorem allWellFormed_collect {σ α : Type} {read : σ → α → Findings × σ}
    (reads : ∀ state item, (read state item).1.AllWellFormed) (state : σ) (items : List α)
    : (collect read state items).1.AllWellFormed := by
  induction items generalizing state with
  | nil => exact allWellFormed_of_enums rfl
  | cons item rest ih => exact (reads state item).append (ih _)

/-- Attributing an origin to an enumerant leaves its groups and its value alone. -/
theorem AllWellFormed.attributeOrigins {found : Findings} (wellFormed : found.AllWellFormed)
    : found.attributeOrigins.AllWellFormed := by
  intro enumerant member
  obtain ⟨original, present, rfl⟩ := List.mem_map.mp member
  have before := wellFormed original present
  exact ⟨⟨before.grouped.unique, before.grouped.named⟩, before.fits⟩

end Findings

-----------------------------------------------------------------------------------------
-- Documents
-----------------------------------------------------------------------------------------

namespace Document

open ApiBindings.Markup
open Findings

/-- A value that an element gives fits its width, be it an expression or the place of a bit. -/
theorem fitsWidth_of_value? {scope : Constant.Scope} {element : Element} {value : Value}
    (found : value? scope element = .ok value)
    : value.FitsWidth := by
  unfold value? at found
  split at found
  · split at found
    · rename_i evaluated
      obtain rfl := Except.ok.inj found
      exact Constant.Scope.fitsWidth_of_eval? evaluated
    · cases found
  · split at found
    · obtain rfl := Except.ok.inj found
      exact Value.fitsWidth_ofBits _
    · cases found
  · cases found

theorem fitsWidth_widened {value : Value} (fits : value.FitsWidth) (element : Element)
    : (widened element value).FitsWidth := by
  unfold widened
  split
  · exact Value.fitsWidth_wide value.bits
  · exact fits

theorem allWellFormed_readEnumerant (source : Source) (blockGroup : Option String)
    (origin : Origin) (scope : Constant.Scope) (element : Element)
    : (readEnumerant source blockGroup origin scope element).1.AllWellFormed := by
  unfold readEnumerant
  split
  · exact allWellFormed_of_enums rfl
  · split
    · exact allWellFormed_of_enums rfl
    · split
      · exact allWellFormed_of_enums rfl
      · rename_i name _ _ value evaluated
        have declared := Enumerant.isWellFormed_declare
          (fitsWidth_widened (fitsWidth_of_value? evaluated) element) name origin source.name
          (groupsOf element blockGroup)
        exact allWellFormed_singleton rfl
          ⟨⟨declared.grouped.unique, declared.grouped.named⟩, declared.fits⟩

theorem allWellFormed_readEnums (source : Source) (scope : Constant.Scope) (element : Element)
    : (readEnums source scope element).1.AllWellFormed :=
  (allWellFormed_of_enums rfl).append
    (allWellFormed_collect (allWellFormed_readEnumerant source _ _) scope _)

theorem allWellFormed_readItem (source : Source) (origin : Origin) (scope : Constant.Scope)
    (item : Element)
    : (readItem source origin scope item).1.AllWellFormed := by
  unfold readItem
  split
  · exact allWellFormed_of_enums rfl
  · split
    · exact allWellFormed_readEnumerant source _ origin scope item
    · exact allWellFormed_of_enums rfl

theorem allWellFormed_readItems (source : Source) (origin : Origin) (scope : Constant.Scope)
    (block : Element)
    : (readItems source origin scope block).1.AllWellFormed :=
  allWellFormed_collect (allWellFormed_readItem source origin) scope _

theorem allWellFormed_readFeature (source : Source) (scope : Constant.Scope) (element : Element)
    : (readFeature source scope element).1.AllWellFormed := by
  unfold readFeature
  split
  · exact allWellFormed_of_enums rfl
  · split
    · split
      · exact allWellFormed_of_enums rfl
      · exact (allWellFormed_collect (allWellFormed_readItems source _) scope _).append
          (allWellFormed_of_enums rfl)
    · exact allWellFormed_of_enums rfl

theorem allWellFormed_readExtension (source : Source) (scope : Constant.Scope)
    (element : Element)
    : (readExtension source scope element).1.AllWellFormed := by
  unfold readExtension
  split
  · exact allWellFormed_of_enums rfl
  · exact (allWellFormed_collect (allWellFormed_readItems source _) scope _).append
      (allWellFormed_of_enums rfl)

/-- Only sections of enumerants, features and extensions have enumerants at all. -/
theorem allWellFormed_readSection (source : Source) (scope : Constant.Scope) (element : Element)
    : (readSection source scope element).1.AllWellFormed := by
  have skips := Part.enums_skipsDefinitions
  unfold readSection
  split
  · exact allWellFormed_join_map (of_readType skips source) _
  · split
    · exact allWellFormed_readEnums source scope element
    · split
      · exact allWellFormed_join_map (of_readGroup skips source) _
      · split
        · exact allWellFormed_join_map (of_readCommand skips source) _
        · split
          · exact allWellFormed_readFeature source scope element
          · split
            · exact allWellFormed_collect (allWellFormed_readExtension source) scope _
            · exact allWellFormed_of_enums rfl

theorem allWellFormed_readTree (source : Source) (document : Element)
    : (readTree source document).AllWellFormed := by
  unfold readTree
  split
  · exact allWellFormed_collect (allWellFormed_readSection source) _ _
  · exact allWellFormed_of_enums rfl

/-- All enumerants of a document are well-formed, whether or not the document itself is. -/
theorem allWellFormed_read [Library] (source : Source) (text : String)
    : (read source text).AllWellFormed := by
  refine AllWellFormed.attributeOrigins (AllWellFormed.append ?_ (allWellFormed_readTree source _))
  unfold malformed
  split <;> exact allWellFormed_of_enums rfl

theorem allGrouped_read [Library] (source : Source) (text : String)
    : ∀ enumerant ∈ (read source text).enums, enumerant.IsGrouped :=
  fun enumerant member => (allWellFormed_read source text enumerant member).grouped

end Document

-----------------------------------------------------------------------------------------
-- Headers
-----------------------------------------------------------------------------------------

namespace Header

open Findings

theorem allWellFormed_enumerant (context : Context) (name : String) {value : Value}
    (fits : value.FitsWidth) (group : Option String)
    : (context.enumerant name value group).AllWellFormed :=
  allWellFormed_singleton rfl (Enumerant.isWellFormed_declare fits name _ _ _)

theorem allWellFormed_readDirective (context : Context) (scope : Constant.Scope)
    (text : List Char)
    : (readDirective context scope text).1.AllWellFormed := by
  unfold readDirective
  split
  · exact allWellFormed_of_enums rfl
  · dsimp only
    split
    · exact allWellFormed_of_enums rfl
    · split
      · rename_i evaluated
        exact allWellFormed_enumerant context _ (Constant.Scope.fitsWidth_of_eval? evaluated) none
      · exact allWellFormed_of_enums rfl

/-- Each enumerator puts a fault or one enumerant in front of what the rest is read into. By
induction on the enumerators.
-/
theorem allWellFormed_readEnumerators (context : Context) (group : Option String) (line : Nat)
    (next : Option (BitVec 64)) (scope : Constant.Scope) (list : List Enumerator)
    : (readEnumerators context group line next scope list).1.AllWellFormed := by
  induction list generalizing next scope with
  | nil => exact allWellFormed_of_enums rfl
  | cons item rest ih =>
      have refused (element : String) (problem : Problem)
          : (context.fault element problem line
              ++ (readEnumerators context group line none scope rest).1).AllWellFormed :=
        (allWellFormed_of_enums rfl).append (ih none scope)
      have accepted (name : String) {value : Value} (fits : value.FitsWidth)
          : (context.enumerant name value group
              ++ (readEnumerators context group line (some (value.bits + 1))
                (scope.define name value) rest).1).AllWellFormed :=
        (allWellFormed_enumerant context name fits group).append (ih _ _)
      unfold readEnumerators
      dsimp only
      split
      · exact refused _ _
      · split
        · split
          · rename_i evaluated
            exact accepted _ (Constant.Scope.fitsWidth_of_eval? evaluated)
          · exact refused _ _
        · split
          · exact accepted _ (Value.fitsWidth_ofBits _)
          · exact refused _ _

theorem allWellFormed_readEnum (context : Context) (group : Option String) (line : Nat)
    (scope : Constant.Scope) (text : List Char)
    : (readEnum context group line scope text).1.AllWellFormed := by
  unfold readEnum
  split
  · exact allWellFormed_readEnumerators context group line _ scope _
  · exact allWellFormed_of_enums rfl

theorem allWellFormed_readTypedef (context : Context) (line : Nat) (scope : Constant.Scope)
    (text : List Char)
    : (readTypedef context line scope text).1.AllWellFormed := by
  unfold readTypedef
  split
  · dsimp only
    split
    · exact (allWellFormed_readEnum context _ line scope text).append (allWellFormed_of_enums rfl)
    · exact allWellFormed_of_enums rfl
  · exact allWellFormed_of_enums rfl

theorem enums_readPrototype (context : Context) (line : Nat) (text : List Char)
    : (readPrototype context line text).enums = [] := by
  unfold readPrototype
  dsimp only
  split
  · rfl
  · split
    · rfl
    · split <;> rfl

theorem allWellFormed_readItem (context : Context) (scope : Constant.Scope) (item : Item)
    : (readItem context scope item).1.AllWellFormed := by
  cases item with
  | directive text => exact allWellFormed_readDirective context scope text
  | statement text line =>
      unfold readItem readStatement
      dsimp only
      split
      · exact allWellFormed_readTypedef context line scope _
      · split
        · exact allWellFormed_readEnum context _ line scope _
        · split
          · exact allWellFormed_of_enums (enums_readPrototype context line _)
          · exact allWellFormed_of_enums rfl

theorem allWellFormed_readFragment (dialect : Dialect) (scope : Constant.Scope)
    (fragment : Fragment)
    : (readFragment dialect scope fragment).1.AllWellFormed := by
  unfold readFragment
  refine (allWellFormed_collect (allWellFormed_readItem _) scope _).append
    (allWellFormed_of_enums ?_)
  unfold standFor
  split <;> rfl

/-- All enumerants of the headers of an interface are well-formed. -/
theorem allWellFormed_read (dialect : Dialect) (fragments : List Fragment)
    : (read dialect fragments).AllWellFormed :=
  allWellFormed_collect (allWellFormed_readFragment dialect) _ fragments

theorem allGrouped_read (dialect : Dialect) (fragments : List Fragment)
    : ∀ enumerant ∈ (read dialect fragments).enums, enumerant.IsGrouped :=
  fun enumerant member => (allWellFormed_read dialect fragments enumerant member).grouped

end Header

-----------------------------------------------------------------------------------------
-- Sources
-----------------------------------------------------------------------------------------

namespace Records

/-- The records of a document or of headers. -/
inductive IsRead [Markup.Library] : Records → Prop
  | document (source : Document.Source) (text : String) : IsRead (Document.read source text)
  | headers (dialect : Header.Dialect) (fragments : List Header.Fragment)
    : IsRead (Header.read dialect fragments)

theorem IsRead.wellFormed [Markup.Library] {records : Records} (read : records.IsRead)
    : records.AllWellFormed := by
  cases read with
  | document source text => exact Document.allWellFormed_read source text
  | headers dialect fragments => exact Header.allWellFormed_read dialect fragments

end Records

end ApiBindings
