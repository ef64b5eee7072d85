import ApiBindings.Proofs.Reading.Documents

/-! Syntax errors of documents.
Only the end of a document that is not well-formed is such an error. Whatever is wrong with an
element is something else, so there is one syntax error if the document ended early, and none
otherwise.
-/

namespace ApiBindings

namespace Findings

/-- The syntax errors among what was found. -/
def syntaxErrors (found : Findings) : List Fault :=
  found.faults.filter fun fault => fault.problem = .malformed

/-- All faults are with elements of a well-formed document. -/
def IsWellFormed (found : Findings) : Prop :=
  ∀ fault ∈ found.faults, fault.problem ≠ .malformed

theorem IsWellFormed.syntaxErrors_eq_nil {found : Findings} (wellFormed : found.IsWellFormed)
    : found.syntaxErrors = [] :=
  List.filter_eq_nil_iff.mpr fun fault member => by simpa using wellFormed fault member

theorem isWellFormed_of_faults {found : Findings} (none : found.faults = [])
    : found.IsWellFormed := by
  intro fault member
  rw [none] at member
  cases member

theorem IsWellFormed.append {earlier later : Findings} (first : earlier.IsWellFormed)
    (second : later.IsWellFormed)
    : (earlier ++ later).IsWellFormed := by
  intro fault member
  rcases List.mem_append.mp member with member | member
  · exact first fault member
  · exact second fault member

theorem isWellFormed_join {parts : List Findings} (each : ∀ part ∈ parts, part.IsWellFormed)
    : (join parts).IsWellFormed := by
  intro fault member
  have member : fault ∈ Part.faults.of (join parts) := member
  rw [Part.of_join] at member
  obtain ⟨part, among, member⟩ := List.mem_flatMap.mp member
  exact each part among fault member

theorem isWellFormed_join_map {β : Type} {read : β → Findings}
    (each : ∀ item, (read item).IsWellFormed) (items : List β)
    : (join (items.map read)).IsWellFormed :=
  isWellFormed_join (List.forall_mem_map.mpr fun item _ => each item)

theorem isWellFormed_collect {σ β : Type} {read : σ → β → Findings × σ}
    (each : ∀ state item, (read state item).1.IsWellFormed) (state : σ) (items : List β)
    : (collect read state items).1.IsWellFormed :=
  fun fault member =>
    Part.faults.forall_mem_collect (fun item _ state => each state item) state fault member

end Findings

namespace Document

open ApiBindings.Markup
open Findings

variable {source : Source} {element : Element}

theorem isWellFormed_fault {label : String} {problem : Problem} (other : problem ≠ .malformed)
    : (source.fault element label problem).IsWellFormed := by
  intro fault member
  rwa [List.mem_singleton.mp member]

-----------------------------------------------------------------------------------------
-- Definitions
-----------------------------------------------------------------------------------------

theorem isWellFormed_readType (source : Source) (element : Element)
    : (readType source element).IsWellFormed := by
  unfold readType
  split <;> exact isWellFormed_of_faults rfl

theorem isWellFormed_readGroup (source : Source) (element : Element)
    : (readGroup source element).IsWellFormed := by
  unfold readGroup
  split
  · exact isWellFormed_fault (by decide)
  · exact isWellFormed_of_faults rfl

theorem problem_of_value? {scope : Constant.Scope} {problem : Problem}
    (failed : value? scope element = .error problem)
    : problem ≠ .malformed := by
  unfold value? at failed
  split at failed
  · split at failed
    · cases failed
    · cases failed
      simp
  · split at failed
    · cases failed
    · cases failed
      simp
  · cases failed
    simp

theorem isWellFormed_readEnumerant (source : Source) (blockGroup : Option String) (origin : Origin)
    (scope : Constant.Scope) (element : Element)
    : (readEnumerant source blockGroup origin scope element).1.IsWellFormed := by
  unfold readEnumerant
  split
  · exact isWellFormed_of_faults rfl
  · split
    · exact isWellFormed_fault (by simp)
    · split
      · rename_i failed
        exact isWellFormed_fault (problem_of_value? failed)
      · exact isWellFormed_of_faults rfl

theorem isWellFormed_readEnums (source : Source) (scope : Constant.Scope) (element : Element)
    : (readEnums source scope element).1.IsWellFormed :=
  (isWellFormed_of_faults rfl).append
    (isWellFormed_collect (isWellFormed_readEnumerant source _ _) scope _)

theorem problem_of_readParam {position : Nat} {problem : Problem}
    (failed : readParam position element = .error problem)
    : problem ≠ .malformed := by
  unfold readParam at failed
  dsimp only at failed
  split at failed
  · cases failed
    simp
  · split at failed
    · cases failed
      simp
    · cases failed

theorem isWellFormed_readParams (source : Source) (label : String) (elements : List Element)
    : (readParams source label elements).1.IsWellFormed := by
  refine isWellFormed_join fun part member => ?_
  obtain ⟨⟨element, outcome⟩, among, rfl⟩ := List.mem_map.mp member
  obtain ⟨⟨position, child⟩, -, same⟩ := List.mem_map.mp among
  obtain ⟨rfl, read⟩ := Prod.mk.inj same
  cases outcome with
  | ok param => exact isWellFormed_of_faults rfl
  | error problem => exact isWellFormed_fault (problem_of_readParam read)

theorem isWellFormed_readCommand (source : Source) (element : Element)
    : (readCommand source element).IsWellFormed := by
  unfold readCommand
  split
  · exact isWellFormed_of_faults rfl
  · split
    · exact isWellFormed_fault (by decide)
    · split
      · rename_i problem failed
        refine isWellFormed_fault ?_
        unfold readPrototype at failed
        split at failed
        · cases failed
          decide
        · cases failed
      · dsimp only
        split
        · exact isWellFormed_fault (by decide)
        · split
          · exact isWellFormed_of_faults rfl
          · exact isWellFormed_readParams source _ _

-----------------------------------------------------------------------------------------
-- Sections
-----------------------------------------------------------------------------------------

theorem isWellFormed_readItem (source : Source) (origin : Origin) (scope : Constant.Scope)
    (item : Element)
    : (readItem source origin scope item).1.IsWellFormed := by
  unfold readItem
  split
  · exact isWellFormed_fault (by simp)
  · split
    · exact isWellFormed_readEnumerant source _ origin scope item
    · exact isWellFormed_of_faults rfl

theorem isWellFormed_readItems (source : Source) (origin : Origin) (scope : Constant.Scope)
    (block : Element)
    : (readItems source origin scope block).1.IsWellFormed :=
  isWellFormed_collect (isWellFormed_readItem source origin) scope _

theorem isWellFormed_readFeature (source : Source) (scope : Constant.Scope) (element : Element)
    : (readFeature source scope element).1.IsWellFormed := by
  unfold readFeature
  split
  · exact isWellFormed_of_faults rfl
  · split
    · split
      · exact isWellFormed_fault (by simp)
      · exact (isWellFormed_collect (isWellFormed_readItems source _) scope _).append
          (isWellFormed_of_faults rfl)
    · exact isWellFormed_fault (by decide)

theorem isWellFormed_readExtension (source : Source) (scope : Constant.Scope) (element : Element)
    : (readExtension source scope element).1.IsWellFormed := by
  unfold readExtension
  split
  · exact isWellFormed_fault (by simp)
  · exact (isWellFormed_collect (isWellFormed_readItems source _) scope _).append
      (isWellFormed_of_faults rfl)

theorem isWellFormed_readSection (source : Source) (scope : Constant.Scope) (element : Element)
    : (readSection source scope element).1.IsWellFormed := by
  unfold readSection
  split
  · exact isWellFormed_join_map (isWellFormed_readType source) _
  · split
    · exact isWellFormed_readEnums source scope element
    · split
      · exact isWellFormed_join_map (isWellFormed_readGroup source) _
      · split
        · exact isWellFormed_join_map (isWellFormed_readCommand source) _
        · split
          · exact isWellFormed_readFeature source scope element
          · split
            · exact isWellFormed_collect (isWellFormed_readExtension source) scope _
            · exact isWellFormed_of_faults rfl

theorem isWellFormed_readTree (source : Source) (document : Element)
    : (readTree source document).IsWellFormed := by
  unfold readTree
  split
  · exact isWellFormed_collect (isWellFormed_readSection source) _ _
  · exact isWellFormed_fault (by decide)

/-- A document that ended in an error has that one syntax error, and any other one has none. -/
theorem syntaxErrors_records (source : Source) (fault : Option Nat) (document : Element)
    : (records source fault document).syntaxErrors
      = fault.toList.map fun line => {
          input := source.name
          element := "document"
          problem := .malformed
          line := some line
        } := by
  obtain ⟨ofEnumerant, ofCommand, whole⟩ := records_eq_withOrigins source fault document
  have none := (isWellFormed_readTree source document).syntaxErrors_eq_nil
  rw [whole]
  cases fault with
  | none => exact none
  | some line => exact congrArg (List.cons _) none

end Document

end ApiBindings
