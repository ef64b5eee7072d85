import ApiBindings.Proofs.Reading.Documents

/-! What is recorded of an element in a section of a registry.
Types and commands stand in sections of their own. Reading one of them depends on nothing else in
the document, so whatever is read from it is among the records of the whole.
-/

namespace ApiBindings.Document

open ApiBindings.Markup
open Findings

/-- The registry of a document has an element of a kind in a section of a name. -/
structure Holds (document : Element) (name kind : String) (element : Element) : Prop where
  inside : ∃ registry part,
    document.child? "registry" = some registry ∧ part ∈ registry.elements ∧ part.name = name
      ∧ element ∈ part.named kind

/-- The registry of a document is one section of a name, with one element of a kind in it. -/
structure HoldsOnly (document : Element) (name kind : String) (element : Element) : Prop where
  inside : ∃ registry part,
    document.child? "registry" = some registry ∧ registry.elements = [part] ∧ part.name = name
      ∧ part.named kind = [element]

variable {source : Source} {document element : Element}

/-- What is read from an element of a section is found in the tree, if the section is made of such
elements.
-/
theorem Holds.mem_readTree {α : Type} (part : Findings.Part α) {name kind : String}
    {readOne : Element → Findings} {value : α} (holds : Holds document name kind element)
    (reads
      : ∀ scope section', section'.name = name
        → (readSection source scope section').1 = .join ((section'.named kind).map readOne))
    (found : value ∈ part.of (readOne element))
    : value ∈ part.of (readTree source document) := by
  obtain ⟨registry, section', isRegistry, among, named, member⟩ := holds.inside
  rw [readTree, isRegistry]
  refine part.mem_collect_of_mem among (fun scope => ?_) _
  rw [reads scope section' named, part.of_join, List.flatMap_map]
  exact List.mem_flatMap.mpr ⟨element, member, found⟩

/-- What is read from the only element of the only section is all of the tree. -/
theorem HoldsOnly.of_readTree {α : Type} (part : Findings.Part α) {name kind : String}
    {readOne : Element → Findings} (only : HoldsOnly document name kind element)
    (reads
      : ∀ scope section', section'.name = name
        → (readSection source scope section').1 = .join ((section'.named kind).map readOne))
    : part.of (readTree source document) = part.of (readOne element) := by
  obtain ⟨registry, section', isRegistry, alone, named, single⟩ := only.inside
  rw [readTree, isRegistry]
  dsimp only
  rw [readRegistry, alone, collect_cons, collect, part.of_append, part.of_empty, List.append_nil,
    reads _ section' named, single, List.map_singleton, part.of_join, List.flatMap_singleton]

theorem mem_types_of_holds {decl : TypeDecl} (holds : Holds document "types" "type" element)
    (found : decl ∈ (readType source element).types) (fault : Option Nat)
    : decl ∈ (records source fault document).types := by
  have inside : decl ∈ Part.types.of (readTree source document) :=
    holds.mem_readTree Part.types (fun scope part named => by rw [readSection, if_pos named]) found
  exact List.mem_append_right _ inside

/-- The records of a document of one command are that command, but for its origin. -/
theorem HoldsOnly.records_command (only : HoldsOnly document "commands" "command" element)
    {command : Command} (read : readCommand source element = { commands := [command] })
    (fault : Option Nat)
    : (records source fault document).enums = []
      ∧ ∃ origin, (records source fault document).commands = [{ command with origin }] := by
  have reads (scope : Constant.Scope) (section' : Element) (named : section'.name = "commands")
      : (readSection source scope section').1
        = .join ((section'.named "command").map (readCommand source)) := by
    simp [readSection, named]
  have enums := only.of_readTree Part.enums reads
  have commands := only.of_readTree Part.commands reads
  rw [read] at enums commands
  obtain ⟨ofEnumerant, ofCommand, whole⟩ := records_eq_withOrigins source fault document
  -- The fault of a document has no symbols.
  have recorded : (records source fault document).enums = []
      ∧ (records source fault document).commands
        = [{ command with origin := ofCommand command }] := by
    rw [whole]
    cases fault <;> exact ⟨congrArg (List.map _) enums, congrArg (List.map _) commands⟩
  exact ⟨recorded.1, ofCommand command, recorded.2⟩

end ApiBindings.Document
