import ApiBindings.Proofs.Reading.Shares

/-! What is recorded of a document tree.
Reading a text is making its tree and then recording the tree. An element for another interface
holds nothing. The last step of recording gives origins to symbols and changes nothing else of what
was found, so it works piece by piece.
-/

namespace ApiBindings

namespace Findings

/-- The same findings with other origins of their symbols. -/
def withOrigins (ofEnumerant : Enumerant → Origin) (ofCommand : Command → Origin)
    (found : Findings)
    : Findings :=
  { found with
    enums := found.enums.map fun enumerant => { enumerant with origin := ofEnumerant enumerant }
    commands := found.commands.map fun command => { command with origin := ofCommand command } }

theorem withOrigins_append (ofEnumerant : Enumerant → Origin) (ofCommand : Command → Origin)
    (earlier later : Findings)
    : (earlier ++ later).withOrigins ofEnumerant ofCommand
      = earlier.withOrigins ofEnumerant ofCommand
        ++ later.withOrigins ofEnumerant ofCommand := by
  change withOrigins _ _ (append earlier later) = append _ _
  simp only [withOrigins, append, List.map_append]

/-- What an item has as its outcome, it has with any other origins. -/
def IgnoresOrigins {β : Type} (outcome : β → Findings → Prop) : Prop :=
  ∀ ofEnumerant ofCommand item found,
    outcome item found → outcome item (found.withOrigins ofEnumerant ofCommand)

theorem SharedBy.withOrigins {β : Type} {outcome : β → Findings → Prop}
    (ignores : IgnoresOrigins outcome) (ofEnumerant : Enumerant → Origin)
    (ofCommand : Command → Origin) {items : List β} {found : Findings}
    (shared : SharedBy outcome items found)
    : SharedBy outcome items (found.withOrigins ofEnumerant ofCommand) :=
  shared.map rfl (withOrigins_append ofEnumerant ofCommand) (ignores ofEnumerant ofCommand)

end Findings

namespace Document

open ApiBindings.Markup

-----------------------------------------------------------------------------------------
-- Elements for other interfaces
-----------------------------------------------------------------------------------------

section

variable {source : Source} {element : Element}

theorem readType_foreign (foreign : source.allows element = false)
    : readType source element = {} := by
  rw [readType, foreign]

theorem readCommand_foreign (foreign : source.allows element = false)
    : readCommand source element = {} := by
  rw [readCommand, foreign]
  rfl

theorem readEnumerant_foreign (foreign : source.allows element = false)
    (blockGroup : Option String) (origin : Origin) (scope : Constant.Scope)
    : readEnumerant source blockGroup origin scope element = ({}, scope) := by
  rw [readEnumerant, foreign]
  rfl

theorem readFeature_foreign (foreign : source.allows element = false) (scope : Constant.Scope)
    : readFeature source scope element = ({}, scope) := by
  rw [readFeature, foreign]
  rfl

end

-----------------------------------------------------------------------------------------
-- Records
-----------------------------------------------------------------------------------------

/-- What is recorded of the tree of a document, which may have ended in an error. -/
def records (source : Source) (fault : Option Nat) (document : Element) : Records where
  toFindings := (malformed source fault ++ readTree source document).attributeOrigins
  source := source.name

/-- The records of a text are those of its tree. -/
theorem read_eq_records [Library] (source : Source) (text : String)
    : read source text
      = records source (Library.read text.toList).fault
          (.ofEvents (Library.read text.toList).events) :=
  rfl

/-- A document's records are its fault and then what its tree holds, with origins for symbols. -/
theorem records_eq_withOrigins (source : Source) (fault : Option Nat) (document : Element)
    : ∃ ofEnumerant ofCommand,
        (records source fault document).toFindings
        = malformed source fault
          ++ (readTree source document).withOrigins ofEnumerant ofCommand := by
  have attributed (found : Findings)
      : ∃ ofEnumerant ofCommand,
          found.attributeOrigins = found.withOrigins ofEnumerant ofCommand :=
    ⟨_, _, rfl⟩
  obtain ⟨ofEnumerant, ofCommand, whole⟩ :=
    attributed (malformed source fault ++ readTree source document)
  refine ⟨ofEnumerant, ofCommand, ?_⟩
  rw [records, whole, Findings.withOrigins_append]
  -- The fault of a document has no symbols, so it stays as it is.
  unfold malformed
  split <;> rfl

/-- What is told of enumerants without their origins is told of those in the tree. -/
theorem map_enums_records {β : Type} {view : Enumerant → β}
    (ignores : ∀ enumerant origin, view { enumerant with origin } = view enumerant)
    (source : Source) (fault : Option Nat) (document : Element)
    : (records source fault document).enums.map view
      = (readTree source document).enums.map view := by
  obtain ⟨ofEnumerant, ofCommand, whole⟩ := records_eq_withOrigins source fault document
  have same : (records source fault document).enums.map view
      = ((readTree source document).enums.map fun enumerant =>
          { enumerant with origin := ofEnumerant enumerant }).map view := by
    rw [whole]
    cases fault <;> rfl
  rw [same, List.map_map]
  exact List.map_congr_left fun enumerant _ => ignores enumerant _

theorem map_commands_records {β : Type} {view : Command → β}
    (ignores : ∀ command origin, view { command with origin } = view command) (source : Source)
    (fault : Option Nat) (document : Element)
    : (records source fault document).commands.map view
      = (readTree source document).commands.map view := by
  obtain ⟨ofEnumerant, ofCommand, whole⟩ := records_eq_withOrigins source fault document
  have same : (records source fault document).commands.map view
      = ((readTree source document).commands.map fun command =>
          { command with origin := ofCommand command }).map view := by
    rw [whole]
    cases fault <;> rfl
  rw [same, List.map_map]
  exact List.map_congr_left fun command _ => ignores command _

end Document

end ApiBindings
