import ApiBindings.Proofs.Markup.Library
import ApiBindings.Proofs.Reading.SyntaxErrors
import ApiBindings.Proofs.Reading.Truncation

/-! What is recorded of a part of a document.
Its pieces are the first of those of the whole, so its tree is the whole one cut short. The
enumerants are right, there is one syntax error until the root has ended, and of the commands only
the one in which the cut is can be wrong.
-/

namespace ApiBindings.Document

open ApiBindings.Markup

/-- A text that is read without an error, as a document of one root. The reader takes texts of more
roots as well, which are no documents.
-/
structure IsDocument [Library] (text : List Char) : Prop where
  accepted : (Library.read text).fault = none
  single : (Element.ofEvents (Library.read text).events).elements.length = 1

/-- The command in which a text ends, with what it has up to there. -/
def commandAtEnd? [Library] (text : List Char) : Option Element :=
  openedCommand? (Element.Path.ofEvents (Library.read text).events).opened

/-- What a definition of an enumerant says: its name and its value. -/
def definitionOf (enumerant : Enumerant) : String × Value :=
  (enumerant.name, enumerant.value)

/-- What a declaration of a command says: its name and its signature. -/
def declarationOf (command : Command) : String × String :=
  (command.name, command.signature)

/-- Whether some command of the records has the name and the signature of a command. -/
def DeclaresCommand (records : Records) (command : Command) : Prop :=
  declarationOf command ∈ records.commands.map declarationOf

instance (records : Records) (command : Command) : Decidable (DeclaresCommand records command) :=
  inferInstanceAs (Decidable (_ ∈ _))

-----------------------------------------------------------------------------------------
-- Parts of a document
-----------------------------------------------------------------------------------------

section

variable [Library] [LawfulReading] {front back : List Char}

/-- The tree of a part of a document is that of the document cut short. -/
theorem truncates_read (accepted : (Library.read (front ++ back)).fault = none)
    : Truncates (Element.Path.ofEvents (Library.read front).events).opened
        (Element.ofEvents (Library.read front).events).children
        (Element.ofEvents (Library.read (front ++ back)).events).children := by
  obtain ⟨later, shape⟩ := LawfulReading.events_isPrefix accepted
  have truncates := Element.Path.truncates_foldl_step
    (Element.Path.ofEvents (Library.read front).events) later
  rw [Element.Path.ofEvents, ← List.foldl_append, shape] at truncates
  exact truncates

end

section

variable [Library] [LawfulReading] (source : Source) {text front : String} {back : List Char}

/-- The enumerants of a part of a document are the first of the document. -/
theorem definitions_read_isPrefix (document : IsDocument text.toList)
    (cut : text.toList = front.toList ++ back)
    : (read source front).enums.map definitionOf <+: (read source text).enums.map definitionOf := by
  obtain ⟨accepted, single⟩ := document
  rw [cut] at accepted single
  obtain ⟨root, single⟩ := List.length_eq_one_iff.mp single
  have settles := (settles_readTree source (truncates_read accepted) single).1
  rw [read_eq_records, read_eq_records, cut, map_enums_records (fun _ _ => rfl),
    map_enums_records (fun _ _ => rfl)]
  exact settles.isPrefix.map definitionOf

/-- The commands of a part of a document are the first of the document and then what the command is
read into that is cut.
-/
theorem declarations_read_settle (document : IsDocument text.toList)
    (cut : text.toList = front.toList ++ back)
    : Settles ((commandsOf source (commandAtEnd? front.toList)).map declarationOf)
        ((read source front).commands.map declarationOf)
        ((read source text).commands.map declarationOf) := by
  obtain ⟨accepted, single⟩ := document
  rw [cut] at accepted single
  obtain ⟨root, single⟩ := List.length_eq_one_iff.mp single
  have settles := (settles_readTree source (truncates_read accepted) single).2
  rw [read_eq_records, read_eq_records, cut, map_commands_records (fun _ _ => rfl),
    map_commands_records (fun _ _ => rfl)]
  exact settles.map declarationOf

/-- A text whose root has not ended is one with a syntax error. -/
theorem exists_syntaxErrors_read (ongoing : ¬ RootEnded (Library.read front.toList).events)
    : ∃ line, (read source front).syntaxErrors
        = [{ input := source.name, element := "document", problem := .malformed, line }] := by
  rw [read_eq_records, syntaxErrors_records]
  cases failed : (Library.read front.toList).fault with
  | none => exact absurd (LawfulReading.rootEnded_of_accepted failed) ongoing
  | some line => exact ⟨some line, rfl⟩

/-- A part of a document tells of enumerants and commands what the document tells of them, if and
only if this is so of the command that is cut. There is one syntax error until the root has ended.
-/
theorem read_cut (document : IsDocument text.toList) (cut : text.toList = front.toList ++ back)
    : (read source front).enums.map definitionOf <+: (read source text).enums.map definitionOf
      ∧ Settles ((commandsOf source (commandAtEnd? front.toList)).map declarationOf)
          ((read source front).commands.map declarationOf)
          ((read source text).commands.map declarationOf)
      ∧ ((∀ command ∈ (read source front).commands, DeclaresCommand (read source text) command)
        ↔ ∀ command ∈ commandsOf source (commandAtEnd? front.toList),
            DeclaresCommand (read source text) command)
      ∧ (¬ RootEnded (Library.read front.toList).events
        → ∃ line, (read source front).syntaxErrors
          = [{ input := source.name, element := "document", problem := .malformed, line }]) := by
  have settles := declarations_read_settle source document cut
  refine ⟨definitions_read_isPrefix source document cut, settles, ?_,
    exists_syntaxErrors_read source⟩
  have only := settles.forall_mem_iff
  rwa [List.forall_mem_map, List.forall_mem_map] at only

end

-----------------------------------------------------------------------------------------
-- A command that is cut behind its prototype
-----------------------------------------------------------------------------------------

/-- A document up to the parameter of its command. -/
def adjustFront : String :=
  "<registry><commands><command><proto>void <name>glAdjust</name></proto>"

def adjustBack : String :=
  "<param>GLint <name>a</name></param></command></commands></registry>"

theorem adjust_isDocument : IsDocument (adjustFront ++ adjustBack).toList := by
  have read
      : let reading := Library.read (adjustFront ++ adjustBack).toList
        reading.fault = none ∧ (Element.ofEvents reading.events).elements.length = 1 := by
    rw [String.toList_append, adjustFront, adjustBack, String.toList_ofList, String.toList_ofList]
    decide +kernel
  exact ⟨read.1, read.2⟩

/-- The command in which the document is cut is read without the parameter. -/
theorem adjust_cut
    : Settles [("glAdjust", "void ()")]
        ((read { name := "gl.xml", api := none } adjustFront).commands.map declarationOf)
        ((read { name := "gl.xml", api := none } (adjustFront ++ adjustBack)).commands.map
          declarationOf)
      ∧ ∃ line, (read { name := "gl.xml", api := none } adjustFront).syntaxErrors
        = [{ input := "gl.xml", element := "document", problem := .malformed, line }] := by
  obtain ⟨-, settles, -, fails⟩ :=
    read_cut { name := "gl.xml", api := none } adjust_isDocument String.toList_append
  have latest
      : (commandsOf { name := "gl.xml", api := none } (commandAtEnd? adjustFront.toList)).map
          declarationOf = [("glAdjust", "void ()")] := by
    rw [adjustFront, String.toList_ofList]
    decide +kernel
  have ongoing : ¬ RootEnded (Library.read adjustFront.toList).events := by
    rw [adjustFront, String.toList_ofList]
    exact fun ended => absurd (List.isEmpty_iff.mpr ended.closed) (by decide +kernel)
  exact ⟨latest ▸ settles, fails ongoing⟩

/-- The document has the command with its parameter only. -/
theorem adjust_misread
    : IsDocument (adjustFront ++ adjustBack).toList
      ∧ ∃ command ∈ (read { name := "gl.xml", api := none } adjustFront).commands,
          ¬ DeclaresCommand (read { name := "gl.xml", api := none } (adjustFront ++ adjustBack))
            command := by
  refine ⟨adjust_isDocument, ?_⟩
  simp only [read, String.toList_append]
  rw [adjustFront, adjustBack, String.toList_ofList, String.toList_ofList]
  decide +kernel

end ApiBindings.Document
