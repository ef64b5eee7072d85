import ApiBindings.Proofs.Merging.Ties
import ApiBindings.Proofs.Reading.CommandElements
import ApiBindings.Proofs.Reading.Commands

/-! A prototype is the same command in a header and in a document.
Both readers collapse its types and make a star of each array length, so the signatures are the same
text and the two records merge without a conflict.
-/

namespace ApiBindings

open ApiBindings.Text
open ApiBindings.Header
open ApiBindings.Document

-----------------------------------------------------------------------------------------
-- Signatures
-----------------------------------------------------------------------------------------

theorem types_eq_of_sameParam {params others : List Param}
    (same : List.Forall₂ SameParam params others)
    : params.map Param.type = others.map Param.type := by
  induction same with
  | nil => rfl
  | cons here later ih => rw [List.map_cons, List.map_cons, here.2.1, ih]

/-- A signature is made of the types alone. -/
theorem signature_eq_of_sameParam {command other : Command}
    (returns : command.returns = other.returns)
    (same : List.Forall₂ SameParam command.params other.params)
    : command.signature = other.signature := by
  rw [Command.signature, returns, types_eq_of_sameParam same, Command.signature]

namespace Registry

/-- Sources whose only symbols are commands of one signature have no conflicts. -/
theorem conflicts_eq_nil_of_signature (api : Api) {sources : List Records} {signature : String}
    (enums : ∀ source ∈ sources, source.enums = [])
    (commands : ∀ source ∈ sources, ∀ command ∈ source.commands, command.signature = signature)
    : (ofRecords api sources).conflicts = [] := by
  have content {name : String} {command : Command}
      (member : command ∈ commandDeclarations sources name)
      : Command.mergeRule.content command = .signature signature := by
    obtain ⟨source, among, inside⟩ := List.mem_flatMap.mp (List.mem_filter.mp member).1
    exact congrArg Content.signature (commands source among command inside)
  refine conflicts_eq_nil api (fun name one member => ?_) fun name one member other among => ?_
  · obtain ⟨source, among, inside⟩ := List.mem_flatMap.mp (List.mem_filter.mp member).1
    rw [enums source among] at inside
    cases inside
  · rw [content member, content among]

-----------------------------------------------------------------------------------------
-- Readings
-----------------------------------------------------------------------------------------

/-- A marked prototype in a header and the element of the same text in a document are read as the
same command, and merging the two records finds no conflict.
-/
theorem readings_agree {mark : List Char} {function : Function} (proper : function.IsProper)
    (marks : Marks mark function) {dialect : Dialect} {others : List Marker}
    (markers : dialect.markers = .literal mark :: others)
    (absent
      : ∀ other ∈ others,
          other.isIn ((Marker.literal mark).blank (collapse (marked mark function))) = false)
    {fragment : Fragment} {declaration : List Char}
    (written : fragment.text.toList = declaration ++ [';'])
    (layout : words declaration = words (marked mark function))
    {source : Source} {document element : Markup.Element}
    (only : HoldsOnly document "commands" "command" element)
    (spells : SpellsFunction source element function) (fault : Option Nat)
    : let header := Header.read dialect [fragment]
      let registry := Document.records source fault document
      ∃ ofHeader ofDocument,
        header.commands = [ofHeader]
        ∧ registry.commands = [ofDocument]
        ∧ ofHeader.name = String.ofList function.name
        ∧ ofDocument.name = ofHeader.name
        ∧ ofDocument.signature = ofHeader.signature
        ∧ List.Forall₂ SameParam ofHeader.params ofDocument.params
        ∧ ∀ api,
            (ofRecords api [header, registry]).conflicts = []
            ∧ (ofRecords api [registry, header]).conflicts = [] := by
  intro header registry
  obtain ⟨noEnums, inHeader⟩ := read_marked marks proper markers absent written layout
  obtain ⟨command, read, name, returns, params⟩ := readCommand_spelled proper spells
  obtain ⟨alone, origin, inDocument⟩ := only.records_command read fault
  have signature
      : (function.declared (fragment.role.origin dialect.api) fragment.name).signature
        = { command with origin }.signature :=
    signature_eq_of_sameParam returns.symm params
  refine ⟨_, _, inHeader, inDocument, rfl, name, signature.symm, params, fun api => ?_⟩
  have headerEnums : header.enums = [] := noEnums
  have registryEnums : registry.enums = [] := alone
  have headerCommands
      : ∀ declared ∈ header.commands, declared.signature = { command with origin }.signature := by
    rw [inHeader]
    exact List.forall_mem_singleton.mpr signature
  have registryCommands
      : ∀ declared ∈ registry.commands, declared.signature = { command with origin }.signature := by
    rw [inDocument]
    exact List.forall_mem_singleton.mpr rfl
  constructor
  · exact conflicts_eq_nil_of_signature api (by simp [headerEnums, registryEnums])
      (List.forall_mem_cons.mpr ⟨headerCommands, List.forall_mem_singleton.mpr registryCommands⟩)
  · exact conflicts_eq_nil_of_signature api (by simp [headerEnums, registryEnums])
      (List.forall_mem_cons.mpr ⟨registryCommands, List.forall_mem_singleton.mpr headerCommands⟩)

-----------------------------------------------------------------------------------------
-- A function with arrays
-----------------------------------------------------------------------------------------

/-- A function of two parameters, one of them an array of arrays. -/
def copyName : Function where
  returns := "const vx_char *".toList
  name := "vxCopyName".toList
  params := [
    { type := "vx_uint32 ".toList, name := "sizes".toList, lengths := ["2".toList, "N".toList] },
    { type := "const void *".toList, name := "data".toList, lengths := [] }
  ]

def copyNameHeader : Fragment where
  name := "vx_api.h"
  role := .feature { major := 1, minor := 0 }
  text := "VX_API_ENTRY const vx_char *vxCopyName(vx_uint32 sizes[2][N], const void *data);"

/-- An element of a name, with nothing but nodes in it. -/
def plainNode (name : String) (children : List Markup.Node) : Markup.Node :=
  .element { name, attributes := [], line := 1 } children

/-- The same function with its names marked up. -/
def copyNameElement : Markup.Element where
  tag := { name := "command", attributes := [], line := 1 }
  children := [
    plainNode "proto" [
      .text "const ", plainNode "ptype" [.text "vx_char"], .text " *",
      plainNode "name" [.text "vxCopyName"]
    ],
    plainNode "param" [
      plainNode "ptype" [.text "vx_uint32"], .text " ", plainNode "name" [.text "sizes"],
      .text "[2][N]"
    ],
    plainNode "param" [.text "const void *", plainNode "name" [.text "data"]]
  ]

def copyNameDocument : Markup.Element where
  tag := { name := "#document", attributes := [], line := 0 }
  children := [
    plainNode "registry" [
      plainNode "commands" [.element copyNameElement.tag copyNameElement.children]
    ]
  ]

theorem frontsName_of_cons {type : List Char} {c : Char} {rest : List Char}
    (shape : type = c :: rest) (word : isBlank c = false)
    (chars : IsTypeText type) (ends : EndsBefore type)
    : FrontsName type where
  chars := chars
  starts := ⟨c, rest, shape, word⟩
  ends := ends

theorem copyName_isProper : copyName.IsProper where
  returns := frontsName_of_cons rfl (by decide) (by decide) (by decide)
  name := by decide
  params := by
    refine List.forall_mem_cons.mpr ⟨?_, List.forall_mem_singleton.mpr ?_⟩
    · exact ⟨frontsName_of_cons rfl (by decide) (by decide) (by decide), by decide, by decide,
        by decide, by decide⟩
    · exact ⟨frontsName_of_cons rfl (by decide) (by decide) (by decide), by decide, by decide,
        by decide, by decide⟩

/-- A text that starts at no later place is found at the front only. -/
theorem front_eq_nil {mark whole front back : List Char}
    (apart : ∀ count ∈ List.range' 1 whole.length, strip? mark (whole.drop count) = none)
    (found : whole = front ++ (mark ++ back))
    : front = [] := by
  refine List.eq_nil_of_length_eq_zero (Nat.eq_zero_of_not_pos fun later => ?_)
  have within : front.length ∈ List.range' 1 whole.length := by
    rw [List.mem_range'_1, found, List.length_append]
    omega
  have missing := apart _ within
  rw [found, List.drop_left, strip?_append] at missing
  cases missing

theorem copyName_marks : Marks "VX_API_ENTRY ".toList copyName where
  spelled := .inr (by decide)
  nonempty := by decide
  statement := by decide
  first := by decide
  once := fun _ _ => front_eq_nil (by decide +kernel)

theorem copyName_spelled : SpellsFunction { name := "vx.xml", api := none } copyNameElement copyName where
  allowed := rfl
  proto := ⟨_, rfl, rfl, rfl⟩
  params := .cons ⟨rfl, rfl⟩ (.cons ⟨rfl, rfl⟩ .nil)

/-- What the other markers of the header are looked for in. -/
theorem copyName_unmarked
    : ∀ other ∈ [Marker.literal "VX_API_CALL ".toList],
        other.isIn ((Marker.literal "VX_API_ENTRY ".toList).blank
          (collapse (marked "VX_API_ENTRY ".toList copyName))) = false := by
  decide +kernel

theorem copyName_readings_agree
    : let header := Header.read { api := .vx, markers := [
          .literal "VX_API_ENTRY ".toList, .literal "VX_API_CALL ".toList] } [copyNameHeader]
      let registry := Document.records { name := "vx.xml", api := none } none copyNameDocument
      ∃ ofHeader ofDocument,
        header.commands = [ofHeader]
        ∧ registry.commands = [ofDocument]
        ∧ ofHeader.name = "vxCopyName"
        ∧ ofDocument.name = ofHeader.name
        ∧ ofDocument.signature = ofHeader.signature
        ∧ List.Forall₂ SameParam ofHeader.params ofDocument.params
        ∧ ∀ api,
            (ofRecords api [header, registry]).conflicts = []
            ∧ (ofRecords api [registry, header]).conflicts = [] :=
  -- The signs of the literal, which would be decoded again at each step otherwise.
  have text : copyNameHeader.text.toList = _ := String.toList_ofList
  have written : copyNameHeader.text.toList = copyNameHeader.text.toList.dropLast ++ [';'] := by
    rw [text]
    decide
  have layout
      : words copyNameHeader.text.toList.dropLast = words (marked "VX_API_ENTRY ".toList copyName) := by
    rw [text]
    decide +kernel
  readings_agree copyName_isProper copyName_marks rfl copyName_unmarked written layout
    ⟨_, _, rfl, rfl, rfl, rfl⟩ copyName_spelled none

-----------------------------------------------------------------------------------------
-- A marker that is never found
-----------------------------------------------------------------------------------------

/-- A prototype that is marked by nothing but `extern`. -/
def externHeader : Fragment where
  name := "gl.h"
  role := .feature { major := 1, minor := 0 }
  text := "extern void glFlush(GLint mode);"

def externDocument : Markup.Element where
  tag := { name := "#document", attributes := [], line := 0 }
  children := [
    plainNode "registry" [
      plainNode "commands" [
        plainNode "command" [
          plainNode "proto" [.text "void ", plainNode "name" [.text "glFlush"]],
          plainNode "param" [.text "GLint ", plainNode "name" [.text "mode"]]
        ]
      ]
    ]
  ]

/-- The word `extern` is dropped before markers are looked for, so it marks nothing. -/
theorem extern_marks_nothing
    : (Header.read { api := .gl, markers := [.literal "extern ".toList] } [externHeader]).commands = []
      ∧ (Document.records { name := "gl.xml", api := none } none externDocument).commands ≠ [] := by
  decide +kernel

end Registry

end ApiBindings
