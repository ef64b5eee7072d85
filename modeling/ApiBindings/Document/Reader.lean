import ApiBindings.Document.Attribution
import ApiBindings.Document.Interface
import ApiBindings.Markup.Library

/-! Reading a whole registry document. -/

namespace ApiBindings.Document

open ApiBindings.Markup

/-- Reads one of the sections of a registry. Sections of any other name are passed over. -/
def readSection (source : Source) (scope : Constant.Scope) (element : Element)
    : Findings × Constant.Scope :=
  if element.name = "types" then
    (.join ((element.named "type").map (readType source)), scope)
  else if element.name = "enums" then
    readEnums source scope element
  else if element.name = "groups" then
    (.join ((element.named "group").map (readGroup source)), scope)
  else if element.name = "commands" then
    (.join ((element.named "command").map (readCommand source)), scope)
  else if element.name = "feature" then
    readFeature source scope element
  else if element.name = "extensions" then
    Findings.collect (readExtension source) scope (element.named "extension")
  else
    ({}, scope)

/-- What a registry element holds. -/
def readRegistry (source : Source) (registry : Element) : Findings :=
  (Findings.collect (readSection source) Constant.Scope.initial registry.elements).1

/-- What a document holds: the first registry element in it. -/
def readTree (source : Source) (document : Element) : Findings :=
  match document.child? "registry" with
  | some registry => readRegistry source registry
  | none => source.fault document "document" .noRegistry

/-- The fault of a document that ended in an error. -/
def malformed (source : Source) (line : Option Nat) : Findings :=
  match line with
  | none => {}
  | some line =>
      .fault { input := source.name, element := "document", problem := .malformed, line }

/-- Reads the text of a document. Whatever stands before an error in it is kept. -/
def read [Library] (source : Source) (text : String) : Records :=
  let reading := Library.read text.toList
  let found := malformed source reading.fault ++ readTree source (Element.ofEvents reading.events)
  { toFindings := found.attributeOrigins, source := source.name }

end ApiBindings.Document
