import ApiBindings.Document.Definition

/-! The elements of a registry document that select symbols: features, extensions and the blocks
in them. A block may also define enumerants; these belong to the feature or extension around it.
-/

namespace ApiBindings.Document

open ApiBindings.Markup

/-- The items of a block that are for the chosen interface. -/
def blockItems (source : Source) (block : Element) : List Element :=
  block.elements.filter fun item =>
    (item.name == "enum" || item.name == "command" || item.name == "type") && source.allows item

/-- The names that a block's items of one kind refer to. -/
def references (source : Source) (block : Element) (kind : String) : List String :=
  ((blockItems source block).filter fun item => item.name == kind).filterMap fun item =>
    nonempty? item "name"

def readBlock (source : Source) (block : Element) : InterfaceBlock where
  profile := block.attribute? "profile"
  api := block.attribute? "api"
  enums := references source block "enum"
  commands := references source block "command"
  types := references source block "type"

/-- Whether an item gives a value and so is a definition as well as a reference. -/
def isDefinition (item : Element) : Bool :=
  item.name == "enum"
    && ((item.attribute? "value").isSome || (item.attribute? "bitpos").isSome)

/-- What an item of a block declares or is at fault for. -/
def readItem (source : Source) (origin : Origin) (scope : Constant.Scope) (item : Element)
    : Findings × Constant.Scope :=
  if (nonempty? item "name").isNone then
    (source.fault item item.name (.missingAttribute "name"), scope)
  else if isDefinition item then
    readEnumerant source (item.attribute? "extends") origin scope item
  else
    ({}, scope)

def readItems (source : Source) (origin : Origin) (scope : Constant.Scope) (block : Element)
    : Findings × Constant.Scope :=
  Findings.collect (readItem source origin) scope (blockItems source block)

/-- The blocks of a feature or extension that are for the chosen interface. -/
def blocks (source : Source) (element : Element) (kinds : List String) : List Element :=
  element.elements.filter fun block => kinds.contains block.name && source.allows block

/-- Reads a feature; it needs an interface, a name and a number. -/
def readFeature (source : Source) (scope : Constant.Scope) (element : Element)
    : Findings × Constant.Scope :=
  if !source.allows element then
    ({}, scope)
  else
    match element.attribute? "api", element.attribute? "name", element.attribute? "number" with
    | some api, some name, some text =>
        match Version.parse? text with
        | none => (source.fault element ("feature " ++ name) (.unreadableNumber text), scope)
        | some number =>
            let origin := Origin.feature api name number
            let (found, scope) := Findings.collect (readItems source origin) scope
              (blocks source element ["require", "remove"])
            let feature : Feature := {
              api, name, number
              requires := (blocks source element ["require"]).map (readBlock source)
              removes := (blocks source element ["remove"]).map (readBlock source)
            }
            (found ++ { features := [feature] }, scope)
    | _, _, _ => (source.fault element "feature" .incompleteFeature, scope)

/-- Reads an extension. Its own `api` attribute, if it has one, does not count. -/
def readExtension (source : Source) (scope : Constant.Scope) (element : Element)
    : Findings × Constant.Scope :=
  match nonempty? element "name" with
  | none => (source.fault element "extension" (.missingAttribute "name"), scope)
  | some name =>
      let required := blocks source element ["require"]
      let (found, scope) := Findings.collect (readItems source (.extension name)) scope required
      let supported := entries (· == '|') ((element.attribute? "supported").getD "")
      let extension : Extension := {
        name
        supported := supported.filter (· ≠ "")
        requires := required.map (readBlock source)
      }
      (found ++ { extensions := [extension] }, scope)

end ApiBindings.Document
