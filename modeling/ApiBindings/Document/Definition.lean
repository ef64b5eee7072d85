import ApiBindings.Constant.Reader
import ApiBindings.Markup.Element
import ApiBindings.Records

/-! The elements of a registry document that define symbols: types, enumerants and commands.
Every reader is lenient. An element that cannot be read becomes a fault, and one that belongs to
another interface is passed over as if it were not there.
-/

namespace ApiBindings.Document

open ApiBindings.Markup

/-- What the reading of one document depends on: its name, which every fault and record carries,
and the interface that it is read for. -/
structure Source where
  name : String
  api : Option String
  deriving DecidableEq, Repr

/-- The entries of a list whose separators satisfy `isCut`, without the blanks around them. -/
def entries (isCut : Char → Bool) (list : String) : List String :=
  (Text.cut isCut list.toList).map fun entry => String.ofList (Text.trim entry)

/-- Whether an `api` attribute that lists interfaces names the given one. -/
def lists (list api : String) : Bool :=
  (entries (fun c => c == ',' || c == '|') list).contains api

namespace Source

/-- Whether an element is for the interface that the document is read for. An element without an
`api` attribute is for all of them, and so is every element when no interface was chosen. -/
def allows (source : Source) (element : Element) : Bool :=
  match element.attribute? "api", source.api with
  | some list, some api => lists list api
  | _, _ => true

def fault (source : Source) (element : Element) (label : String) (problem : Problem) : Findings :=
  .fault { input := source.name, element := label, problem, line := some element.tag.line }

end Source

/-- An attribute that is given and not empty. -/
def nonempty? (element : Element) (name : String) : Option String :=
  (element.attribute? name).filter (· ≠ "")

/-- The name of a type: its attribute, or else the text of its first `name` element. -/
def typeName? (element : Element) : Option String :=
  (element.attribute? "name" <|> (element.child? "name").map Element.text).filter (· ≠ "")

def readType (source : Source) (element : Element) : Findings :=
  match source.allows element, typeName? element with
  | true, some name => { types := [{ name, c := element.text, source := source.name }] }
  | _, _ => {}

/-- The value that an element gives as an expression or, failing that, as the place of a bit. -/
def value? (scope : Constant.Scope) (element : Element) : Except Problem Value :=
  match element.attribute? "value", element.attribute? "bitpos" with
  | some text, _ =>
      match scope.eval? text.toList with
      | some value => .ok value
      | none => .error (.unreadableValue text)
  | none, some text =>
      match Text.count? 64 (Text.trim text.toList) with
      | some bit => .ok (Value.ofBits (1 <<< bit))
      | none => .error (.unreadableBit text)
  | none, none => .error (.missingAttribute "value")

/-- A value whose element asks for 64 bits by its type. -/
def widened (element : Element) (value : Value) : Value :=
  if element.attribute? "type" = some "ull" then { value with width := .wide } else value

/-- The groups of an enumerant: that of its block, and those that it lists itself. -/
def groupsOf (element : Element) (blockGroup : Option String) : List String :=
  blockGroup.toList ++ entries (· == ',') ((element.attribute? "group").getD "")

/-- Reads an element that defines an enumerant. Its value is known to the elements behind it. -/
def readEnumerant (source : Source) (blockGroup : Option String) (origin : Origin)
    (scope : Constant.Scope) (element : Element)
    : Findings × Constant.Scope :=
  if !source.allows element then
    ({}, scope)
  else
    match nonempty? element "name" with
    | none => (source.fault element "enum" (.missingAttribute "name"), scope)
    | some name =>
        match value? scope element with
        | .error problem => (source.fault element ("enum " ++ name) problem, scope)
        | .ok value =>
            let value := widened element value
            let declared := (Enumerant.declare name value origin source.name).addGroups
              (groupsOf element blockGroup)
            ({ enums := [{ declared with aliasOf := element.attribute? "alias" }] },
              scope.define name value)

/-- Reads a block of enumerants, which may put all of them into one group. -/
def readEnums (source : Source) (scope : Constant.Scope) (element : Element)
    : Findings × Constant.Scope :=
  let group := nonempty? element "group"
  let isBitmask := element.attribute? "type" = some "bitmask"
  let (found, scope) :=
    Findings.collect (readEnumerant source group .unattributed) scope (element.named "enum")
  ({ bitmaskGroups := if isBitmask then group.toList else [] } ++ found, scope)

/-- Reads a list of the members of a group, which is kept apart from the enumerants. -/
def readGroup (source : Source) (element : Element) : Findings :=
  match element.attribute? "name" with
  | none => source.fault element "group" (.missingAttribute "name")
  | some group =>
      let members := (element.named "enum").filterMap fun member => member.attribute? "name"
      { groupMembers := members.map fun member => (group, member) }

/-- The C type of a parameter. Arrays decay: each pair of brackets stands for one star. -/
def paramType (element : Element) : String :=
  let text := textOfNodes (some "name") element.children
  let base := Text.collapse (text.takeWhile (· != '['))
  String.ofList (base ++ (List.replicate (text.count '[') " *".toList).flatten)

/-- Reads one parameter, the first having the position one. -/
def readParam (position : Nat) (element : Element) : Except Problem Param :=
  let name := ((element.child? "name").map Element.text).getD ""
  let type := paramType element
  if name = "" then
    .error (.unnamedParameter position)
  else if type = "" then
    .error (.untypedParameter name)
  else
    .ok { Param.declare name type with
      group := element.attribute? "group"
      length := element.attribute? "len"
    }

/-- The elements of a list with their positions, the first having the position one. -/
def numbered (elements : List Element) : List (Nat × Element) :=
  elements.mapIdx fun index element => (index + 1, element)

/-- Reads the parameters of a command: all of them, or the fault of each that is unusable. -/
def readParams (source : Source) (label : String) (elements : List Element)
    : Findings × List Param :=
  let read := (numbered elements).map fun (position, element) =>
    (element, readParam position element)
  let faults := read.map fun (element, outcome) =>
    match outcome with
    | .ok _ => {}
    | .error problem => source.fault element label problem
  (Findings.join faults, read.filterMap fun (_, outcome) => outcome.toOption)

/-- The name and the return type of a command, from its prototype. -/
def readPrototype (proto : Element) : Except Problem (String × String) :=
  match ((proto.child? "name").map Element.text).filter (· ≠ "") with
  | none => .error .noCommandName
  | some name => .ok (name, proto.textOutside (some "name"))

/-- Reads a command. It is dropped as a whole if its prototype or a parameter is unusable. -/
def readCommand (source : Source) (element : Element) : Findings :=
  if !source.allows element then
    {}
  else
    match element.child? "proto" with
    | none => source.fault element "command" .noPrototype
    | some proto =>
        match readPrototype proto with
        | .error problem => source.fault element "command" problem
        | .ok (name, returns) =>
            let label := "command " ++ name
            if returns = "" then
              source.fault element label .noReturnType
            else
              let elements := (element.named "param").filter source.allows
              let (faults, params) := readParams source label elements
              if faults.faults.isEmpty then
                {
                  commands := [{ Command.declare name returns params .unattributed source.name with
                    returnGroup := proto.attribute? "group"
                    aliasOf := (element.child? "alias").bind fun other => other.attribute? "name"
                  }]
                }
              else
                faults

end ApiBindings.Document
