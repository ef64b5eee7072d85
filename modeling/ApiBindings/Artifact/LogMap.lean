import ApiBindings.Context
import ApiBindings.Markup.Library

/-! The log map: for every active command, how a logger of calls should show what it returns and
the parameters that need more than a number.
-/

namespace ApiBindings.Artifact

open ApiBindings.Markup

/-- The base types of texts. -/
def charTypes : List String :=
  ["GLchar", "GLcharARB", "char", "vx_char", "EGLchar"]

def endsWith (text ending : String) : Bool :=
  ending.toList.isSuffixOf text.toList

/-- How a parameter is to be shown, as words between bars. -/
def paramFlags (isBitmaskGroup : String → Bool) (param : Param) : String :=
  let type := CType.parse param.type
  let isBitmask := param.group.any isBitmaskGroup || endsWith type.baseName "bitfield"
  let isEnum := param.group.isSome || type.baseName == "GLenum"
  let isText := type.depth == 1 && param.passing == .input && charTypes.contains type.baseName
  "|".intercalate <|
    (if type.depth ≠ 0 then [] else if isBitmask then ["bitmask"] else if isEnum then ["enum"]
      else [])
    ++ (if isText then ["string"] else [])
    ++ (if param.passing = .output then ["out"] else [])

/-- How the result of a command is to be shown. -/
def returnFlags (isBitmaskGroup : String → Bool) (command : Command) : String :=
  let type := CType.parse command.returns
  if type.depth = 1 ∧ (charTypes.contains type.baseName ∨ type.baseName = "GLubyte") then "string"
  else if type.depth ≠ 0 then ""
  else if command.returnGroup.any isBitmaskGroup then "bitmask"
  else if command.returnGroup.isSome || type.baseName == "GLenum" then "enum"
  else ""

/-- An attribute, unless it has no value. -/
def optional (name : String) (value : Option String) : List (String × String) :=
  value.toList.map fun text => (name, text)

def node (name : String) (attributes : List (String × String)) (children : List Node) : Node :=
  .element { name, attributes, line := 0 } children

def paramNode? (isBitmaskGroup : String → Bool) (index : Nat) (param : Param) : Option Node :=
  let flags := paramFlags isBitmaskGroup param
  if flags = "" then
    none
  else
    let attributes := [("index", toString index), ("name", param.name), ("flags", flags)]
    some (node "param" (attributes ++ optional "group" param.group) [])

def commandNode (isBitmaskGroup : String → Bool) (command : Command) : Node :=
  let returns := returnFlags isBitmaskGroup command
  let attributes := [("name", command.name)]
    ++ (if returns = "" then [] else [("return", returns)])
    ++ optional "return-group" command.returnGroup
  let params := command.params.mapIdx (paramNode? isBitmaskGroup)
  node "command" attributes (params.filterMap id)

/-- The root of a log map, with one element for every active command. -/
def logMapNode (context : Context) (resolution : Resolution) : Node :=
  let attributes := [
    ("api", context.api.title),
    ("class", context.outputClass),
    ("profile", resolution.profile.name)
  ]
  node "khronos-log-map" attributes
    (resolution.activeCommands.map (commandNode resolution.registry.isBitmaskGroup))

def logMap [Library] (context : Context) (resolution : Resolution) : String :=
  Library.write (logMapNode context resolution)

end ApiBindings.Artifact
