import ApiBindings.CType
import ApiBindings.Origin
import ApiBindings.Value
import ApiBindings.Vendor

/-! The symbols of an interface: enumerants, commands and types, as one source declares them. -/

namespace ApiBindings

/-- A named integer constant. -/
structure Enumerant where
  name : String
  value : Value
  /-- The groups it belongs to, in the order in which they were first named. -/
  groups : List String
  suffix : Option String
  aliasOf : Option String
  origin : Origin
  source : String
  deriving DecidableEq, Repr

namespace Enumerant

def declare (name : String) (value : Value) (origin : Origin) (source : String) : Enumerant :=
  {
    name, value, origin, source
    groups := []
    suffix := Vendor.suffix? name
    aliasOf := none
  }

/-- Adds a group unless it has no name or is there already. -/
def addGroup (enumerant : Enumerant) (group : String) : Enumerant :=
  if group = "" ∨ group ∈ enumerant.groups then
    enumerant
  else
    { enumerant with groups := enumerant.groups ++ [group] }

def addGroups (enumerant : Enumerant) (groups : List String) : Enumerant :=
  groups.foldl addGroup enumerant

end Enumerant

structure Param where
  name : String
  /-- The C type as it was declared. -/
  type : String
  group : Option String
  length : Option String
  passing : Passing
  deriving DecidableEq, Repr

def Param.declare (name type : String) : Param :=
  { name, type, group := none, length := none, passing := (CType.parse type).passing }

/-- A function of the interface. -/
structure Command where
  name : String
  params : List Param
  returns : String
  returnGroup : Option String
  aliasOf : Option String
  suffix : Option String
  origin : Origin
  source : String
  deriving DecidableEq, Repr

namespace Command

def declare (name returns : String) (params : List Param) (origin : Origin) (source : String)
    : Command :=
  {
    name, returns, params, origin, source
    returnGroup := none
    aliasOf := none
    suffix := Vendor.suffix? name
  }

/-- The return type and the parameter types; the names of the parameters take no part. -/
def signature (command : Command) : String :=
  command.returns ++ " (" ++ ", ".intercalate (command.params.map Param.type) ++ ")"

end Command

/-- A C type declaration, kept as text. -/
structure TypeDecl where
  name : String
  c : String
  source : String
  deriving DecidableEq, Repr

inductive SymbolKind where
  | enumerant
  | command
  deriving DecidableEq, Repr

def SymbolKind.text : SymbolKind → String
  | enumerant => "enum"
  | command => "command"

end ApiBindings
