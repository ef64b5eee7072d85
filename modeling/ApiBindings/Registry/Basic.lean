import ApiBindings.Api
import ApiBindings.Records
import ApiBindings.Table

/-! The merged model of one interface. -/

namespace ApiBindings

/-- What the sources of an interface declare together. -/
structure Registry where
  api : Api
  enums : Table Enumerant
  commands : Table Command
  types : Table TypeDecl
  features : List Feature
  extensions : Table Extension
  bitmaskGroups : List String
  faults : List Fault
  conflicts : List Conflict
  deriving Repr

namespace Registry

def isBitmaskGroup (registry : Registry) (group : String) : Bool :=
  registry.bitmaskGroups.contains group

/-- The commands that are declared to be the same as the given one. -/
def aliases (registry : Registry) (command : String) : List String :=
  (registry.commands.values.filter fun other => other.aliasOf == some command).map Command.name

/-- Whether the sources had nothing wrong and never disagreed. -/
def isClean (registry : Registry) : Bool :=
  registry.faults.isEmpty && registry.conflicts.isEmpty

def unresolvedConflicts (registry : Registry) : List Conflict :=
  registry.conflicts.filter Conflict.isUnresolved

/-- The bitmask groups that have enumerants, in alphabetical order. -/
def usedBitmaskGroups (registry : Registry) : List String :=
  ((registry.enums.values.flatMap Enumerant.groups).filter registry.isBitmaskGroup).eraseDups
    |>.mergeSort fun a b => decide (a ≤ b)

end Registry

end ApiBindings
