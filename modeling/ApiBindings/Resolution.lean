import ApiBindings.Profile
import ApiBindings.Registry.Basic

/-! The symbols that a profile selects from a registry.
Resolution walks the blocks of the selected features and then of the selected extensions. Each
block requires or removes the symbols it names, and a symbol is active if the last thing that
happened to it was not a removal.
-/

namespace ApiBindings

/-- A feature or extension that names a symbol in one of its blocks. -/
inductive Requirer where
  | feature (name : String) (number : Version)
  | extension (name : String)
  deriving DecidableEq, Repr

def Requirer.name : Requirer → String
  | feature name _ => name
  | extension name => name

/-- Who requires a symbol and who removes it, each once, in the order of the walk. -/
structure Mentions where
  requiredBy : List Requirer := []
  removedBy : List Requirer := []
  deriving DecidableEq, Repr

/-- What the walk has found out about one symbol. -/
structure SymbolState where
  mentions : Mentions := {}
  isActive : Bool := false
  deriving DecidableEq, Repr

/-- What a block does to the symbols it names. -/
inductive Action where
  | require
  | remove (honored : Bool)
  deriving DecidableEq, Repr

namespace SymbolState

def addOnce (requirer : Requirer) (requirers : List Requirer) : List Requirer :=
  if requirers.contains requirer then requirers else requirers ++ [requirer]

/-- A removal that is not honored is noted and changes nothing else. -/
def act (requirer : Requirer) (action : Action) (state : SymbolState) : SymbolState :=
  match action with
  | .require => {
      mentions := { state.mentions with
        requiredBy := addOnce requirer state.mentions.requiredBy }
      isActive := true
    }
  | .remove honored => {
      mentions := { state.mentions with
        removedBy := addOnce requirer state.mentions.removedBy }
      isActive := state.isActive && !honored
    }

end SymbolState

/-- A block on the walk, with the feature or extension that it belongs to. -/
structure Visit where
  requirer : Requirer
  action : Action
  block : InterfaceBlock
  deriving DecidableEq, Repr

namespace Visit

/-- The blocks of a feature that a profile visits: first those that require, then those that
remove. -/
def ofFeature (profile : Profile) (feature : Feature) : List Visit :=
  let requirer := Requirer.feature feature.name feature.number
  (feature.requires.filter profile.takesBlock).map (fun block =>
    { requirer, action := .require, block })
  ++ (feature.removes.filter profile.notesRemoval).map fun block =>
    { requirer, action := .remove (profile.honorsRemovals && profile.takesBlock block), block }

def ofExtension (profile : Profile) (extension : Extension) : List Visit :=
  (extension.requires.filter profile.takesBlock).map fun block =>
    { requirer := .extension extension.name, action := .require, block }

/-- The names of a list that a table does not have, each once. -/
def missing {α : Type} (table : Table α) (names : List String) : List String :=
  (names.filter fun name => !table.contains name).eraseDups

/-- The references of a block to symbols that no source declared. -/
def unresolved (registry : Registry) (visit : Visit) : List UnresolvedReference :=
  let referencedBy := visit.requirer.name
  (missing registry.enums visit.block.enums).map (fun symbol =>
    { symbol, kind := .enumerant, referencedBy })
  ++ (missing registry.commands visit.block.commands).map fun symbol =>
    { symbol, kind := .command, referencedBy }

end Visit

/-- A symbol with what the walk has found out about it. -/
abbrev Tracked (α : Type) : Type :=
  α × SymbolState

/-- Every symbol of a table before the walk. -/
def Table.track {α : Type} (table : Table α) : Table (Tracked α) :=
  table.map fun _ symbol => (symbol, {})

/-- Acts on every symbol of a list of names; unknown names change nothing. -/
def Table.actOn {α : Type} (visit : Visit) (table : Table (Tracked α)) (names : List String)
    : Table (Tracked α) :=
  names.foldl
    (fun table name =>
      table.modify name fun (symbol, state) =>
        (symbol, state.act visit.requirer visit.action))
    table

/-- The active symbols of a table, in its order. -/
def Table.active {α : Type} (table : Table (Tracked α)) : Table (α × Mentions) :=
  table.filterMap fun (symbol, state) =>
    if state.isActive then some (symbol, state.mentions) else none

/-- The symbols that a profile selects. -/
structure Resolution where
  registry : Registry
  profile : Profile
  /-- The selected features, by interface and number. -/
  features : List Feature
  /-- The selected extensions, in the order of the registry. -/
  extensions : List Extension
  enums : Table (Enumerant × Mentions)
  commands : Table (Command × Mentions)
  unresolved : List UnresolvedReference
  deriving Repr

namespace Registry

/-- The blocks that a profile visits, in the order of the walk. -/
def visits (registry : Registry) (profile : Profile) : List Visit :=
  (registry.features.filter profile.takesFeature).flatMap (Visit.ofFeature profile)
  ++ (registry.extensions.values.filter profile.takesExtension).flatMap
      (Visit.ofExtension profile)

/-- Selects the symbols of a profile. A name that stands for nothing never stops the walk. -/
def resolve (registry : Registry) (profile : Profile) : Resolution :=
  let visits := registry.visits profile
  {
    registry, profile
    features := registry.features.filter profile.takesFeature
    extensions := registry.extensions.values.filter profile.takesExtension
    enums := (visits.foldl (fun table visit => table.actOn visit visit.block.enums)
      registry.enums.track).active
    commands := (visits.foldl (fun table visit => table.actOn visit visit.block.commands)
      registry.commands.track).active
    unresolved := visits.flatMap (Visit.unresolved registry)
  }

end Registry

namespace Resolution

def activeEnums (resolution : Resolution) : List Enumerant :=
  resolution.enums.values.map Prod.fst

def activeCommands (resolution : Resolution) : List Command :=
  resolution.commands.values.map Prod.fst

/-- The groups of the active enumerants in alphabetical order, each with its members. An enumerant
is entered once for every time that it names the group. -/
def groups (resolution : Resolution) : List (String × List Enumerant) :=
  let active := resolution.activeEnums
  let names := (active.flatMap Enumerant.groups).eraseDups.mergeSort fun a b => decide (a ≤ b)
  names.map fun group =>
    (group, active.flatMap fun enumerant =>
      List.replicate (enumerant.groups.count group) enumerant)

end Resolution

end ApiBindings
