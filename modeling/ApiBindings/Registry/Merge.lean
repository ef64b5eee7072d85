import ApiBindings.Registry.Basic

/-! Merging the records of several sources into one registry.
A name that is declared again with the same value or signature gains what the new declaration
adds. One that is declared differently is a conflict: a feature's declaration wins over any other
one, and otherwise the first declaration stays.
-/

namespace ApiBindings

/-- The declaration of an enumerant as a conflict shows it. -/
def Enumerant.declaration (enumerant : Enumerant) : Declaration where
  declared := .value enumerant.value
  origin := enumerant.origin.text ++ " (" ++ enumerant.source ++ ")"

/-- The declaration of a command as a conflict shows it. -/
def Command.declaration (command : Command) : Declaration where
  declared := .signature command.signature
  origin := command.origin.text ++ " (" ++ command.source ++ ")"

/-- Whether the declaration with the second origin takes the place of one that differs. -/
def Origin.yieldsTo (old new : Origin) : Bool :=
  new.isFeature && !old.isFeature

/-- The origin of two agreeing declarations: the first feature, or else the first of the two. -/
def Origin.merge (old new : Origin) : Origin :=
  if old.yieldsTo new then new else old

/-- Whether the origins settle which of two differing declarations stands. -/
def Settlement.between (old new : Origin) : Settlement :=
  if old.isFeature != new.isFeature then .byFeature else .unresolved

namespace Enumerant

def agrees (old new : Enumerant) : Bool :=
  old.value.bits == new.value.bits

/-- What two declarations of one name make together. All groups of both are kept. -/
def merge (old new : Enumerant) : Enumerant :=
  if agrees old new then
    { old.addGroups new.groups with
      value := { old.value with width := old.value.width.max new.value.width }
      aliasOf := old.aliasOf <|> new.aliasOf
      origin := old.origin.merge new.origin }
  else if old.origin.yieldsTo new.origin then
    new.addGroups old.groups
  else
    old.addGroups new.groups

/-- The conflict between two declarations of one name, if they disagree. -/
def conflict? (old new : Enumerant) : Option Conflict :=
  if agrees old new then
    none
  else
    let newWins := old.origin.yieldsTo new.origin
    some {
      name := new.name
      kind := .enumerant
      kept := (if newWins then new else old).declaration
      rejected := (if newWins then old else new).declaration
      settlement := .between old.origin new.origin
    }

end Enumerant

namespace Command

def agrees (old new : Command) : Bool :=
  old.signature == new.signature

/-- A list with what a second one adds to its elements, as far as that goes. -/
def mergeParams : List Param → List Param → List Param
  | old :: olds, new :: news =>
      { old with group := old.group <|> new.group } :: mergeParams olds news
  | olds, _ => olds

/-- What two declarations of one name make together. -/
def merge (old new : Command) : Command :=
  if agrees old new then
    { old with
      params := mergeParams old.params new.params
      aliasOf := old.aliasOf <|> new.aliasOf
      origin := old.origin.merge new.origin }
  else if old.origin.yieldsTo new.origin then
    new
  else
    old

/-- The conflict between two declarations of one name, if they disagree. -/
def conflict? (old new : Command) : Option Conflict :=
  if agrees old new then
    none
  else
    let newWins := old.origin.yieldsTo new.origin
    some {
      name := new.name
      kind := .command
      kept := (if newWins then new else old).declaration
      rejected := (if newWins then old else new).declaration
      settlement := .between old.origin new.origin
    }

end Command

/-- What two declarations of one extension make together. -/
def Extension.merge (old new : Extension) : Extension :=
  { old with
    supported := new.supported.foldl
      (fun listed api => if listed.contains api then listed else listed ++ [api]) old.supported
    requires := old.requires ++ new.requires }

/-- Adds the blocks of a feature to the feature of the same interface and number, or the feature
itself if there is none. -/
def Feature.addTo (new : Feature) : List Feature → List Feature
  | [] => [new]
  | old :: rest =>
      if old.api = new.api ∧ old.number = new.number then
        { old with
          requires := old.requires ++ new.requires
          removes := old.removes ++ new.removes } :: rest
      else
        old :: new.addTo rest

namespace Registry

/-- What has been merged so far. Memberships that are listed apart wait for the end, since their
enumerants may still be to come. -/
structure Builder where
  api : Api
  enums : Table Enumerant := .empty
  commands : Table Command := .empty
  types : Table TypeDecl := .empty
  features : List Feature := []
  extensions : Table Extension := .empty
  groupMembers : List (String × String) := []
  bitmaskGroups : List String := []
  faults : List Fault := []
  conflicts : List Conflict := []
  deriving Repr

namespace Builder

def addEnumerant (builder : Builder) (new : Enumerant) : Builder :=
  { builder with
    enums := builder.enums.upsert new.name new Enumerant.merge
    conflicts := builder.conflicts ++
      ((builder.enums.find? new.name).bind fun old => old.conflict? new).toList }

def addCommand (builder : Builder) (new : Command) : Builder :=
  { builder with
    commands := builder.commands.upsert new.name new Command.merge
    conflicts := builder.conflicts ++
      ((builder.commands.find? new.name).bind fun old => old.conflict? new).toList }

/-- The first declaration of a type stays, whatever later ones say. -/
def addType (builder : Builder) (new : TypeDecl) : Builder :=
  { builder with types := builder.types.upsert new.name new fun old _ => old }

def addFeature (builder : Builder) (new : Feature) : Builder :=
  { builder with features := new.addTo builder.features }

def addExtension (builder : Builder) (new : Extension) : Builder :=
  { builder with extensions := builder.extensions.upsert new.name new Extension.merge }

/-- Takes in the records of one source: its enumerants first, and then all else. -/
def ingest (builder : Builder) (records : Records) : Builder :=
  let builder := { builder with faults := builder.faults ++ records.faults }
  let builder := records.enums.foldl addEnumerant builder
  let builder := records.commands.foldl addCommand builder
  let builder := records.types.foldl addType builder
  let builder := records.features.foldl addFeature builder
  let builder := records.extensions.foldl addExtension builder
  { builder with
    groupMembers := builder.groupMembers ++ records.groupMembers
    bitmaskGroups := builder.bitmaskGroups ++ records.bitmaskGroups }

/-- Whether a feature comes before another one or has the same place: by interface, in the order
in which these first appear, and by number within one interface. -/
def precedes (apis : List String) (a b : Feature) : Bool :=
  if a.api = b.api then a.number.le b.number else apis.idxOf a.api ≤ apis.idxOf b.api

/-- Puts the features in order and the enumerants into the groups that list them. -/
def finish (builder : Builder) : Registry where
  api := builder.api
  enums := builder.groupMembers.foldl
    (fun enums (group, name) => enums.modify name fun enumerant => enumerant.addGroup group)
    builder.enums
  commands := builder.commands
  types := builder.types
  features :=
    builder.features.mergeSort (precedes (builder.features.map Feature.api).eraseDups)
  extensions := builder.extensions
  bitmaskGroups := builder.bitmaskGroups
  faults := builder.faults
  conflicts := builder.conflicts

end Builder

/-- The registry of all the records, taken in in their order. -/
def ofRecords (api : Api) (records : List Records) : Registry :=
  (records.foldl Builder.ingest { api }).finish

end Registry

end ApiBindings
