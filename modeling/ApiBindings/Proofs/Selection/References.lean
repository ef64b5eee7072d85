import ApiBindings.Proofs.Selection.Events
import Mathlib.Data.List.Forall2

/-! What resolution reports of the names that blocks refer to.
Every name in a block on the walk is either known, and then it is noted who refers to it, or it is
reported once for that block. What is unknown has no bearing on the symbols that are known.
-/

namespace ApiBindings

-----------------------------------------------------------------------------------------
-- Names that a table does not have
-----------------------------------------------------------------------------------------

/-- The names of a list that are not known, each once, in the order in which they first occur. -/
structure ListsUnknown (known names unknown : List String) : Prop where
  mem_iff : ∀ name, name ∈ unknown ↔ name ∈ names ∧ name ∉ known
  ordered : unknown.Pairwise fun earlier later => names.idxOf earlier < names.idxOf later

/-- Erasing repetitions keeps the order of the first occurrences, also of a part of the list. By
induction from the back.
-/
theorem pairwise_idxOf_eraseDups (keeps : String → Bool) (names : List String)
    : (names.filter keeps).eraseDups.Pairwise fun earlier later =>
        names.idxOf earlier < names.idxOf later := by
  induction names using List.reverseRecOn with
  | nil => exact List.Pairwise.nil
  | append_singleton front last ih =>
      have among {name : String} (member : name ∈ (front.filter keeps).eraseDups)
          : name ∈ front :=
        (List.mem_filter.mp (List.mem_eraseDups.mp member)).1
      have early
          : (front.filter keeps).eraseDups.Pairwise fun earlier later =>
              (front ++ [last]).idxOf earlier < (front ++ [last]).idxOf later := by
        refine ih.imp_of_mem fun {earlier later} first second less => ?_
        rwa [List.idxOf_append_of_mem (among first), List.idxOf_append_of_mem (among second)]
      rw [List.filter_append, List.filter_singleton]
      cases kept : keeps last with
      | false => simpa using early
      | true =>
          rw [cond_true, eraseDups_concat, addNew]
          split
          · exact early
          · rename_i new
            refine List.pairwise_append.mpr ⟨early, List.pairwise_singleton _ _, ?_⟩
            intro name member other isLast
            obtain rfl := List.mem_singleton.mp isLast
            have absent : other ∉ front := fun member =>
              new (List.mem_eraseDups.mpr (List.mem_filter.mpr ⟨member, kept⟩))
            rw [List.idxOf_append_of_mem (among member), List.idxOf_append_of_notMem absent]
            exact Nat.lt_add_right _ (List.idxOf_lt_length_of_mem (among member))

theorem Visit.listsUnknown_missing {α : Type} (table : Table α) (names : List String)
    : ListsUnknown table.names names (missing table names) where
  mem_iff name := by
    rw [missing, List.mem_eraseDups, List.mem_filter, ← Table.contains_iff, Bool.not_eq_true']
    simp
  ordered := pairwise_idxOf_eraseDups _ names

/-- Nothing unknown is listed twice, as no place comes before itself. -/
theorem ListsUnknown.nodup {known names unknown : List String}
    (lists : ListsUnknown known names unknown)
    : unknown.Nodup := by
  refine lists.ordered.imp ?_
  intro earlier later less same
  exact Nat.lt_irrefl _ (same ▸ less)

-----------------------------------------------------------------------------------------
-- The report of a block
-----------------------------------------------------------------------------------------

/-- The names of one kind that a block refers to. -/
def SymbolKind.names : SymbolKind → InterfaceBlock → List String
  | enumerant => InterfaceBlock.enums
  | command => InterfaceBlock.commands

/-- The names of one kind that sources declare. -/
def Registry.known (registry : Registry) : SymbolKind → List String
  | .enumerant => registry.enums.names
  | .command => registry.commands.names

/-- The report of a block of a feature or extension: its unknown enumerants and then its unknown
commands, all under the name of that feature or extension.
-/
def ReportsBlock (registry : Registry) (place : String × InterfaceBlock)
    (report : List UnresolvedReference)
    : Prop :=
  ∃ enums commands,
    ListsUnknown (registry.known .enumerant) place.2.enums enums
    ∧ ListsUnknown (registry.known .command) place.2.commands commands
    ∧ report
      = enums.map (fun symbol => ⟨symbol, .enumerant, place.1⟩)
        ++ commands.map fun symbol => ⟨symbol, .command, place.1⟩

namespace Visit

/-- The reference to a symbol that the block of a visit makes. -/
def reference (visit : Visit) (kind : SymbolKind) (symbol : String) : UnresolvedReference :=
  { symbol, kind, referencedBy := visit.requirer.name }

theorem reportsBlock_unresolved (registry : Registry) (visit : Visit)
    : ReportsBlock registry (visit.requirer.name, visit.block) (visit.unresolved registry) :=
  ⟨_, _, listsUnknown_missing registry.enums visit.block.enums,
    listsUnknown_missing registry.commands visit.block.commands, rfl⟩

theorem mem_unresolved_iff {registry : Registry} {visit : Visit} {kind : SymbolKind}
    {name : String}
    : visit.reference kind name ∈ visit.unresolved registry
      ↔ name ∈ kind.names visit.block ∧ name ∉ registry.known kind := by
  rw [unresolved, List.mem_append, List.mem_map, List.mem_map]
  cases kind with
  | enumerant =>
      have lists := listsUnknown_missing registry.enums visit.block.enums
      simpa [reference, SymbolKind.names, Registry.known] using lists.mem_iff name
  | command =>
      have lists := listsUnknown_missing registry.commands visit.block.commands
      simpa [reference, SymbolKind.names, Registry.known] using lists.mem_iff name

/-- No reference of a block is reported twice, since its kind tells the two lists apart. -/
theorem nodup_unresolved (registry : Registry) (visit : Visit)
    : (visit.unresolved registry).Nodup := by
  have enums := (listsUnknown_missing registry.enums visit.block.enums).nodup
  have commands := (listsUnknown_missing registry.commands visit.block.commands).nodup
  refine List.nodup_append.mpr ⟨enums.map ?_, commands.map ?_, ?_⟩
  · intro one other same
    exact congrArg UnresolvedReference.symbol same
  · intro one other same
    exact congrArg UnresolvedReference.symbol same
  · intro enumerant enumMember command commandMember same
    obtain ⟨_, _, rfl⟩ := List.mem_map.mp enumMember
    obtain ⟨_, _, rfl⟩ := List.mem_map.mp commandMember
    cases congrArg UnresolvedReference.kind same

theorem count_unresolved (registry : Registry) {visit : Visit} {kind : SymbolKind}
    {name : String} (named : name ∈ kind.names visit.block)
    : (visit.unresolved registry).count (visit.reference kind name)
      = if name ∈ registry.known kind then 0 else 1 := by
  rw [(nodup_unresolved registry visit).count]
  simp only [mem_unresolved_iff, named, true_and, ite_not]

end Visit

-----------------------------------------------------------------------------------------
-- What is noted of known symbols
-----------------------------------------------------------------------------------------

/-- The visit of a block is noted in what is known of a symbol. -/
def Visit.IsNoted (visit : Visit) (mentions : Mentions) : Prop :=
  match visit.action with
  | .require => visit.requirer ∈ mentions.requiredBy
  | .remove _ => visit.requirer ∈ mentions.removedBy

/-- What the events of a symbol say has every block noted that names the symbol. -/
theorem Visit.isNoted_of_mem {kind : SymbolKind} {name : String} {visits : List Visit}
    {visit : Visit} (visited : visit ∈ visits) (named : name ∈ kind.names visit.block)
    : visit.IsNoted
        (SymbolState.ofEvents (visits.flatMap (Event.ofVisit kind.names name))).mentions := by
  have event
      : ⟨visit.requirer, visit.action⟩ ∈ visits.flatMap (Event.ofVisit kind.names name) :=
    Event.mem_flatMap_ofVisit.mpr ⟨visit, visited, named, rfl⟩
  unfold IsNoted
  cases action : visit.action with
  | require =>
      refine List.mem_eraseDups.mpr (List.mem_map.mpr ⟨_, List.mem_filter.mpr ⟨event, ?_⟩, rfl⟩)
      simp [Event.requires, action]
  | remove honored =>
      refine List.mem_eraseDups.mpr (List.mem_map.mpr ⟨_, List.mem_filter.mpr ⟨event, ?_⟩, rfl⟩)
      simp [Event.requires, action]

namespace Registry

/-- What the walk over the blocks of a profile has noted of a symbol, active or not. -/
def mentions? (registry : Registry) (profile : Profile) (kind : SymbolKind) (name : String)
    : Option Mentions :=
  let noted {α : Type} (table : Table (Tracked α)) : Option Mentions :=
    (table.find? name).map fun tracked => tracked.2.mentions
  match kind with
  | .enumerant =>
      noted ((registry.visits profile).foldl
        (fun table visit => table.actOn visit visit.block.enums) registry.enums.track)
  | .command =>
      noted ((registry.visits profile).foldl
        (fun table visit => table.actOn visit visit.block.commands) registry.commands.track)

/-- What is noted of a known symbol is what its events say. -/
theorem mentions?_eq (registry : Registry) (profile : Profile) (kind : SymbolKind)
    (name : String)
    : registry.mentions? profile kind name
      = if name ∈ registry.known kind then
          some
            (SymbolState.ofEvents
              ((registry.visits profile).flatMap (Event.ofVisit kind.names name))).mentions
        else
          none := by
  have noted {α : Type} (names : InterfaceBlock → List String) (table : Table α)
      : (((registry.visits profile).foldl
            (fun table visit => table.actOn visit (names visit.block)) table.track).find?
            name).map (fun tracked => tracked.2.mentions)
        = if name ∈ table.names then
            some
              (SymbolState.ofEvents
                ((registry.visits profile).flatMap (Event.ofVisit names name))).mentions
          else
            none := by
    rw [walk_eq, Table.find?_map, Option.map_map]
    split
    · rename_i known
      obtain ⟨symbol, found⟩ := Option.isSome_iff_exists.mp (Table.contains_iff.mpr known)
      rw [found]
      rfl
    · rename_i unknown
      rw [Table.find?_eq_none_iff.mpr unknown]
      rfl
  cases kind with
  | enumerant => exact noted InterfaceBlock.enums registry.enums
  | command => exact noted InterfaceBlock.commands registry.commands

-- What resolution says of an active symbol is what is noted of it.

variable {registry : Registry} {profile : Profile} {name : String} {mentions : Mentions}

theorem mentions?_of_find?_enums {enumerant : Enumerant}
    (found : (registry.resolve profile).enums.find? name = some (enumerant, mentions))
    : registry.mentions? profile .enumerant name = some mentions := by
  obtain ⟨-, present, rfl⟩ := (walk_selects InterfaceBlock.enums _ registry.enums).eq found
  have known := Table.contains_iff.mp (Option.isSome_of_eq_some present)
  exact (registry.mentions?_eq profile .enumerant name).trans (if_pos known)

theorem mentions?_of_find?_commands {command : Command}
    (found : (registry.resolve profile).commands.find? name = some (command, mentions))
    : registry.mentions? profile .command name = some mentions := by
  obtain ⟨-, present, rfl⟩ := (walk_selects InterfaceBlock.commands _ registry.commands).eq found
  have known := Table.contains_iff.mp (Option.isSome_of_eq_some present)
  exact (registry.mentions?_eq profile .command name).trans (if_pos known)

end Registry

/-- What becomes of a name in the block of a visit: it is known and the visit is noted for its
symbol, or it is unknown and reported once.
-/
inductive Visit.AccountsFor (registry : Registry) (profile : Profile) (visit : Visit)
    (kind : SymbolKind) (name : String)
    : Prop
  | noted {mentions : Mentions} (known : name ∈ registry.known kind)
    (found : registry.mentions? profile kind name = some mentions)
    (noted : visit.IsNoted mentions)
    (unreported : (visit.unresolved registry).count (visit.reference kind name) = 0)
  | reported (unknown : name ∉ registry.known kind)
    (once : (visit.unresolved registry).count (visit.reference kind name) = 1)

theorem Visit.accountsFor {registry : Registry} {profile : Profile} {visit : Visit}
    (visited : visit ∈ registry.visits profile) {kind : SymbolKind} {name : String}
    (named : name ∈ kind.names visit.block)
    : visit.AccountsFor registry profile kind name := by
  have count := Visit.count_unresolved registry named
  by_cases known : name ∈ registry.known kind
  · rw [if_pos known] at count
    refine .noted known ?_ (Visit.isNoted_of_mem visited named) count
    rw [registry.mentions?_eq, if_pos known]
  · rw [if_neg known] at count
    exact .reported known count

-----------------------------------------------------------------------------------------
-- Unknown names and the symbols that are known
-----------------------------------------------------------------------------------------

section

variable (drop : SymbolKind → String → Bool)

/-- A block that leaves out some of its names. -/
def InterfaceBlock.without (block : InterfaceBlock) : InterfaceBlock :=
  { block with
    enums := block.enums.filter fun name => !drop .enumerant name
    commands := block.commands.filter fun name => !drop .command name }

def Feature.without (feature : Feature) : Feature :=
  { feature with
    requires := feature.requires.map (InterfaceBlock.without drop)
    removes := feature.removes.map (InterfaceBlock.without drop) }

def Extension.without (extension : Extension) : Extension :=
  { extension with requires := extension.requires.map (InterfaceBlock.without drop) }

def Visit.without (visit : Visit) : Visit :=
  { visit with block := visit.block.without drop }

/-- A registry whose blocks leave out some of their names. -/
def Registry.without (registry : Registry) : Registry :=
  { registry with
    features := registry.features.map (Feature.without drop)
    extensions := registry.extensions.map fun _ => Extension.without drop }

theorem InterfaceBlock.count_without {drop : SymbolKind → String → Bool} {kind : SymbolKind}
    {name : String} (kept : drop kind name = false) (block : InterfaceBlock)
    : (kind.names (block.without drop)).count name = (kind.names block).count name := by
  cases kind with
  | enumerant => exact List.count_filter (by simp [kept])
  | command => exact List.count_filter (by simp [kept])

-- No profile looks at the names when it takes a block, so the walk comes by the same blocks.

theorem Visit.ofFeature_without (profile : Profile) (feature : Feature)
    : ofFeature profile (feature.without drop)
      = (ofFeature profile feature).map (Visit.without drop) := by
  simp only [ofFeature, Feature.without, List.filter_map, List.map_append, List.map_map]
  rfl

theorem Visit.ofExtension_without (profile : Profile) (extension : Extension)
    : ofExtension profile (extension.without drop)
      = (ofExtension profile extension).map (Visit.without drop) := by
  simp only [ofExtension, Extension.without, List.filter_map, List.map_map]
  rfl

theorem Registry.visits_without (registry : Registry) (profile : Profile)
    : (registry.without drop).visits profile
      = (registry.visits profile).map (Visit.without drop) := by
  have values
      : (registry.without drop).extensions.values
        = registry.extensions.values.map (Extension.without drop) :=
    registry.extensions.values_map (Extension.without drop)
  rw [visits, visits, values, List.map_append, List.map_flatMap, List.map_flatMap]
  simp only [without, List.filter_map, List.flatMap_map, Visit.ofFeature_without,
    Visit.ofExtension_without]
  rfl

/-- A name that is not left out has the same events. -/
theorem Registry.events_without {drop : SymbolKind → String → Bool} {kind : SymbolKind}
    {name : String} (kept : drop kind name = false) (registry : Registry) (profile : Profile)
    : ((registry.without drop).visits profile).flatMap (Event.ofVisit kind.names name)
      = (registry.visits profile).flatMap (Event.ofVisit kind.names name) := by
  rw [visits_without, List.flatMap_map]
  refine List.flatMap_congr fun visit _ => ?_
  rw [Event.ofVisit, Event.ofVisit, Visit.without, InterfaceBlock.count_without kept]

end

-----------------------------------------------------------------------------------------
-- The report of a resolution
-----------------------------------------------------------------------------------------

namespace Registry

/-- The blocks on the walk, each with the name of its feature or extension: feature by feature the
accepted blocks that require, and then all that remove for the interface of the profile, whether or
not removals are honored; and behind the features the accepted blocks of the extensions taken.
-/
def places (registry : Registry) (profile : Profile) : List (String × InterfaceBlock) :=
  (registry.features.filter fun feature =>
      profile.api.all (· == feature.api) && profile.maxVersion.all feature.number.le).flatMap
      (fun feature =>
        (feature.requires.filter profile.takesBlock
          ++ feature.removes.filter fun block =>
              Profile.looselyEqual block.api profile.api).map fun block =>
          (feature.name, block))
    ++ (registry.extensions.values.filter profile.takesExtension).flatMap fun extension =>
        (extension.requires.filter profile.takesBlock).map fun block => (extension.name, block)

theorem places_eq (registry : Registry) (profile : Profile)
    : registry.places profile
      = (registry.visits profile).map fun visit => (visit.requirer.name, visit.block) := by
  have takes
      : profile.takesFeature
        = fun feature =>
            profile.api.all (· == feature.api) && profile.maxVersion.all feature.number.le :=
    funext profile.takesFeature_eq
  simp only [places, visits, takes, List.map_append, List.map_flatMap, Visit.ofFeature,
    Visit.ofExtension, List.map_map]
  rfl

/-- Resolution reports what is unknown and nothing else, and goes on as if it were not there. -/
structure ReportsUnknown (registry : Registry) (profile : Profile) : Prop where
  /-- The report is made of the reports of the blocks, in the order of the walk. -/
  blocks
    : ∃ reports,
        (registry.resolve profile).unresolved = reports.flatten
        ∧ List.Forall₂ (ReportsBlock registry) (registry.places profile) reports
  /-- Every name of a block is known and noted, or else the block reports it once. -/
  names
    : ∀ visit ∈ registry.visits profile,
        ∀ kind, ∀ name ∈ kind.names visit.block, visit.AccountsFor registry profile kind name
  /-- What is noted of an active symbol is what resolution says of it. -/
  enumMentions
    : ∀ {name enumerant mentions},
        (registry.resolve profile).enums.find? name = some (enumerant, mentions)
        → registry.mentions? profile .enumerant name = some mentions
  commandMentions
    : ∀ {name command mentions},
        (registry.resolve profile).commands.find? name = some (command, mentions)
        → registry.mentions? profile .command name = some mentions
  /-- Leaving out unknown names changes nothing about the selected symbols. -/
  unaffected
    : ∀ drop : SymbolKind → String → Bool,
        (∀ kind, ∀ name ∈ registry.known kind, drop kind name = false)
        → ((registry.without drop).resolve profile).enums = (registry.resolve profile).enums
          ∧ ((registry.without drop).resolve profile).commands
            = (registry.resolve profile).commands

/-- What no source declares is reported once for each block that names it, under the feature or
extension of the block, and has no bearing on what is selected.
-/
theorem resolve_reportsUnknown (registry : Registry) (profile : Profile)
    : registry.ReportsUnknown profile where
  blocks := by
    refine ⟨(registry.visits profile).map (Visit.unresolved registry), ?_, ?_⟩
    · exact List.flatMap_def
    · rw [places_eq, List.forall₂_map_left_iff, List.forall₂_map_right_iff, List.forall₂_same]
      exact fun visit _ => visit.reportsBlock_unresolved registry
  names := fun _ visited _ _ named => Visit.accountsFor visited named
  enumMentions := mentions?_of_find?_enums
  commandMentions := mentions?_of_find?_commands
  unaffected := by
    intro drop kept
    constructor
    · refine congrArg Table.active (walk_congr registry.enums fun name known => ?_)
      exact congrArg SymbolState.ofEvents
        (events_without (kept .enumerant name known) registry profile)
    · refine congrArg Table.active (walk_congr registry.commands fun name known => ?_)
      exact congrArg SymbolState.ofEvents
        (events_without (kept .command name known) registry profile)

end Registry

end ApiBindings
