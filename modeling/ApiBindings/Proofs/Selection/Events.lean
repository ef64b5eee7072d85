import ApiBindings.Proofs.Tables.Entries
import ApiBindings.Resolution

/-! The events of a symbol, and what the walk over the blocks makes of them.
Every occurrence of a name in a block that a profile visits is an event. The walk keeps a state
for each symbol of a table, and only the events of a symbol move its state.
-/

namespace ApiBindings

/-- One occurrence of a symbol's name in a block of a feature or extension. -/
structure Event where
  requirer : Requirer
  action : Action
  deriving DecidableEq

namespace Event

def requires (event : Event) : Bool :=
  event.action = .require

/-- Whether an event bears on activity; a removal that is not honored does not. -/
def counts (event : Event) : Bool :=
  event.action ≠ .remove false

/-- Whether the last event that counts is a require. -/
def lastRequires (events : List Event) : Bool :=
  (events.filter counts).getLast?.any requires

/-- Who requires a symbol, each once, in the order of the first requires. -/
def requirers (events : List Event) : List Requirer :=
  ((events.filter requires).map Event.requirer).eraseDups

/-- Who removes a symbol, honored or not, each once, in the order of the first removals. -/
def removers (events : List Event) : List Requirer :=
  ((events.filter fun event => !event.requires).map Event.requirer).eraseDups

/-- One event for each occurrence of a symbol in the names that blocks have of its kind. -/
def ofBlocks (names : InterfaceBlock → List String) (symbol : String) (requirer : Requirer)
    (action : InterfaceBlock → Action) (blocks : List InterfaceBlock)
    : List Event :=
  blocks.flatMap fun block =>
    List.replicate ((names block).count symbol) { requirer, action := action block }

theorem requirer_of_mem_ofBlocks {names : InterfaceBlock → List String} {symbol : String}
    {requirer : Requirer} {action : InterfaceBlock → Action} {blocks : List InterfaceBlock}
    {event : Event} (member : event ∈ ofBlocks names symbol requirer action blocks)
    : event.requirer = requirer ∧ ∃ block ∈ blocks, event.action = action block := by
  obtain ⟨block, among, found⟩ := List.mem_flatMap.mp member
  obtain rfl := (List.mem_replicate.mp found).2
  exact ⟨rfl, block, among, rfl⟩

/-- The events of a feature: those of its accepted require blocks, and then those of its remove
blocks for the interface of the profile. A removal is honored if the profile honors removals and
accepts the block.
-/
def ofFeature (profile : Profile) (names : InterfaceBlock → List String) (symbol : String)
    (feature : Feature)
    : List Event :=
  let requirer := Requirer.feature feature.name feature.number
  ofBlocks names symbol requirer (fun _ => .require)
      (feature.requires.filter profile.takesBlock)
    ++ ofBlocks names symbol requirer
        (fun block => .remove (profile.honorsRemovals && profile.takesBlock block))
        (feature.removes.filter fun block => Profile.looselyEqual block.api profile.api)

/-- The events of an extension are those of its accepted require blocks. -/
def ofExtension (profile : Profile) (names : InterfaceBlock → List String) (symbol : String)
    (extension : Extension)
    : List Event :=
  ofBlocks names symbol (.extension extension.name) (fun _ => .require)
    (extension.requires.filter profile.takesBlock)

end Event

/-- The events of a symbol: those of the features of the profile's interface up to its greatest
version, in the order of the registry, and then those of the extensions that the profile takes.
-/
def Registry.events (registry : Registry) (profile : Profile)
    (names : InterfaceBlock → List String) (symbol : String)
    : List Event :=
  (registry.features.filter fun feature =>
      profile.api.all (· == feature.api) && profile.maxVersion.all feature.number.le).flatMap
      (Event.ofFeature profile names symbol)
    ++ (registry.extensions.values.filter profile.takesExtension).flatMap
        (Event.ofExtension profile names symbol)

-----------------------------------------------------------------------------------------
-- The state of one symbol
-----------------------------------------------------------------------------------------

namespace SymbolState

theorem addOnce_eq (requirer : Requirer) (requirers : List Requirer)
    : addOnce requirer requirers = addNew requirers requirer := by
  simp only [addOnce, addNew, List.contains_eq_mem, decide_eq_true_eq]

/-- The state that says what the events of a symbol say. -/
def ofEvents (events : List Event) : SymbolState where
  mentions := {
    requiredBy := Event.requirers events
    removedBy := Event.removers events
  }
  isActive := Event.lastRequires events

/-- Acting on a symbol is what one more event says, by cases on the action. -/
theorem act_ofEvents (events : List Event) (requirer : Requirer) (action : Action)
    : (ofEvents events).act requirer action = ofEvents (events ++ [⟨requirer, action⟩]) := by
  cases action with
  | require =>
      simp [act, ofEvents, addOnce_eq, Event.requirers, Event.removers, Event.lastRequires,
        Event.requires, Event.counts, eraseDups_concat]
  | remove honored =>
      cases honored with
      | false =>
          simp [act, ofEvents, addOnce_eq, Event.requirers, Event.removers,
            Event.lastRequires, Event.requires, Event.counts, eraseDups_concat]
      | true =>
          simp [act, ofEvents, addOnce_eq, Event.requirers, Event.removers,
            Event.lastRequires, Event.requires, Event.counts, eraseDups_concat]

/-- A symbol that all of its events have acted on is in the state that they say. By induction on
the events from the back.
-/
theorem foldl_act (events : List Event)
    : events.foldl (fun state event => state.act event.requirer event.action) {}
      = ofEvents events := by
  induction events using List.reverseRecOn with
  | nil => rfl
  | append_singleton front last ih =>
      rw [List.foldl_append, ih]
      exact act_ofEvents front last.requirer last.action

end SymbolState

-----------------------------------------------------------------------------------------
-- The walk over a table
-----------------------------------------------------------------------------------------

/-- The events of a symbol in the block of a visit. -/
def Event.ofVisit (names : InterfaceBlock → List String) (symbol : String) (visit : Visit)
    : List Event :=
  List.replicate ((names visit.block).count symbol)
    { requirer := visit.requirer, action := visit.action }

/-- The steps of the walk: each name of each visit's block, with the visit. -/
def Visit.steps (names : InterfaceBlock → List String) (visits : List Visit)
    : List (String × Visit) :=
  visits.flatMap fun visit => (names visit.block).map fun name => (name, visit)

/-- The steps that are about a symbol are its events, block by block. -/
theorem Visit.events_steps (names : InterfaceBlock → List String) (symbol : String)
    (visits : List Visit)
    : ((steps names visits).filter fun step => step.1 = symbol).map
          (fun step => ⟨step.2.requirer, step.2.action⟩)
      = visits.flatMap (Event.ofVisit names symbol) := by
  have ofBlock (visit : Visit)
      : (((names visit.block).map fun name => (name, visit)).filter
            fun step => step.1 = symbol).map
            (fun step => ⟨step.2.requirer, step.2.action⟩)
        = Event.ofVisit names symbol visit := by
    rw [List.filter_map, List.map_map]
    exact (congrArg (List.map _) (List.filter_eq symbol)).trans List.map_replicate
  simp only [steps, List.filter_flatMap, List.map_flatMap, ofBlock]

/-- The walk leaves every symbol in the state that its events say. -/
theorem walk_eq {α : Type} (names : InterfaceBlock → List String) (visits : List Visit)
    (table : Table α)
    : visits.foldl (fun table visit => table.actOn visit (names visit.block)) table.track
      = table.map fun name symbol =>
          (symbol, SymbolState.ofEvents (visits.flatMap (Event.ofVisit names name))) := by
  -- One step for each name, so that the changes to one symbol can be taken out of the walk.
  have steps
      : visits.foldl (fun table visit => table.actOn visit (names visit.block)) table.track
        = (Visit.steps names visits).foldl
            (fun table step => table.modify step.1 fun tracked =>
              (tracked.1, tracked.2.act step.2.requirer step.2.action)) table.track := by
    simp only [Visit.steps, List.foldl_flatMap, List.foldl_map]
    rfl
  rw [steps, Table.foldl_modify, Table.track, Table.map_map]
  congr
  funext name symbol
  rw [← Visit.events_steps, ← SymbolState.foldl_act, List.foldl_map]
  exact (List.foldl_hom (fun state => (symbol, state)) fun _ _ => rfl)

/-- Two walks over one table come to the same if the events of all of its names do. -/
theorem walk_congr {α : Type} {names : InterfaceBlock → List String}
    {visits others : List Visit} (table : Table α)
    (same
      : ∀ name ∈ table.names,
          SymbolState.ofEvents (visits.flatMap (Event.ofVisit names name))
          = SymbolState.ofEvents (others.flatMap (Event.ofVisit names name)))
    : visits.foldl (fun table visit => table.actOn visit (names visit.block)) table.track
      = others.foldl (fun table visit => table.actOn visit (names visit.block)) table.track := by
  rw [walk_eq, walk_eq]
  exact Table.map_congr fun name known symbol => congrArg (symbol, ·) (same name known)

/-- What the walk leaves active are the entries that were required last, each with what its events
say.
-/
theorem entries_walk {α : Type} (names : InterfaceBlock → List String) (visits : List Visit)
    (table : Table α)
    : (visits.foldl (fun table visit => table.actOn visit (names visit.block))
          table.track).active.entries
      = (table.entries.filter fun entry =>
          Event.lastRequires (visits.flatMap (Event.ofVisit names entry.1))).map fun entry =>
            (entry.1, entry.2,
              (SymbolState.ofEvents
                (visits.flatMap (Event.ofVisit names entry.1))).mentions) := by
  rw [walk_eq, Table.active, ← List.filterMap_eq_map', List.filterMap_filter]
  refine List.filterMap_map.trans (congrArg (List.filterMap · _) (funext fun entry => ?_))
  simp only [Function.comp_apply, SymbolState.ofEvents]
  split <;> rfl

/-- The active symbols, in the order of their table. -/
theorem values_walk {α : Type} (names : InterfaceBlock → List String) (visits : List Visit)
    (table : Table α)
    : (visits.foldl (fun table visit => table.actOn visit (names visit.block))
          table.track).active.values.map Prod.fst
      = (table.entries.filter fun entry =>
          Event.lastRequires (visits.flatMap (Event.ofVisit names entry.1))).map Prod.snd := by
  rw [Table.values, entries_walk, List.map_map, List.map_map]
  rfl

/-- What is selected under a name of a table is what the events of the name say: its symbol, if it
was required last, with those who require it and those who remove it.
-/
def Selects {α : Type} (events : String → List Event) (table : Table α)
    (selected : Table (α × Mentions))
    : Prop :=
  ∀ name,
    selected.find? name
    = if Event.lastRequires (events name) then
        (table.find? name).map fun symbol =>
          (symbol, (SymbolState.ofEvents (events name)).mentions)
      else
        none

theorem Selects.eq {α : Type} {events : String → List Event} {table : Table α}
    {selected : Table (α × Mentions)} (selects : Selects events table selected)
    {name : String} {symbol : α} {mentions : Mentions}
    (found : selected.find? name = some (symbol, mentions))
    : Event.lastRequires (events name) = true
      ∧ table.find? name = some symbol
      ∧ mentions = (SymbolState.ofEvents (events name)).mentions := by
  rw [selects] at found
  split at found
  · rename_i active
    obtain ⟨known, present, same⟩ := Option.map_eq_some_iff.mp found
    obtain ⟨rfl, rfl⟩ := Prod.mk.inj same
    exact ⟨active, present, rfl⟩
  · cases found

theorem walk_selects {α : Type} (names : InterfaceBlock → List String) (visits : List Visit)
    (table : Table α)
    : Selects (fun name => visits.flatMap (Event.ofVisit names name)) table
        (visits.foldl (fun table visit => table.actOn visit (names visit.block))
          table.track).active := by
  intro name
  rw [Table.active, Table.find?_filterMap, walk_eq, Table.find?_map]
  cases table.find? name with
  | none => simp
  | some symbol => rfl

/-- A visit is an event of every symbol that its block names, and the events are no others. -/
theorem Event.mem_flatMap_ofVisit {names : InterfaceBlock → List String} {symbol : String}
    {visits : List Visit} {event : Event}
    : event ∈ visits.flatMap (ofVisit names symbol)
      ↔ ∃ visit ∈ visits,
          symbol ∈ names visit.block ∧ event = ⟨visit.requirer, visit.action⟩ := by
  simp [ofVisit, List.mem_replicate, List.count_eq_zero]

-----------------------------------------------------------------------------------------
-- The selected symbols
-----------------------------------------------------------------------------------------

theorem Profile.takesFeature_eq (profile : Profile) (feature : Feature)
    : profile.takesFeature feature
      = (profile.api.all (· == feature.api) && profile.maxVersion.all feature.number.le) := by
  unfold takesFeature
  cases profile.api <;> cases profile.maxVersion <;> rfl

/-- The events of a symbol are those in the blocks that the walk visits, in its order. -/
theorem Registry.events_eq (registry : Registry) (profile : Profile)
    (names : InterfaceBlock → List String) (symbol : String)
    : registry.events profile names symbol
      = (registry.visits profile).flatMap (Event.ofVisit names symbol) := by
  have ofFeature (feature : Feature)
      : (Visit.ofFeature profile feature).flatMap (Event.ofVisit names symbol)
        = Event.ofFeature profile names symbol feature := by
    rw [Visit.ofFeature, List.flatMap_append, List.flatMap_map, List.flatMap_map]
    rfl
  have ofExtension (extension : Extension)
      : (Visit.ofExtension profile extension).flatMap (Event.ofVisit names symbol)
        = Event.ofExtension profile names symbol extension := by
    rw [Visit.ofExtension, List.flatMap_map]
    rfl
  have takes
      : profile.takesFeature
        = fun feature =>
            profile.api.all (· == feature.api) && profile.maxVersion.all feature.number.le :=
    funext profile.takesFeature_eq
  simp only [visits, List.flatMap_append, List.flatMap_assoc, ofFeature, ofExtension, takes]
  rfl

theorem Registry.selects_enums (registry : Registry) (profile : Profile)
    : Selects (registry.events profile InterfaceBlock.enums) registry.enums
        (registry.resolve profile).enums := by
  have selects := walk_selects InterfaceBlock.enums (registry.visits profile) registry.enums
  simp only [← registry.events_eq] at selects
  exact selects

theorem Registry.selects_commands (registry : Registry) (profile : Profile)
    : Selects (registry.events profile InterfaceBlock.commands) registry.commands
        (registry.resolve profile).commands := by
  have selects := walk_selects InterfaceBlock.commands (registry.visits profile)
    registry.commands
  simp only [← registry.events_eq] at selects
  exact selects

/-- What is selected from a table agrees with the events of its symbols: the active names are those
names of the table, in its order, that were required last, and each stands for the symbol of the
table, with those who require it and those who remove it.
-/
structure FollowsEvents {α : Type} (events : String → List Event) (table : Table α)
    (selected : Table (α × Mentions))
    : Prop where
  names : selected.names = table.names.filter fun name => Event.lastRequires (events name)
  symbol
    : ∀ {name symbol mentions},
        selected.find? name = some (symbol, mentions) → table.find? name = some symbol
  requiredBy
    : ∀ {name symbol mentions},
        selected.find? name = some (symbol, mentions)
        → mentions.requiredBy = Event.requirers (events name)
  removedBy
    : ∀ {name symbol mentions},
        selected.find? name = some (symbol, mentions)
        → mentions.removedBy = Event.removers (events name)

/-- What the walk leaves active of a table agrees with the events in the blocks it visits. -/
theorem walk_followsEvents {α : Type} (names : InterfaceBlock → List String)
    (visits : List Visit) (table : Table α)
    : FollowsEvents (fun symbol => visits.flatMap (Event.ofVisit names symbol)) table
        (visits.foldl (fun table visit => table.actOn visit (names visit.block))
          table.track).active := by
  have found {name symbol mentions}
      (selected
        : (visits.foldl (fun table visit => table.actOn visit (names visit.block))
              table.track).active.find? name
          = some (symbol, mentions))
      : table.find? name = some symbol
        ∧ mentions
          = (SymbolState.ofEvents (visits.flatMap (Event.ofVisit names name))).mentions := by
    rw [← Table.mem_entries_iff, entries_walk] at selected
    obtain ⟨entry, member, same⟩ := List.mem_map.mp selected
    obtain ⟨rfl, sameRest⟩ := Prod.mk.inj same
    obtain ⟨rfl, rfl⟩ := Prod.mk.inj sameRest
    exact ⟨Table.mem_entries_iff.mp (List.mem_filter.mp member).1, rfl⟩
  refine {
    names := ?_
    symbol := fun selected => (found selected).1
    requiredBy := fun selected => congrArg Mentions.requiredBy (found selected).2
    removedBy := fun selected => congrArg Mentions.removedBy (found selected).2
  }
  rw [Table.names, entries_walk, Table.names, List.filter_map, List.map_map]
  rfl

/-- Resolution selects from both tables what the events of their symbols say. -/
theorem Registry.resolve_followsEvents (registry : Registry) (profile : Profile)
    : let resolution := registry.resolve profile
      FollowsEvents (registry.events profile InterfaceBlock.enums) registry.enums
        resolution.enums
      ∧ FollowsEvents (registry.events profile InterfaceBlock.commands) registry.commands
          resolution.commands := by
  have enums := walk_followsEvents InterfaceBlock.enums (registry.visits profile)
    registry.enums
  have commands := walk_followsEvents InterfaceBlock.commands (registry.visits profile)
    registry.commands
  simp only [← registry.events_eq] at enums commands
  exact ⟨enums, commands⟩

end ApiBindings
