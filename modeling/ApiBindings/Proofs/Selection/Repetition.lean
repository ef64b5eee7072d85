import ApiBindings.Proofs.Merging.Repetition
import ApiBindings.Proofs.Selection.Events

/-! Sources that are ingested a second time select the same.
The blocks of a feature then come twice on the walk: first all that require, and again, and then all
that remove, and again. What a symbol has been through with these it does not notice once more.
-/

namespace ApiBindings

-----------------------------------------------------------------------------------------
-- Events that have been before
-----------------------------------------------------------------------------------------

namespace SymbolState

/-- Acts on a symbol by all of its events. -/
def run (state : SymbolState) (events : List Event) : SymbolState :=
  events.foldl (fun state event => state.act event.requirer event.action) state

theorem run_append (state : SymbolState) (front back : List Event)
    : state.run (front ++ back) = (state.run front).run back :=
  List.foldl_append

theorem run_flatMap {α : Type} (members : α → List Event) (elements : List α)
    (state : SymbolState)
    : state.run (elements.flatMap members)
      = elements.foldl (fun state element => state.run (members element)) state :=
  List.foldl_flatMap

theorem ofEvents_eq_run (events : List Event) : ofEvents events = run {} events :=
  (foldl_act events).symm

/-- A state that has nothing to gain from an event. -/
def Settled (state : SymbolState) (event : Event) : Prop :=
  match event.action with
  | .require => event.requirer ∈ state.mentions.requiredBy ∧ state.isActive = true
  | .remove honored =>
      event.requirer ∈ state.mentions.removedBy ∧ (honored = true → state.isActive = false)

theorem Settled.act_eq {state : SymbolState} {event : Event} (settled : state.Settled event)
    : state.act event.requirer event.action = state := by
  unfold Settled at settled
  cases action : event.action with
  | require =>
      rw [action] at settled
      rw [act, addOnce_eq, addNew, if_pos settled.1, ← settled.2]
  | remove honored =>
      rw [action] at settled
      have active : (state.isActive && !honored) = state.isActive := by
        cases honored with
        | false => simp
        | true => simp [settled.2 rfl]
      rw [act, addOnce_eq, addNew, if_pos settled.1, active]

theorem mem_addOnce {requirer other : Requirer} {requirers : List Requirer}
    : requirer ∈ addOnce other requirers ↔ requirer ∈ requirers ∨ requirer = other := by
  rw [addOnce_eq, mem_addNew]

/-- An event leaves what it has acted on settled. -/
theorem settled_act (state : SymbolState) (event : Event)
    : (state.act event.requirer event.action).Settled event := by
  unfold Settled
  cases event.action with
  | require => exact ⟨mem_addOnce.mpr (Or.inr rfl), rfl⟩
  | remove honored =>
      exact ⟨mem_addOnce.mpr (Or.inr rfl), fun isHonored => by simp [act, isHonored]⟩

/-- More requires leave a required symbol settled, and more removals a removed one. -/
theorem Settled.act {state : SymbolState} {event other : Event} (settled : state.Settled event)
    (alike : event.requires = other.requires)
    : (state.act other.requirer other.action).Settled event := by
  unfold Settled at settled ⊢
  -- Nobody is taken off the lists, so it is activity that the two have to agree on.
  cases action : event.action with
  | require =>
      cases otherAction : other.action with
      | require =>
          rw [action] at settled
          exact ⟨mem_addOnce.mpr (Or.inl settled.1), rfl⟩
      | remove _ => simp [Event.requires, action, otherAction] at alike
  | remove honored =>
      cases otherAction : other.action with
      | require => simp [Event.requires, action, otherAction] at alike
      | remove _ =>
          rw [action] at settled
          exact ⟨mem_addOnce.mpr (Or.inl settled.1), fun isHonored => by
            simp [SymbolState.act, settled.2 isHonored]⟩

/-- After events that are alike, each of them is settled. By induction from the back. -/
theorem settled_run (state : SymbolState) {events : List Event} {isRequire : Bool}
    (alike : ∀ event ∈ events, event.requires = isRequire)
    : ∀ event ∈ events, (state.run events).Settled event := by
  induction events using List.reverseRecOn with
  | nil => simp
  | append_singleton front last ih =>
      have lastAlike := alike last (by simp)
      rw [run_append]
      intro event member
      rcases List.mem_append.mp member with earlier | isLast
      · have before := ih (fun event member => alike event (by simp [member])) event earlier
        exact before.act ((alike event member).trans lastAlike.symm)
      · obtain rfl := List.mem_singleton.mp isLast
        exact settled_act _ _

/-- Settled events change nothing, by induction on these. -/
theorem run_of_settled {state : SymbolState} {events : List Event}
    (settled : ∀ event ∈ events, state.Settled event)
    : state.run events = state := by
  induction events with
  | nil => rfl
  | cons event rest ih =>
      have first := (settled event List.mem_cons_self).act_eq
      rw [run, List.foldl_cons, first]
      exact ih fun other member => settled other (List.mem_cons_of_mem _ member)

theorem run_append_self (state : SymbolState) {events : List Event} {isRequire : Bool}
    (alike : ∀ event ∈ events, event.requires = isRequire)
    : state.run (events ++ events) = state.run events := by
  rw [run_append, run_of_settled (settled_run state alike)]

end SymbolState

-----------------------------------------------------------------------------------------
-- Features and extensions with every block twice
-----------------------------------------------------------------------------------------

section

variable (profile : Profile) (names : InterfaceBlock → List String) (symbol : String)

/-- Blocks that come again change nothing if all of them require, or if none of them does. -/
theorem SymbolState.run_ofBlocks_append_self (state : SymbolState) (requirer : Requirer)
    {action : InterfaceBlock → Action} {isRequire : Bool}
    (alike : ∀ block, decide (action block = .require) = isRequire)
    (blocks : List InterfaceBlock)
    : state.run (Event.ofBlocks names symbol requirer action (blocks ++ blocks))
      = state.run (Event.ofBlocks names symbol requirer action blocks) := by
  rw [Event.ofBlocks, List.flatMap_append]
  refine run_append_self state fun event member => (?_ : event.requires = isRequire)
  obtain ⟨-, block, -, same⟩ := Event.requirer_of_mem_ofBlocks member
  rw [Event.requires, same, alike]

theorem SymbolState.run_ofFeature_doubled (state : SymbolState) (feature : Feature)
    : state.run (Event.ofFeature profile names symbol feature.doubled)
      = state.run (Event.ofFeature profile names symbol feature) := by
  have doubled
      : Event.ofFeature profile names symbol feature.doubled
        = Event.ofBlocks names symbol (.feature feature.name feature.number) (fun _ => .require)
            (feature.requires.filter profile.takesBlock
              ++ feature.requires.filter profile.takesBlock)
          ++ Event.ofBlocks names symbol (.feature feature.name feature.number)
              (fun block => .remove (profile.honorsRemovals && profile.takesBlock block))
              ((feature.removes.filter fun block => Profile.looselyEqual block.api profile.api)
                ++ feature.removes.filter fun block =>
                    Profile.looselyEqual block.api profile.api) := by
    rw [← List.filter_append, ← List.filter_append]
    rfl
  have required (block : InterfaceBlock) : decide (Action.require = .require) = true := rfl
  have removed (block : InterfaceBlock)
      : decide
            (Action.remove (profile.honorsRemovals && profile.takesBlock block) = .require)
        = false :=
    rfl
  rw [doubled, run_append, run_ofBlocks_append_self names symbol _ _ required,
    run_ofBlocks_append_self names symbol _ _ removed, ← run_append]
  rfl

theorem SymbolState.run_ofExtension_doubled (state : SymbolState) (extension : Extension)
    : state.run (Event.ofExtension profile names symbol extension.doubled)
      = state.run (Event.ofExtension profile names symbol extension) := by
  rw [Event.ofExtension, Extension.doubled, List.filter_append]
  exact run_ofBlocks_append_self names symbol state _ (fun _ => rfl) _

theorem Visit.mem_ofFeature_doubled (feature : Feature) (visit : Visit)
    : visit ∈ ofFeature profile feature.doubled ↔ visit ∈ ofFeature profile feature := by
  simp only [ofFeature, Feature.doubled, List.filter_append, List.map_append, List.mem_append,
    or_self]

theorem Visit.mem_ofExtension_doubled (extension : Extension) (visit : Visit)
    : visit ∈ ofExtension profile extension.doubled ↔ visit ∈ ofExtension profile extension := by
  simp only [ofExtension, Extension.doubled, List.filter_append, List.map_append, List.mem_append,
    or_self]

end

-----------------------------------------------------------------------------------------
-- Registries with every block twice
-----------------------------------------------------------------------------------------

/-- What the walk leaves active of a table, up to what is looked at of its symbols. -/
theorem active_walk_map {α β : Type} (names : InterfaceBlock → List String)
    (visits : List Visit) (table : Table α) (view : α → β)
    : ((visits.foldl (fun table visit => table.actOn visit (names visit.block))
          table.track).active.map fun _ selected => (view selected.1, selected.2))
      = (visits.foldl (fun table visit => table.actOn visit (names visit.block))
          (table.map fun _ => view).track).active := by
  refine Table.ext ?_
  simp only [Table.map, entries_walk, List.filter_map, List.map_map]
  rfl

theorem Visit.missing_congr {α β : Type} {table : Table α} {other : Table β}
    (same : table.names = other.names) (names : List String)
    : missing table names = missing other names := by
  have contains (name : String) : table.contains name = other.contains name := by
    rw [Bool.eq_iff_iff, Table.contains_iff, Table.contains_iff, same]
  simp only [missing, contains]

namespace Registry

variable {twice once : Registry}

theorem Doubles.enumNames (doubles : twice.Doubles once)
    : twice.enums.names = once.enums.names := by
  have same := congrArg Table.names doubles.enums
  rwa [Table.names_map, Table.names_map] at same

theorem Doubles.commandNames (doubles : twice.Doubles once)
    : twice.commands.names = once.commands.names := by
  have same := congrArg Table.names doubles.commands
  rwa [Table.names_map, Table.names_map] at same

theorem Doubles.extensionValues (doubles : twice.Doubles once)
    : twice.extensions.values = once.extensions.values.map Extension.doubled := by
  rw [doubles.extensions, Table.values_map]

/-- Every block comes twice on the walk, and the events of a symbol come to the same. -/
theorem Doubles.ofEvents (doubles : twice.Doubles once) (profile : Profile)
    (names : InterfaceBlock → List String) (symbol : String)
    : SymbolState.ofEvents ((twice.visits profile).flatMap (Event.ofVisit names symbol))
      = SymbolState.ofEvents ((once.visits profile).flatMap (Event.ofVisit names symbol)) := by
  rw [← events_eq, ← events_eq, events, events, doubles.features, doubles.extensionValues,
    List.filter_map, List.filter_map, List.flatMap_map, List.flatMap_map]
  simp only [SymbolState.ofEvents_eq_run, SymbolState.run_append, SymbolState.run_flatMap,
    SymbolState.run_ofFeature_doubled, SymbolState.run_ofExtension_doubled]
  rfl

theorem Doubles.mem_visits (doubles : twice.Doubles once) (profile : Profile) (visit : Visit)
    : visit ∈ twice.visits profile ↔ visit ∈ once.visits profile := by
  rw [visits, visits, doubles.features, doubles.extensionValues, List.filter_map,
    List.filter_map, List.flatMap_map, List.flatMap_map]
  simp only [List.mem_append, List.mem_flatMap, Visit.mem_ofFeature_doubled,
    Visit.mem_ofExtension_doubled]
  rfl

theorem Doubles.unresolved (doubles : twice.Doubles once) (visit : Visit)
    : visit.unresolved twice = visit.unresolved once := by
  simp only [Visit.unresolved, Visit.missing_congr doubles.enumNames,
    Visit.missing_congr doubles.commandNames]

end Registry

/-- Two selections that differ in nothing but the blocks of features and extensions. -/
structure Resolution.SelectsAlike (one other : Resolution) : Prop where
  features
    : one.features.map (fun feature => (feature.api, feature.name, feature.number))
      = other.features.map fun feature => (feature.api, feature.name, feature.number)
  extensions
    : one.extensions.map (fun extension => (extension.name, extension.supported))
      = other.extensions.map fun extension => (extension.name, extension.supported)
  enums
    : (one.enums.map fun _ (enumerant, mentions) => (enumerant.facts, mentions))
      = other.enums.map fun _ (enumerant, mentions) => (enumerant.facts, mentions)
  commands
    : (one.commands.map fun _ (command, mentions) => (command.facts, mentions))
      = other.commands.map fun _ (command, mentions) => (command.facts, mentions)
  unresolved : ∀ reference, reference ∈ one.unresolved ↔ reference ∈ other.unresolved

namespace Registry

variable {twice once : Registry}

theorem Doubles.selectsAlike (doubles : twice.Doubles once) (profile : Profile)
    : (twice.resolve profile).SelectsAlike (once.resolve profile) where
  features := by
    change (twice.features.filter profile.takesFeature).map _ = _
    rw [doubles.features, List.filter_map, List.map_map]
    rfl
  extensions := by
    change (twice.extensions.values.filter profile.takesExtension).map _ = _
    rw [doubles.extensionValues, List.filter_map, List.map_map]
    rfl
  enums := by
    refine (active_walk_map InterfaceBlock.enums _ _ Enumerant.facts).trans (Eq.trans ?_
      (active_walk_map InterfaceBlock.enums _ _ Enumerant.facts).symm)
    rw [doubles.enums]
    exact congrArg Table.active
      (walk_congr _ fun name _ => doubles.ofEvents profile InterfaceBlock.enums name)
  commands := by
    refine (active_walk_map InterfaceBlock.commands _ _ Command.facts).trans (Eq.trans ?_
      (active_walk_map InterfaceBlock.commands _ _ Command.facts).symm)
    rw [doubles.commands]
    exact congrArg Table.active
      (walk_congr _ fun name _ => doubles.ofEvents profile InterfaceBlock.commands name)
  unresolved := by
    intro reference
    simp only [resolve, List.mem_flatMap, doubles.mem_visits, doubles.unresolved]

/-- Ingesting all sources once more changes nothing that a profile selects. -/
theorem resolve_reingested (api : Api) (sources : List Records) (profile : Profile)
    : ((ofRecords api (sources ++ sources)).resolve profile).SelectsAlike
        ((ofRecords api sources).resolve profile) :=
  (ofRecords_doubles api sources).selectsAlike profile

end Registry

end ApiBindings
