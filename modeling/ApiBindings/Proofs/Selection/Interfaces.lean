import ApiBindings.Proofs.Merging.Features
import ApiBindings.Proofs.Reading.Features
import ApiBindings.Proofs.Selection.Events

/-! What is selected of a document for the interface that it was read for.
A document is read for an interface with every feature and block whose list of interfaces has it.
Selection compares the list as a whole with the interface, and so it passes over what was read for
several interfaces.
-/

namespace ApiBindings

-----------------------------------------------------------------------------------------
-- Selection without removals
-----------------------------------------------------------------------------------------

/-- Where no removal is honored, a symbol is required last if it is required at all. -/
theorem Event.lastRequires_iff {events : List Event}
    (unhonored : ∀ event ∈ events, event.action ≠ .remove true)
    : lastRequires events = true ↔ ∃ event ∈ events, event.action = .require := by
  have counted : events.filter counts = events.filter requires := by
    refine List.filter_congr fun event member => ?_
    have honored := unhonored event member
    cases action : event.action with
    | require => simp [counts, requires, action]
    | remove honors =>
        cases honors with
        | false => simp [counts, requires, action]
        | true => exact absurd action honored
  rw [lastRequires, counted, Option.any_eq_true]
  constructor
  · rintro ⟨last, found, isRequire⟩
    have member := List.mem_of_getLast? found
    exact ⟨last, (List.mem_filter.mp member).1, by simpa [requires] using isRequire⟩
  · rintro ⟨event, member, isRequire⟩
    have inRequires : event ∈ events.filter requires :=
      List.mem_filter.mpr ⟨member, by simpa [requires] using isRequire⟩
    have found := List.getLast?_eq_some_getLast (List.ne_nil_of_mem inRequires)
    exact ⟨_, found, (List.mem_filter.mp (List.mem_of_getLast? found)).2⟩

/-- A walk that honors no removal leaves the known names active that its blocks require. -/
theorem contains_walk_iff {α : Type} {names : InterfaceBlock → List String}
    {visits : List Visit} {table : Table α} {name : String}
    (unhonored : ∀ visit ∈ visits, visit.action ≠ .remove true)
    : (visits.foldl (fun table visit => table.actOn visit (names visit.block))
          table.track).active.contains name
        = true
      ↔ table.contains name = true
        ∧ ∃ visit ∈ visits, visit.action = .require ∧ name ∈ names visit.block := by
  rw [Table.contains_iff, (walk_followsEvents names visits table).names, List.mem_filter,
    ← Table.contains_iff, Event.lastRequires_iff]
  · refine and_congr_right fun _ => ?_
    constructor
    · rintro ⟨event, member, isRequire⟩
      obtain ⟨visit, visited, named, rfl⟩ := Event.mem_flatMap_ofVisit.mp member
      exact ⟨visit, visited, isRequire, named⟩
    · rintro ⟨visit, visited, isRequire, named⟩
      exact ⟨_, Event.mem_flatMap_ofVisit.mpr ⟨visit, visited, named, rfl⟩, isRequire⟩
  · intro event member
    obtain ⟨visit, visited, -, rfl⟩ := Event.mem_flatMap_ofVisit.mp member
    exact unhonored visit visited

namespace Registry

variable {registry : Registry} {profile : Profile}

/-- A name is required by blocks that a profile accepts, of the features and extensions that it
takes.
-/
def Requires (registry : Registry) (profile : Profile) (names : InterfaceBlock → List String)
    (name : String)
    : Prop :=
  (∃ feature ∈ registry.features,
    profile.takesFeature feature = true
    ∧ ∃ block ∈ feature.requires, profile.takesBlock block = true ∧ name ∈ names block)
  ∨ ∃ extension ∈ registry.extensions.values,
      profile.takesExtension extension = true
      ∧ ∃ block ∈ extension.requires, profile.takesBlock block = true ∧ name ∈ names block

theorem unhonored_visits (unhonored : profile.honorsRemovals = false)
    : ∀ visit ∈ registry.visits profile, visit.action ≠ .remove true := by
  intro visit member
  rcases List.mem_append.mp member with ofFeature | ofExtension
  · obtain ⟨feature, -, visited⟩ := List.mem_flatMap.mp ofFeature
    rcases List.mem_append.mp visited with requires | removes
    · obtain ⟨block, -, rfl⟩ := List.mem_map.mp requires
      simp
    · obtain ⟨block, -, rfl⟩ := List.mem_map.mp removes
      simp [unhonored]
  · obtain ⟨extension, -, visited⟩ := List.mem_flatMap.mp ofExtension
    obtain ⟨block, -, rfl⟩ := List.mem_map.mp visited
    simp

/-- The blocks that require on the walk are those that the profile accepts. -/
theorem exists_visit_iff {names : InterfaceBlock → List String} {name : String}
    : (∃ visit ∈ registry.visits profile,
          visit.action = .require ∧ name ∈ names visit.block)
      ↔ registry.Requires profile names name := by
  constructor
  · rintro ⟨visit, member, isRequire, named⟩
    rcases List.mem_append.mp member with ofFeature | ofExtension
    · obtain ⟨feature, taken, visited⟩ := List.mem_flatMap.mp ofFeature
      obtain ⟨inRegistry, takes⟩ := List.mem_filter.mp taken
      rcases List.mem_append.mp visited with requires | removes
      · obtain ⟨block, accepted, rfl⟩ := List.mem_map.mp requires
        obtain ⟨required, accepts⟩ := List.mem_filter.mp accepted
        exact Or.inl ⟨feature, inRegistry, takes, block, required, accepts, named⟩
      · obtain ⟨block, -, rfl⟩ := List.mem_map.mp removes
        cases isRequire
    · obtain ⟨extension, taken, visited⟩ := List.mem_flatMap.mp ofExtension
      obtain ⟨inRegistry, takes⟩ := List.mem_filter.mp taken
      obtain ⟨block, accepted, rfl⟩ := List.mem_map.mp visited
      obtain ⟨required, accepts⟩ := List.mem_filter.mp accepted
      exact Or.inr ⟨extension, inRegistry, takes, block, required, accepts, named⟩
  · rintro (⟨feature, inRegistry, takes, block, required, accepts, named⟩
      | ⟨extension, inRegistry, takes, block, required, accepts, named⟩)
    · have ofFeature
          : ⟨.feature feature.name feature.number, .require, block⟩
            ∈ Visit.ofFeature profile feature :=
        List.mem_append_left _ (List.mem_map_of_mem (List.mem_filter.mpr ⟨required, accepts⟩))
      have taken := List.mem_filter.mpr ⟨inRegistry, takes⟩
      exact ⟨_, List.mem_append_left _ (List.mem_flatMap.mpr ⟨feature, taken, ofFeature⟩),
        rfl, named⟩
    · have ofExtension
          : ⟨.extension extension.name, .require, block⟩
            ∈ Visit.ofExtension profile extension :=
        List.mem_map_of_mem (List.mem_filter.mpr ⟨required, accepts⟩)
      have taken := List.mem_filter.mpr ⟨inRegistry, takes⟩
      exact ⟨_, List.mem_append_right _ (List.mem_flatMap.mpr ⟨extension, taken, ofExtension⟩),
        rfl, named⟩

theorem contains_enums_resolve_iff (unhonored : profile.honorsRemovals = false) {name : String}
    : (registry.resolve profile).enums.contains name = true
      ↔ registry.enums.contains name = true
        ∧ registry.Requires profile InterfaceBlock.enums name := by
  rw [← exists_visit_iff]
  exact contains_walk_iff (unhonored_visits unhonored)

theorem contains_commands_resolve_iff (unhonored : profile.honorsRemovals = false)
    {name : String}
    : (registry.resolve profile).commands.contains name = true
      ↔ registry.commands.contains name = true
        ∧ registry.Requires profile InterfaceBlock.commands name := by
  rw [← exists_visit_iff]
  exact contains_walk_iff (unhonored_visits unhonored)

end Registry

-----------------------------------------------------------------------------------------
-- Selection for one interface
-----------------------------------------------------------------------------------------

/-- Blocks require a name for an interface if one that has the name lists no interfaces, or just
that interface.
-/
def RequireFor (interface : String) (names : InterfaceBlock → List String) (name : String)
    (blocks : List InterfaceBlock)
    : Prop :=
  ∃ block ∈ blocks, (∀ list ∈ block.api, list = interface) ∧ name ∈ names block

section

variable {title interface : String}

theorem Profile.takesFeature_iff {feature : Feature}
    : takesFeature { name := title, api := some interface } feature = true
      ↔ feature.api = interface := by
  rw [takesFeature_eq]
  simp only [Option.all_some, Option.all_none, Bool.and_true, beq_iff_eq]
  exact eq_comm

theorem Profile.takesBlock_iff {block : InterfaceBlock}
    : takesBlock { name := title, api := some interface } block = true
      ↔ ∀ list ∈ block.api, list = interface := by
  unfold takesBlock
  cases block.profile <;> cases block.api <;> simp [looselyEqual]

namespace Registry

variable {api : Api} {sources : List Records}

/-- A feature that a source declares is selected with all of its blocks just if the interface is
all that it lists.
-/
theorem exists_selected_iff {feature : Feature} (declared : feature ∈ declaredFeatures sources)
    : (∃ selected
          ∈ ((ofRecords api sources).resolve { name := title, api := some interface }).features,
          selected.Carries feature)
      ↔ feature.api = interface := by
  constructor
  · rintro ⟨selected, member, carries⟩
    have takes := Profile.takesFeature_iff.mp (List.mem_filter.mp member).2
    exact (congrArg Prod.fst carries.place).symm.trans takes
  · intro alone
    obtain ⟨merged, member, carries⟩ := exists_carries api declared
    have takes : merged.api = interface := (congrArg Prod.fst carries.place).trans alone
    exact ⟨merged, List.mem_filter.mpr ⟨member, Profile.takesFeature_iff.mpr takes⟩, carries⟩

/-- The names that a registry requires for an interface are those that the declared features of
that interface require for it, and the selected extensions.
-/
theorem requires_iff {names : InterfaceBlock → List String} {name : String}
    : (ofRecords api sources).Requires { name := title, api := some interface } names name
      ↔ (∃ feature ∈ declaredFeatures sources,
            feature.api = interface ∧ RequireFor interface names name feature.requires)
        ∨ ∃ extension
            ∈ ((ofRecords api sources).resolve
                { name := title, api := some interface }).extensions,
            RequireFor interface names name extension.requires := by
  simp only [Requires, Profile.takesFeature_iff, Profile.takesBlock_iff]
  refine or_congr ?_ ?_
  · constructor
    · rintro ⟨merged, member, alone, block, required, accepted, named⟩
      obtain ⟨feature, declared, place, inFeature⟩ :=
        exists_declared_of_mem_requires member required
      exact ⟨feature, declared, (congrArg Prod.fst place).trans alone, block, inFeature,
        accepted, named⟩
    · rintro ⟨feature, declared, alone, block, required, accepted, named⟩
      obtain ⟨merged, member, carries⟩ := exists_carries api declared
      exact ⟨merged, member, (congrArg Prod.fst carries.place).trans alone, block,
        carries.requires required, accepted, named⟩
  · simp only [resolve, List.mem_filter, and_assoc, RequireFor]

/-- What is selected of a document for the interface that it is read for. The document has only
features and blocks whose lists of interfaces have it. Of the features, just those are selected
that list nothing else, and of the blocks of these and of the selected extensions, just those
that list nothing else make the known names in them active.
-/
theorem read_selected_iff [Markup.Library] (api : Api) (interface title input text : String)
    : let found := Document.read { name := input, api := some interface } text
      let registry := ofRecords api [found]
      let resolution := registry.resolve { name := title, api := some interface }
      (∀ feature ∈ found.features,
        Document.IsFor interface feature
        ∧ ((∃ selected ∈ resolution.features, selected.Carries feature)
          ↔ feature.api = interface))
      ∧ (∀ name,
        resolution.enums.contains name = true
        ↔ registry.enums.contains name = true
          ∧ ((∃ feature ∈ found.features,
                feature.api = interface
                ∧ RequireFor interface InterfaceBlock.enums name feature.requires)
            ∨ ∃ extension ∈ resolution.extensions,
                RequireFor interface InterfaceBlock.enums name extension.requires))
      ∧ ∀ name,
        resolution.commands.contains name = true
        ↔ registry.commands.contains name = true
          ∧ ((∃ feature ∈ found.features,
                feature.api = interface
                ∧ RequireFor interface InterfaceBlock.commands name feature.requires)
            ∨ ∃ extension ∈ resolution.extensions,
                RequireFor interface InterfaceBlock.commands name extension.requires) := by
  intro found registry resolution
  have declared : declaredFeatures [found] = found.features := by
    simp [declaredFeatures]
  refine ⟨fun feature member => ⟨Document.isFor_of_mem_read rfl member, ?_⟩,
    fun name => ?_, fun name => ?_⟩
  · exact exists_selected_iff (by rwa [declared])
  · rw [← declared, ← requires_iff]
    exact contains_enums_resolve_iff rfl
  · rw [← declared, ← requires_iff]
    exact contains_commands_resolve_iff rfl

/-- A feature for two interfaces is read for each of them, and selected for neither. -/
theorem sharedFeature_passedOver
    : let found := Document.read { name := "gl.xml", api := some "gl" }
        "<registry><feature api=\"gl|gles2\" name=\"V\" number=\"1.0\"/></registry>"
      let resolution := (ofRecords .gl [found]).resolve { name := "gl", api := some "gl" }
      ¬∀ feature ∈ found.features,
        ∃ selected ∈ resolution.features, selected.Carries feature := by
  decide +kernel

end Registry

end

end ApiBindings
