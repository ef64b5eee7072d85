import ApiBindings.Proofs.Merging.Extensions
import ApiBindings.Proofs.Reading.Headers
import ApiBindings.Proofs.Selection.Interfaces

/-! Headers of an interface resolve completely for that interface.
What a header stands for is declared for all profiles, removes nothing and requires every symbol of
the header. Merging puts versions and extensions of one name together with all of their blocks, so
each symbol stays required by everything that it was found under.
-/

namespace ApiBindings

-----------------------------------------------------------------------------------------
-- Sources that set no conditions
-----------------------------------------------------------------------------------------

/-- Sources declare a block that a feature or an extension requires. -/
inductive Requested (sources : List Records) : Requirer → InterfaceBlock → Prop
  | feature {feature : Feature} {block : InterfaceBlock}
    (declared : feature ∈ declaredFeatures sources) (required : block ∈ feature.requires)
    : Requested sources (.feature feature.name feature.number) block
  | extension {extension : Extension} {block : InterfaceBlock}
    (declared : extension ∈ extensionDeclarations sources extension.name)
    (required : block ∈ extension.requires)
    : Requested sources (.extension extension.name) block

/-- All features are of one interface, which names them by their numbers, and nothing that is
declared depends on the profile or removes anything.
-/
structure IsUnconditional (api : Api) (sources : List Records) : Prop where
  interface : ∀ feature ∈ declaredFeatures sources, feature.api = api.registryName
  named
    : ∀ feature ∈ declaredFeatures sources,
        feature.name = Header.featureName api feature.number
  keeps : ∀ feature ∈ declaredFeatures sources, feature.removes = []
  supported
    : ∀ name, ∀ extension ∈ extensionDeclarations sources name, extension.supported = []
  blocks
    : ∀ requirer block,
        Requested sources requirer block → block.profile = none ∧ block.api = none

namespace Registry

variable {api : Api} {sources : List Records}

/-- A merged feature is named by its number, as all of its declarations are, and removes nothing.
-/
theorem name_of_mem_features (unconditional : IsUnconditional api sources) {merged : Feature}
    (member : merged ∈ (ofRecords api sources).features)
    : merged.name = Header.featureName api merged.number ∧ merged.removes = [] := by
  obtain ⟨first, rest, shape, made⟩ := exists_declarations_of_mem_features member
  have declared : ∀ feature ∈ first :: rest, feature ∈ declaredFeatures sources := by
    intro feature among
    rw [← shape] at among
    exact (List.mem_filter.mp among).1
  subst made
  constructor
  · have number : (rest.foldl Feature.merge first).number = first.number :=
      congrArg Prod.snd (Feature.place_foldl_merge first rest)
    rw [Feature.name_foldl_merge, number]
    exact unconditional.named first (declared first List.mem_cons_self)
  · rw [Feature.removes_foldl_merge, List.flatMap_eq_nil_iff]
    intro feature among
    exact unconditional.keeps feature (declared feature among)

/-- A merged extension is for all interfaces, as all of its declarations are. -/
theorem supported_of_mem_extensions (unconditional : IsUnconditional api sources)
    {merged : Extension} (member : merged ∈ (ofRecords api sources).extensions.values)
    : merged.supported = [] := by
  obtain ⟨first, rest, shape, made⟩ := mem_extensions_iff.mp member
  rw [← made, Extension.supported_foldl_merge_eq_nil_iff, ← shape]
  exact unconditional.supported merged.name

/-- What the walk visits is declared as required. -/
theorem requested_of_mem_visits (unconditional : IsUnconditional api sources) {visit : Visit}
    (member : visit ∈ (ofRecords api sources).visits (.forApi api))
    : visit.action = .require ∧ Requested sources visit.requirer visit.block := by
  rcases List.mem_append.mp member with ofFeature | ofExtension
  · obtain ⟨merged, taken, visited⟩ := List.mem_flatMap.mp ofFeature
    have merges := (List.mem_filter.mp taken).1
    obtain ⟨name, removes⟩ := name_of_mem_features unconditional merges
    rcases List.mem_append.mp visited with requires | removed
    · obtain ⟨block, accepted, rfl⟩ := List.mem_map.mp requires
      obtain ⟨feature, declared, place, required⟩ :=
        exists_declared_of_mem_requires merges (List.mem_filter.mp accepted).1
      have number : feature.number = merged.number := congrArg Prod.snd place
      have sameName : feature.name = merged.name := by
        rw [name, ← number, unconditional.named feature declared]
      have requested : Requested sources (.feature feature.name feature.number) block :=
        .feature declared required
      rw [sameName, number] at requested
      exact ⟨rfl, requested⟩
    · obtain ⟨block, accepted, rfl⟩ := List.mem_map.mp removed
      rw [removes] at accepted
      cases accepted
  · obtain ⟨merged, taken, visited⟩ := List.mem_flatMap.mp ofExtension
    obtain ⟨block, accepted, rfl⟩ := List.mem_map.mp visited
    obtain ⟨first, rest, shape, made⟩ := mem_extensions_iff.mp (List.mem_filter.mp taken).1
    have required := (List.mem_filter.mp accepted).1
    rw [← made, Extension.requires_foldl_merge, ← shape] at required
    obtain ⟨extension, declared, inExtension⟩ := List.mem_flatMap.mp required
    have sameName := name_of_mem_extensionDeclarations sources merged.name extension declared
    have requested : Requested sources (.extension extension.name) block :=
      .extension (sameName ▸ declared) inExtension
    rw [sameName] at requested
    exact ⟨rfl, requested⟩

/-- What is declared as required is visited, for the feature or extension that it is merged into.
-/
theorem mem_visits_of_requested (unconditional : IsUnconditional api sources)
    {requirer : Requirer} {block : InterfaceBlock} (requested : Requested sources requirer block)
    : { requirer, action := .require, block } ∈ (ofRecords api sources).visits (.forApi api) := by
  obtain ⟨anyProfile, anyApi⟩ := unconditional.blocks requirer block requested
  have accepted : (Profile.forApi api).takesBlock block = true := by
    simp [Profile.takesBlock, Profile.looselyEqual, anyProfile, anyApi]
  cases requested with
  | @feature feature _ declared required =>
      obtain ⟨merged, merges, carries⟩ := exists_carries api declared
      have number : merged.number = feature.number := congrArg Prod.snd carries.place
      have interface : merged.api = api.registryName :=
        (congrArg Prod.fst carries.place).trans (unconditional.interface feature declared)
      have name : merged.name = feature.name := by
        rw [(name_of_mem_features unconditional merges).1, number,
          unconditional.named feature declared]
      have takes : (Profile.forApi api).takesFeature merged = true :=
        Profile.takesFeature_iff.mpr interface
      have taken := List.mem_filter.mpr ⟨merges, takes⟩
      have blocks := List.mem_filter.mpr ⟨carries.requires required, accepted⟩
      refine List.mem_append_left _ (List.mem_flatMap.mpr ⟨merged, taken, ?_⟩)
      refine List.mem_append_left _ (List.mem_map.mpr ⟨block, blocks, ?_⟩)
      rw [name, number]
  | @extension extension _ declared required =>
      obtain ⟨merged, merges, name, carries⟩ := exists_extends api declared
      have takes : (Profile.forApi api).takesExtension merged = true := by
        simp [Profile.takesExtension, Profile.lists, Profile.isSupported, Profile.forApi,
          supported_of_mem_extensions unconditional merges]
      have taken := List.mem_filter.mpr ⟨merges, takes⟩
      have blocks := List.mem_filter.mpr ⟨carries required, accepted⟩
      refine List.mem_append_right _ (List.mem_flatMap.mpr ⟨merged, taken, ?_⟩)
      refine List.mem_map.mpr ⟨block, blocks, ?_⟩
      rw [name]

end Registry

-----------------------------------------------------------------------------------------
-- Symbols that are all required
-----------------------------------------------------------------------------------------

/-- A selected symbol lists those who require it, each of which is an event. -/
theorem FollowsEvents.mem_requiredBy {α : Type} {events : String → List Event} {table : Table α}
    {selected : Table (α × Mentions)} (follows : FollowsEvents events table selected)
    {name : String} (active : name ∈ selected.names) {requirer : Requirer}
    (required : ⟨requirer, .require⟩ ∈ events name)
    : ∃ found, selected.find? name = some found ∧ requirer ∈ found.2.requiredBy := by
  obtain ⟨found, selects⟩ := Option.isSome_iff_exists.mp (Table.contains_iff.mpr active)
  refine ⟨found, selects, ?_⟩
  rw [follows.requiredBy selects, Event.requirers, List.mem_eraseDups, List.mem_map]
  exact ⟨_, List.mem_filter.mpr ⟨required, rfl⟩, rfl⟩

namespace Registry

variable {api : Api} {sources : List Records}

/-- A block that is declared as required is an event of every symbol that it names. -/
theorem mem_events_of_requested (unconditional : IsUnconditional api sources)
    {requirer : Requirer} {block : InterfaceBlock} (requested : Requested sources requirer block)
    {names : InterfaceBlock → List String} {name : String} (named : name ∈ names block)
    : ⟨requirer, .require⟩ ∈ (ofRecords api sources).events (.forApi api) names name := by
  rw [events_eq, Event.mem_flatMap_ofVisit]
  exact ⟨_, mem_visits_of_requested unconditional requested, named, rfl⟩

/-- All of the walk's events require, so what has one is required last. -/
theorem lastRequires_of_requested (unconditional : IsUnconditional api sources)
    {requirer : Requirer} {block : InterfaceBlock} (requested : Requested sources requirer block)
    {names : InterfaceBlock → List String} {name : String} (named : name ∈ names block)
    : Event.lastRequires ((ofRecords api sources).events (.forApi api) names name) = true := by
  rw [Event.lastRequires_iff]
  · exact ⟨_, mem_events_of_requested unconditional requested named, rfl⟩
  · intro event member
    rw [events_eq, Event.mem_flatMap_ofVisit] at member
    obtain ⟨visit, visited, -, rfl⟩ := member
    exact unhonored_visits rfl visit visited

/-- Nothing is unresolved if every block that is declared as required names known symbols. -/
theorem unresolved_eq_nil (unconditional : IsUnconditional api sources)
    (enums
      : ∀ requirer block,
          Requested sources requirer block
          → ∀ name ∈ block.enums, (ofRecords api sources).enums.contains name = true)
    (commands
      : ∀ requirer block,
          Requested sources requirer block
          → ∀ name ∈ block.commands, (ofRecords api sources).commands.contains name = true)
    : ((ofRecords api sources).resolve (.forApi api)).unresolved = [] := by
  refine List.flatMap_eq_nil_iff.mpr fun visit visited => ?_
  obtain ⟨-, requested⟩ := requested_of_mem_visits unconditional visited
  have known {α : Type} {table : Table α} {names : List String}
      (contained : ∀ name ∈ names, table.contains name = true)
      : Visit.missing table names = [] := by
    have none : names.filter (fun name => !table.contains name) = [] :=
      List.filter_eq_nil_iff.mpr fun name member => by simp [contained name member]
    rw [Visit.missing, none]
    rfl
  rw [Visit.unresolved, known (enums _ _ requested), known (commands _ _ requested)]
  rfl

end Registry

-----------------------------------------------------------------------------------------
-- Headers
-----------------------------------------------------------------------------------------

namespace Header

variable {api : Api} {headers : List (List Marker × List Fragment)}

theorem mem_extensionDeclarations_iff {extension : Extension} {name : String}
    : extension ∈ extensionDeclarations (sources api headers) name
      ↔ extension.name = name
        ∧ ∃ share ∈ declarations api headers, extension ∈ share.2.extensions := by
  rw [extensionDeclarations, List.mem_filter, decide_eq_true_eq, and_comm]
  exact and_congr_right fun _ => mem_sources_iff .extensions

/-- A feature of headers stands for one of the fragments. -/
theorem standFor_of_mem_features {feature : Feature}
    (declared : feature ∈ declaredFeatures (sources api headers))
    : ∃ share ∈ declarations api headers,
        ∃ number,
          share.1.role = .feature number
          ∧ feature
            = {
              api := api.registryName
              name := featureName api number
              number
              requires := [required share.2]
              removes := []
            } := by
  obtain ⟨share, member, found⟩ := (mem_sources_iff .features).mp declared
  refine ⟨share, member, ?_⟩
  have found : feature ∈ (standFor api share.1.role share.2).features :=
    (standsFor_of_mem_declarations member).features ▸ found
  cases role : share.1.role with
  | feature number =>
      rw [role] at found
      exact ⟨number, rfl, List.mem_singleton.mp found⟩
  | extension name =>
      rw [role] at found
      cases found

/-- An extension of headers stands for one of the fragments. -/
theorem standFor_of_mem_extensions {extension : Extension} {name : String}
    (declared : extension ∈ extensionDeclarations (sources api headers) name)
    : ∃ share ∈ declarations api headers,
        share.1.role = .extension name
        ∧ extension = { name, supported := [], requires := [required share.2] } := by
  obtain ⟨rfl, share, member, found⟩ := mem_extensionDeclarations_iff.mp declared
  refine ⟨share, member, ?_⟩
  have found : extension ∈ (standFor api share.1.role share.2).extensions :=
    (standsFor_of_mem_declarations member).extensions ▸ found
  cases role : share.1.role with
  | feature number =>
      rw [role] at found
      cases found
  | extension name =>
      rw [role] at found
      obtain rfl := List.mem_singleton.mp found
      exact ⟨rfl, rfl⟩

/-- What a fragment stands for requires what was found in the fragment, and nothing else is
required.
-/
theorem requested_iff {requirer : Requirer} {block : InterfaceBlock}
    : Requested (sources api headers) requirer block
      ↔ ∃ share ∈ declarations api headers,
          requirer = share.1.role.requirer api ∧ block = required share.2 := by
  constructor
  · intro requested
    cases requested with
    | @feature feature _ declared inFeature =>
        obtain ⟨share, member, number, role, rfl⟩ := standFor_of_mem_features declared
        refine ⟨share, member, ?_, List.mem_singleton.mp inFeature⟩
        rw [role, Role.requirer]
    | @extension extension _ declared inExtension =>
        obtain ⟨share, member, role, made⟩ := standFor_of_mem_extensions declared
        rw [made] at inExtension
        refine ⟨share, member, ?_, List.mem_singleton.mp inExtension⟩
        rw [role, Role.requirer]
  · rintro ⟨share, member, rfl, rfl⟩
    have standsFor := standsFor_of_mem_declarations member
    cases role : share.1.role with
    | feature number =>
        rw [role] at standsFor
        have declared
            : { api := api.registryName, name := featureName api number, number
                requires := [required share.2], removes := [] }
              ∈ declaredFeatures (sources api headers) := by
          refine (mem_sources_iff .features).mpr ⟨share, member, ?_⟩
          change _ ∈ share.2.features
          rw [standsFor.features]
          exact List.mem_singleton_self _
        exact Requested.feature declared (List.mem_singleton_self _)
    | extension name =>
        rw [role] at standsFor
        have declared
            : { name, supported := [], requires := [required share.2] }
              ∈ extensionDeclarations (sources api headers) name := by
          refine mem_extensionDeclarations_iff.mpr ⟨rfl, share, member, ?_⟩
          rw [standsFor.extensions]
          exact List.mem_singleton_self _
        exact Requested.extension declared (List.mem_singleton_self _)

/-- Headers set no conditions: what they stand for is of their interface and for all profiles. -/
theorem isUnconditional_sources (api : Api) (headers : List (List Marker × List Fragment))
    : IsUnconditional api (sources api headers) := by
  refine {
    interface := ?_
    named := ?_
    keeps := ?_
    supported := ?_
    blocks := ?_
  }
  · intro feature declared
    obtain ⟨share, -, number, -, rfl⟩ := standFor_of_mem_features declared
    rfl
  · intro feature declared
    obtain ⟨share, -, number, -, rfl⟩ := standFor_of_mem_features declared
    rfl
  · intro feature declared
    obtain ⟨share, -, number, -, rfl⟩ := standFor_of_mem_features declared
    rfl
  · intro name extension declared
    obtain ⟨share, -, -, rfl⟩ := standFor_of_mem_extensions declared
    rfl
  · intro requirer block requested
    obtain ⟨share, -, -, rfl⟩ := requested_iff.mp requested
    exact ⟨rfl, rfl⟩

/-- The names of what headers declare are those that the blocks of their fragments list. -/
theorem mem_eraseDups_names_iff {α : Type} (part : Findings.Part α) (key : α → String)
    {name : String}
    : name
        ∈ (((sources api headers).flatMap fun source =>
            part.of source.toFindings).map key).eraseDups
      ↔ ∃ share ∈ declarations api headers, name ∈ ((part.of share.2).map key).eraseDups := by
  simp only [List.mem_eraseDups, List.mem_map, mem_sources_iff]
  constructor
  · rintro ⟨value, ⟨share, member, found⟩, rfl⟩
    exact ⟨share, member, value, found, rfl⟩
  · rintro ⟨share, member, value, found, rfl⟩
    exact ⟨value, ⟨share, member, found⟩, rfl⟩

/-- The registry of headers knows the enumerants that the blocks of their fragments list. -/
theorem mem_enumNames_iff {name : String}
    : name ∈ (Registry.ofRecords api (sources api headers)).enums.names
      ↔ ∃ share ∈ declarations api headers, name ∈ (required share.2).enums := by
  rw [Registry.enumNames_ofRecords, Registry.enumNames_built]
  exact mem_eraseDups_names_iff .enums Enumerant.name

/-- The registry of headers knows the commands that the blocks of their fragments list. -/
theorem mem_commandNames_iff {name : String}
    : name ∈ (Registry.ofRecords api (sources api headers)).commands.names
      ↔ ∃ share ∈ declarations api headers, name ∈ (required share.2).commands := by
  have names : (Registry.ofRecords api (sources api headers)).commands.names = _ :=
    Registry.commandNames_built api (sources api headers)
  rw [names]
  exact mem_eraseDups_names_iff .commands Command.name

/-- A name that the block of a fragment lists is required last, and by what the fragment stands for.
-/
theorem required_of_mem_declarations {share : Fragment × Findings}
    (member : share ∈ declarations api headers) {names : InterfaceBlock → List String}
    {name : String} (named : name ∈ names (required share.2))
    : let events :=
        (Registry.ofRecords api (sources api headers)).events (.forApi api) names name
      Event.lastRequires events = true
      ∧ ⟨share.1.role.requirer api, .require⟩ ∈ events := by
  have unconditional := isUnconditional_sources api headers
  have requested := requested_iff.mpr ⟨share, member, rfl, rfl⟩
  exact ⟨Registry.lastRequires_of_requested unconditional requested named,
    Registry.mem_events_of_requested unconditional requested named⟩

/-- What is selected of a table holds all of it if every name of the table is listed by the block of
a fragment.
-/
theorem selected_of_declarations {α : Type} {names : InterfaceBlock → List String}
    {table : Table α} {selected : Table (α × Mentions)}
    (follows
      : FollowsEvents
          ((Registry.ofRecords api (sources api headers)).events (.forApi api) names) table
          selected)
    (listed
      : ∀ {name},
          name ∈ table.names
          ↔ ∃ share ∈ declarations api headers, name ∈ names (required share.2))
    : selected.names = table.names
      ∧ ∀ share ∈ declarations api headers,
          ∀ name ∈ names (required share.2),
            ∃ found,
              selected.find? name = some found
              ∧ share.1.role.requirer api ∈ found.2.requiredBy := by
  have complete : selected.names = table.names := by
    rw [follows.names, List.filter_eq_self]
    intro name known
    obtain ⟨share, member, named⟩ := listed.mp known
    exact (required_of_mem_declarations member named).1
  refine ⟨complete, fun share member name named => ?_⟩
  have active : name ∈ selected.names := by
    rw [complete]
    exact listed.mpr ⟨share, member, named⟩
  exact follows.mem_requiredBy active (required_of_mem_declarations member named).2

end Header

/-- Headers resolve completely for their interface: every enumerant and every command is active,
no reference is unresolved, and each symbol is required by the version or extension of every
fragment that declares it.
-/
theorem Registry.resolve_headers (api : Api)
    (headers : List (List Header.Marker × List Header.Fragment))
    : let registry := ofRecords api (Header.sources api headers)
      let resolution := registry.resolve (.forApi api)
      resolution.enums.names = registry.enums.names
      ∧ resolution.commands.names = registry.commands.names
      ∧ resolution.unresolved = []
      ∧ ∀ share ∈ Header.declarations api headers,
          (∀ enumerant ∈ share.2.enums,
            ∃ found,
              resolution.enums.find? enumerant.name = some found
              ∧ share.1.role.requirer api ∈ found.2.requiredBy)
          ∧ ∀ command ∈ share.2.commands,
              ∃ found,
                resolution.commands.find? command.name = some found
                ∧ share.1.role.requirer api ∈ found.2.requiredBy := by
  intro registry resolution
  obtain ⟨followsEnums, followsCommands⟩ := registry.resolve_followsEvents (.forApi api)
  obtain ⟨allEnums, enumsRequired⟩ :=
    Header.selected_of_declarations followsEnums Header.mem_enumNames_iff
  obtain ⟨allCommands, commandsRequired⟩ :=
    Header.selected_of_declarations followsCommands Header.mem_commandNames_iff
  refine ⟨allEnums, allCommands, ?_, fun share member => ⟨?_, ?_⟩⟩
  · refine unresolved_eq_nil (Header.isUnconditional_sources api headers) ?_ ?_
    · intro requirer block requested name named
      obtain ⟨share, member, -, rfl⟩ := Header.requested_iff.mp requested
      exact Table.contains_iff.mpr (Header.mem_enumNames_iff.mpr ⟨share, member, named⟩)
    · intro requirer block requested name named
      obtain ⟨share, member, -, rfl⟩ := Header.requested_iff.mp requested
      exact Table.contains_iff.mpr (Header.mem_commandNames_iff.mpr ⟨share, member, named⟩)
  · intro enumerant declared
    refine enumsRequired share member enumerant.name ?_
    exact List.mem_eraseDups.mpr (List.mem_map_of_mem declared)
  · intro command declared
    refine commandsRequired share member command.name ?_
    exact List.mem_eraseDups.mpr (List.mem_map_of_mem declared)

end ApiBindings
