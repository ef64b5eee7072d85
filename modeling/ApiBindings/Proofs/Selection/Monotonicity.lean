import ApiBindings.Proofs.Merging.Arrangement
import ApiBindings.Proofs.Selection.Interfaces

/-! Profiles that take more select more.
A symbol is active if it was required last. Extensions come behind all features and remove nothing,
so more of them cannot switch off a symbol, and neither can removals that are not honored. Greater
versions can bring removals, so they select more only where removals are not honored.
-/

namespace ApiBindings

/-- What is left out of a list adds nothing to what its elements stand for. -/
theorem flatMap_filter {α β : Type} (keeps : α → Bool) (members : α → List β) (list : List α)
    : (list.filter keeps).flatMap members
      = list.flatMap fun element => if keeps element then members element else [] := by
  induction list with
  | nil => rfl
  | cons first rest ih =>
      rw [List.filter_cons, List.flatMap_cons, ← ih]
      split
      · exact List.flatMap_cons
      · rfl

-----------------------------------------------------------------------------------------
-- Events that are left out or not honored
-----------------------------------------------------------------------------------------

namespace Event

/-- The last event decides about activity if it counts. -/
theorem lastRequires_concat (front : List Event) (last : Event)
    : lastRequires (front ++ [last])
      = if last.counts then last.requires else lastRequires front := by
  unfold lastRequires
  rw [List.filter_append, List.filter_singleton]
  cases last.counts with
  | false => simp
  | true => simp

variable {keeps : Requirer → Bool} {events : List Event}

/-- A symbol is still active if others require it as well, wherever they come in. By induction on
the events from the back.
-/
theorem lastRequires_of_filter
    (more : ∀ event ∈ events, keeps event.requirer = false → event.action = .require)
    (active : lastRequires (events.filter fun event => keeps event.requirer) = true)
    : lastRequires events = true := by
  induction events using List.reverseRecOn with
  | nil => exact active
  | append_singleton front last ih =>
      rw [lastRequires_concat]
      rw [List.filter_append, List.filter_singleton] at active
      cases kept : keeps last.requirer with
      | false =>
          have isRequire := more last (by simp) kept
          simp [counts, requires, isRequire]
      | true =>
          rw [kept, cond_true, lastRequires_concat] at active
          split
          · rename_i decides
            rwa [if_pos decides] at active
          · rename_i passed
            rw [if_neg passed] at active
            exact ih (fun event member => more event (List.mem_append_left _ member)) active

theorem requirers_filter (keeps : Requirer → Bool) (events : List Event)
    : requirers (events.filter fun event => keeps event.requirer)
      = (requirers events).filter keeps := by
  rw [requirers, requirers, ← eraseDups_filter, List.filter_map, List.filter_filter,
    List.filter_filter]
  simp only [Function.comp_def, Bool.and_comm]

/-- The event if removals are not honored. -/
def unhonored (event : Event) : Event :=
  match event.action with
  | .require => event
  | .remove _ => { event with action := .remove false }

theorem requires_unhonored (event : Event) : event.unhonored.requires = event.requires := by
  cases action : event.action <;> simp [unhonored, requires, action]

theorem requirer_unhonored (event : Event) : event.unhonored.requirer = event.requirer := by
  cases action : event.action <;> simp [unhonored, action]

/-- Who requires a symbol and who removes it does not depend on what is honored. -/
theorem mentions_unhonored (events : List Event)
    : (SymbolState.ofEvents (events.map unhonored)).mentions
      = (SymbolState.ofEvents events).mentions := by
  simp only [SymbolState.ofEvents, requirers, removers, List.filter_map, List.map_map,
    Function.comp_def, requires_unhonored, requirer_unhonored]

/-- An active symbol was required, which is enough if nothing is honored. -/
theorem lastRequires_unhonored (active : lastRequires events = true)
    : lastRequires (events.map unhonored) = true := by
  rw [lastRequires, Option.any_eq_true] at active
  rw [lastRequires_iff]
  · obtain ⟨last, found, isRequire⟩ := active
    have member := (List.mem_filter.mp (List.mem_of_getLast? found)).1
    refine ⟨last.unhonored, List.mem_map_of_mem member, ?_⟩
    simpa only [requires, decide_eq_true_eq] using (requires_unhonored last).trans isRequire
  · intro event member
    obtain ⟨event, -, rfl⟩ := List.mem_map.mp member
    cases action : event.action <;> simp [unhonored, action]

end Event

-----------------------------------------------------------------------------------------
-- Events under two profiles
-----------------------------------------------------------------------------------------

/-- A filter leaves in features, and the extensions that it lists. -/
def ExtensionFilter.keeps (filter : ExtensionFilter) : Requirer → Bool
  | .feature .. => true
  | .extension name =>
      match filter with
      | .all => true
      | .only names => names.contains name
      | .none => false

theorem Profile.lists_eq (profile : Profile) (extension : Extension)
    : profile.lists extension = profile.extensions.keeps (.extension extension.name) := by
  unfold lists ExtensionFilter.keeps
  cases profile.extensions <;> rfl

namespace Registry

variable {registry : Registry} {profile : Profile} {names : InterfaceBlock → List String}
  {symbol : String}

/-- Under a filter that lists less, a symbol has those events that the filter leaves in. -/
theorem events_narrowed {fewer more : ExtensionFilter}
    (listed
      : ∀ extension ∈ registry.extensions.values,
          fewer.keeps (.extension extension.name) = true
          → more.keeps (.extension extension.name) = true)
    : registry.events { profile with extensions := fewer } names symbol
      = (registry.events { profile with extensions := more } names symbol).filter fun event =>
          fewer.keeps event.requirer := by
  have ofFeature (feature : Feature)
      : (Event.ofFeature { profile with extensions := more } names symbol feature).filter
            (fun event => fewer.keeps event.requirer)
        = Event.ofFeature { profile with extensions := fewer } names symbol feature := by
    refine List.filter_eq_self.mpr fun event member => ?_
    rcases List.mem_append.mp member with required | removed
    · rw [(Event.requirer_of_mem_ofBlocks required).1]
      rfl
    · rw [(Event.requirer_of_mem_ofBlocks removed).1]
      rfl
  have ofExtension (extension : Extension)
      : (Event.ofExtension { profile with extensions := more } names symbol extension).filter
            (fun event => fewer.keeps event.requirer)
        = if fewer.keeps (.extension extension.name) then
            Event.ofExtension { profile with extensions := fewer } names symbol extension
          else
            [] := by
    split
    · rename_i kept
      refine List.filter_eq_self.mpr fun event member => ?_
      rwa [(Event.requirer_of_mem_ofBlocks member).1]
    · rename_i dropped
      refine List.filter_eq_nil_iff.mpr fun event member => ?_
      rwa [(Event.requirer_of_mem_ofBlocks member).1]
  have taken
      : registry.extensions.values.filter
            ({ profile with extensions := fewer } : Profile).takesExtension
        = (registry.extensions.values.filter
            ({ profile with extensions := more } : Profile).takesExtension).filter
            fun extension => fewer.keeps (.extension extension.name) := by
    rw [List.filter_filter]
    refine List.filter_congr fun extension member => ?_
    have sub := listed extension member
    rw [Profile.takesExtension, Profile.takesExtension, Profile.lists_eq, Profile.lists_eq]
    cases kept : fewer.keeps (.extension extension.name) with
    | false => simp
    | true => simp [sub kept, Profile.isSupported]
  rw [events, events, taken, List.filter_append, List.filter_flatMap, List.filter_flatMap,
    flatMap_filter (fun extension : Extension => fewer.keeps (.extension extension.name))]
  simp only [ofFeature, ofExtension]

/-- Honored or not, the same removals are noted. -/
theorem events_unhonored
    : registry.events { profile with honorsRemovals := false } names symbol
      = (registry.events { profile with honorsRemovals := true } names symbol).map
          Event.unhonored := by
  simp only [events, Event.ofFeature, Event.ofExtension, Event.ofBlocks, List.map_append,
    List.map_flatMap, List.map_replicate, Event.unhonored]
  rfl

end Registry

-----------------------------------------------------------------------------------------
-- What is selected under two profiles
-----------------------------------------------------------------------------------------

/-- A greatest version is raised, or given up. -/
inductive RaisesTo : Option Version → Option Version → Prop
  | dropped (lower : Option Version) : RaisesTo lower none
  | raised {lower higher : Version} (upTo : lower.le higher = true)
    : RaisesTo (some lower) (some higher)

theorem Profile.takesFeature_raised {profile : Profile} {lower higher : Option Version}
    (raises : RaisesTo lower higher) {feature : Feature}
    (takes : takesFeature { profile with maxVersion := lower } feature = true)
    : takesFeature { profile with maxVersion := higher } feature = true := by
  rw [takesFeature_eq, Bool.and_eq_true] at takes ⊢
  refine ⟨takes.1, ?_⟩
  cases raises with
  | dropped => rfl
  | raised upTo => exact Version.le_trans takes.2 upTo

/-- What is required up to some version is required up to greater ones. -/
theorem Registry.Requires.raised {registry : Registry} {profile : Profile}
    {names : InterfaceBlock → List String} {name : String} {lower higher : Option Version}
    (requires : registry.Requires { profile with maxVersion := lower } names name)
    (raises : RaisesTo lower higher)
    : registry.Requires { profile with maxVersion := higher } names name := by
  rcases requires with ⟨feature, member, takes, required⟩ | ofExtension
  · exact Or.inl ⟨feature, member, Profile.takesFeature_raised raises takes, required⟩
  · exact Or.inr ofExtension

section

variable {α : Type}

/-- What is active stays active, and those who require it are among those who then do, in the same
order.
-/
def KeepsRequirers (narrow wide : Table (α × Mentions)) : Prop :=
  ∀ name symbol mentions,
    narrow.find? name = some (symbol, mentions)
    → ∃ more,
        wide.find? name = some (symbol, more)
        ∧ mentions.requiredBy.Sublist more.requiredBy

/-- What is active stays active, with the same who require and remove it. -/
def KeepsMentions (part whole : Table (α × Mentions)) : Prop :=
  ∀ name selected, part.find? name = some selected → whole.find? name = some selected

def KeepsActive (earlier later : Table (α × Mentions)) : Prop :=
  ∀ name, earlier.contains name = true → later.contains name = true

variable {events others : String → List Event} {table : Table α}
  {selected wider : Table (α × Mentions)}

theorem Selects.keepsRequirers (selects : Selects events table selected)
    (selectsWider : Selects others table wider) (keeps : Requirer → Bool)
    (same : ∀ name, events name = (others name).filter fun event => keeps event.requirer)
    (more
      : ∀ name, ∀ event ∈ others name,
          keeps event.requirer = false → event.action = .require)
    : KeepsRequirers selected wider := by
  intro name symbol mentions found
  obtain ⟨active, present, rfl⟩ := selects.eq found
  rw [same] at active
  refine ⟨(SymbolState.ofEvents (others name)).mentions, ?_, ?_⟩
  · rw [selectsWider, if_pos (Event.lastRequires_of_filter (more name) active), present]
    rfl
  · change (Event.requirers (events name)).Sublist (Event.requirers (others name))
    rw [same, Event.requirers_filter]
    exact List.filter_sublist

theorem Selects.keepsMentions (selects : Selects events table selected)
    (selectsWider : Selects others table wider)
    (same : ∀ name, others name = (events name).map Event.unhonored)
    : KeepsMentions selected wider := by
  rintro name ⟨symbol, mentions⟩ found
  obtain ⟨active, present, rfl⟩ := selects.eq found
  rw [selectsWider, same, if_pos (Event.lastRequires_unhonored active), present,
    Event.mentions_unhonored]
  rfl

end

namespace Registry

/-- What comes in with extensions is required, and never removed. -/
theorem action_of_not_keeps {registry : Registry} {profile : Profile}
    {names : InterfaceBlock → List String} {symbol : String} {filter : ExtensionFilter}
    {event : Event} (member : event ∈ registry.events profile names symbol)
    (dropped : filter.keeps event.requirer = false)
    : event.action = .require := by
  rcases List.mem_append.mp member with ofFeature | ofExtension
  · obtain ⟨feature, -, found⟩ := List.mem_flatMap.mp ofFeature
    have isFeature : event.requirer = .feature feature.name feature.number := by
      rcases List.mem_append.mp found with required | removed
      · exact (Event.requirer_of_mem_ofBlocks required).1
      · exact (Event.requirer_of_mem_ofBlocks removed).1
    rw [isFeature] at dropped
    cases dropped
  · obtain ⟨extension, -, found⟩ := List.mem_flatMap.mp ofExtension
    obtain ⟨-, block, -, isRequire⟩ := Event.requirer_of_mem_ofBlocks found
    exact isRequire

/-- Profiles are monotone in what they take. A filter that lists more extensions keeps every active
symbol and everyone who requires it, even where removals are honored; not honoring removals keeps
every active symbol as it is; and where removals are not honored, so does a greater version.
-/
theorem resolve_monotone (registry : Registry) (profile : Profile)
    : (∀ fewer more : ExtensionFilter,
          (∀ extension ∈ registry.extensions.values,
              Profile.lists { profile with extensions := fewer } extension = true
              → Profile.lists { profile with extensions := more } extension = true)
          → let narrow := registry.resolve { profile with extensions := fewer }
            let wide := registry.resolve { profile with extensions := more }
            KeepsRequirers narrow.enums wide.enums
            ∧ KeepsRequirers narrow.commands wide.commands)
      ∧ (let honored := registry.resolve { profile with honorsRemovals := true }
          let noted := registry.resolve { profile with honorsRemovals := false }
          KeepsMentions honored.enums noted.enums
          ∧ KeepsMentions honored.commands noted.commands)
      ∧ ∀ lower higher : Option Version,
          RaisesTo lower higher
          → profile.honorsRemovals = false
          → let early := registry.resolve { profile with maxVersion := lower }
            let late := registry.resolve { profile with maxVersion := higher }
            KeepsActive early.enums late.enums ∧ KeepsActive early.commands late.commands := by
  refine ⟨fun fewer more listed => ?_, ?_, fun lower higher raises unhonored => ?_⟩
  · have keeps
        : ∀ extension ∈ registry.extensions.values,
            fewer.keeps (.extension extension.name) = true
            → more.keeps (.extension extension.name) = true := by
      simpa only [Profile.lists_eq] using listed
    exact ⟨
      (selects_enums _ _).keepsRequirers (selects_enums _ _) fewer.keeps
        (fun _ => events_narrowed keeps) (fun _ _ => action_of_not_keeps),
      (selects_commands _ _).keepsRequirers (selects_commands _ _) fewer.keeps
        (fun _ => events_narrowed keeps) (fun _ _ => action_of_not_keeps)
    ⟩
  · exact ⟨
      (selects_enums _ _).keepsMentions (selects_enums _ _) fun _ => events_unhonored,
      (selects_commands _ _).keepsMentions (selects_commands _ _) fun _ => events_unhonored
    ⟩
  · constructor
    · intro name active
      obtain ⟨known, required⟩ := (contains_enums_resolve_iff (by exact unhonored)).mp active
      exact (contains_enums_resolve_iff (by exact unhonored)).mpr ⟨known, required.raised raises⟩
    · intro name active
      obtain ⟨known, required⟩ := (contains_commands_resolve_iff (by exact unhonored)).mp active
      exact (contains_commands_resolve_iff (by exact unhonored)).mpr ⟨known, required.raised raises⟩

/-- A version that removes a symbol for the core profile, and an extension that brings it back. -/
def restored : List Records :=
  [{
    source := "gl.xml"
    enums := [.declare "OLD" (.ofBits 1) .unattributed "gl.xml",
      .declare "NEW" (.ofBits 2) .unattributed "gl.xml"]
    features := [
      {
        api := "gl", name := "GL_VERSION_3_1", number := ⟨3, 1⟩
        requires := [{ enums := ["OLD", "NEW"] }]
        removes := [{ profile := some "core", enums := ["OLD"] }]
      }
    ]
    extensions := [
      {
        name := "GL_ARB_compatibility", supported := ["gl"]
        requires := [{ enums := ["OLD", "NEW"] }]
      },
      { name := "GL_EXT_new", supported := [], requires := [{ enums := ["NEW"] }] }
    ]
  }]

/-- All extensions bring back what the core profile has lost, and put another one between those who
require what it has kept.
-/
theorem restored_monotone
    : let registry := ofRecords .gl restored
      let fewer : Profile := { Profile.core with extensions := .only ["GL_EXT_new"] }
      let more : Profile := { Profile.core with extensions := .all }
      let early : Profile := { Profile.compatibility with maxVersion := some ⟨3, 0⟩ }
      let late : Profile := { Profile.compatibility with maxVersion := some ⟨3, 1⟩ }
      (∀ extension ∈ registry.extensions.values,
          fewer.lists extension = true → more.lists extension = true)
      ∧ RaisesTo (some ⟨3, 0⟩) (some ⟨3, 1⟩)
      ∧ Profile.compatibility.honorsRemovals = false
      ∧ KeepsRequirers (registry.resolve fewer).enums (registry.resolve more).enums
      ∧ KeepsActive (registry.resolve early).enums (registry.resolve late).enums
      ∧ (registry.resolve fewer).enums.names = ["NEW"]
      ∧ (registry.resolve more).enums.names = ["OLD", "NEW"] := by
  have listed
      : ∀ extension ∈ (ofRecords .gl restored).extensions.values,
          Profile.lists { Profile.core with extensions := .only ["GL_EXT_new"] } extension = true
          → Profile.lists { Profile.core with extensions := .all } extension = true := by
    decide
  have raised : RaisesTo (some ⟨3, 0⟩) (some ⟨3, 1⟩) := .raised (by decide)
  refine ⟨listed, raised, rfl, ?_, ?_, by decide +kernel, by decide +kernel⟩
  · exact ((resolve_monotone (ofRecords .gl restored) .core).1 _ _ listed).1
  · exact ((resolve_monotone (ofRecords .gl restored) .compatibility).2.2 _ _ raised rfl).1

end Registry

end ApiBindings
