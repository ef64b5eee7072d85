import ApiBindings.Proofs.Merging.Groups
import ApiBindings.Proofs.Selection.Events

/-! The groups of the active enumerants have each of these once under every group it is in.
Merging leaves no group of an enumerant twice, so listing an enumerant once for every time that it
names a group is the same as selecting those that are in the group.
-/

namespace ApiBindings

namespace Resolution

/-- Everything that is listed under a group. -/
def listedUnder (resolution : Resolution) (group : String) : List Enumerant :=
  (resolution.groups.filter fun listed => listed.1 = group).flatMap Prod.snd

/-- Enumerants that name no group twice are listed as often as they are in the group, by induction
on the enumerants.
-/
theorem flatMap_replicate_eq {active : List Enumerant}
    (grouped : ∀ enumerant ∈ active, enumerant.IsGrouped) (group : String)
    : (active.flatMap fun enumerant =>
          List.replicate (enumerant.groups.count group) enumerant)
      = active.filter fun enumerant => group ∈ enumerant.groups := by
  induction active with
  | nil => rfl
  | cons first rest ih =>
      have unique := (grouped first List.mem_cons_self).unique
      rw [List.flatMap_cons, ih fun other member => grouped other (List.mem_cons_of_mem _ member),
        unique.count, List.filter_cons]
      by_cases member : group ∈ first.groups
      · simp [member]
      · simp [member]

variable {resolution : Resolution}

/-- What a group lists are the active enumerants that are in it, in their order. -/
theorem members_eq (grouped : ∀ enumerant ∈ resolution.activeEnums, enumerant.IsGrouped)
    {group : String} {members : List Enumerant}
    (listed : (group, members) ∈ resolution.groups)
    : members = resolution.activeEnums.filter fun enumerant => group ∈ enumerant.groups := by
  obtain ⟨name, _, same⟩ := List.mem_map.mp listed
  obtain ⟨rfl, rfl⟩ := Prod.mk.inj same
  exact flatMap_replicate_eq grouped name

/-- Where names are listed once, what is listed under a name is what the name stands for. -/
theorem flatMap_filter_name {α : Type} {names : List String} (unique : names.Nodup)
    (members : String → List α) (name : String)
    : ((names.map fun other => (other, members other)).filter fun listed =>
          listed.1 = name).flatMap Prod.snd
      = if name ∈ names then members name else [] := by
  have own
      : (names.map fun other => (other, members other)).filter (fun listed =>
            listed.1 = name)
        = (List.replicate (names.count name) name).map fun other =>
            (other, members other) := by
    rw [List.filter_map]
    exact congrArg (List.map _) (List.filter_eq name)
  rw [own, unique.count]
  split <;> simp

theorem active_of_mem_groups {group : String} {members : List Enumerant}
    (listed : (group, members) ∈ resolution.groups)
    {member : Enumerant} (mentioned : member ∈ members)
    : member ∈ resolution.activeEnums := by
  obtain ⟨name, -, same⟩ := List.mem_map.mp listed
  obtain ⟨rfl, rfl⟩ := Prod.mk.inj same
  obtain ⟨enumerant, active, copied⟩ := List.mem_flatMap.mp mentioned
  exact List.eq_of_mem_replicate copied ▸ active

/-- No group is listed a second time, and one that is not listed has no active enumerants. -/
theorem listedUnder_eq (grouped : ∀ enumerant ∈ resolution.activeEnums, enumerant.IsGrouped)
    (group : String)
    : resolution.listedUnder group
      = resolution.activeEnums.filter fun enumerant => group ∈ enumerant.groups := by
  let known := (resolution.activeEnums.flatMap Enumerant.groups).eraseDups
  have sorted : (known.mergeSort fun a b => decide (a ≤ b)).Perm known :=
    List.mergeSort_perm known _
  refine (flatMap_filter_name (sorted.nodup_iff.mpr (nodup_eraseDups _)) _ group).trans ?_
  rw [flatMap_replicate_eq grouped]
  split
  · rfl
  · -- A group without a listing is named by no active enumerant, so there is nothing to select.
    rename_i unknown
    rw [sorted.mem_iff, List.mem_eraseDups, List.mem_flatMap] at unknown
    refine (List.filter_eq_nil_iff.mpr fun enumerant active member => unknown ?_).symm
    exact ⟨enumerant, active, of_decide_eq_true member⟩

end Resolution

namespace Registry

/-- Active enumerants are listed in the order of the registry. -/
theorem activeEnums_sublist (registry : Registry) (profile : Profile)
    : (registry.resolve profile).activeEnums.Sublist registry.enums.values := by
  have active : (registry.resolve profile).activeEnums = _ :=
    values_walk InterfaceBlock.enums (registry.visits profile) registry.enums
  rw [active]
  exact List.filter_sublist.map Prod.snd

/-- No group that sources give an enumerant is lost, and none is there twice: neither in the
enumerant, nor, for any profile, among the groups of the active enumerants.
-/
structure KeepsGroups (registry : Registry) (sources : List Records) : Prop where
  unique
    : ∀ {name enumerant},
        registry.enums.find? name = some enumerant → enumerant.groups.Nodup
  named
    : ∀ {name enumerant},
        registry.enums.find? name = some enumerant → "" ∉ enumerant.groups
  mem_iff
    : ∀ {name enumerant},
        registry.enums.find? name = some enumerant
        → ∀ group,
            group ∈ enumerant.groups
            ↔ (∃ declared ∈ enumDeclarations sources name, group ∈ declared.groups)
              ∨ group ≠ "" ∧ ∃ source ∈ sources, (group, name) ∈ source.groupMembers
  listed_once
    : ∀ profile group enumerant,
        ((registry.resolve profile).listedUnder group).count enumerant
        = if enumerant ∈ (registry.resolve profile).activeEnums
              ∧ group ∈ enumerant.groups then
            1
          else
            0
  in_order
    : ∀ profile group members,
        (group, members) ∈ (registry.resolve profile).groups
        → members.Sublist registry.enums.values

/-- Merging keeps all groups of enumerants if no declaration names one twice or one without a name,
as none does that is read from a document or a header. By the union over the declarations that
make an entry, whichever of them wins.
-/
theorem ofRecords_keepsGroups (api : Api) (sources : List Records)
    (grouped : ∀ source ∈ sources, ∀ declared ∈ source.enums, declared.IsGrouped)
    : (ofRecords api sources).KeepsGroups sources := by
  have allGrouped {name enumerant}
      (found : (ofRecords api sources).enums.find? name = some enumerant)
      : enumerant.IsGrouped :=
    isGrouped_of_find?_enums grouped found
  have activeGrouped (profile : Profile)
      : ∀ enumerant ∈ ((ofRecords api sources).resolve profile).activeEnums,
          enumerant.IsGrouped := by
    intro enumerant active
    have value := (activeEnums_sublist _ profile).subset active
    obtain ⟨entry, member, rfl⟩ := List.mem_map.mp value
    exact allGrouped (Table.mem_entries_iff.mp member)
  have activeUnique (profile : Profile)
      : ((ofRecords api sources).resolve profile).activeEnums.Nodup :=
    (Table.nodup_values Enumerant.name name_of_find?_enums).sublist
      (activeEnums_sublist _ profile)
  refine {
    unique := fun found => (allGrouped found).unique
    named := fun found => (allGrouped found).named
    mem_iff := ?_
    listed_once := ?_
    in_order := ?_
  }
  · intro name enumerant found group
    -- A group without a name is neither added when merging nor declared.
    by_cases named : group = ""
    · subst named
      have undeclared : ∀ declared ∈ enumDeclarations sources name, "" ∉ declared.groups := by
        intro declared member
        obtain ⟨source, ingested, declares⟩ :=
          List.mem_flatMap.mp (List.mem_filter.mp member).1
        exact (grouped source ingested declared declares).named
      simpa [(allGrouped found).named] using undeclared
    · simpa [named] using mem_groups_of_find?_enums found named
  · intro profile group enumerant
    rw [Resolution.listedUnder_eq (activeGrouped profile),
      ((activeUnique profile).filter _).count]
    simp only [List.mem_filter, decide_eq_true_eq]
  · intro profile group members listed
    rw [Resolution.members_eq (activeGrouped profile) listed]
    exact List.filter_sublist.trans (activeEnums_sublist _ profile)

/-- Members that are listed before their enumerant, whose first declaration a feature replaces. -/
def regrouped : List Records :=
  [
    { source := "lists", groupMembers := [("Masks", "FOO"), ("", "FOO"), ("Colors", "FOO")] },
    {
      source := "x1"
      enums := [(Enumerant.declare "FOO" (.ofBits 1) (.extension "X1") "x1").addGroups
        ["Colors"]]
    },
    {
      source := "core"
      enums := [(Enumerant.declare "FOO" (.ofBits 2) (.feature "gl" "GL_VERSION_1_0" ⟨1, 0⟩)
        "core").addGroups ["Buffers"]]
    }
  ]

theorem regrouped_keepsGroups
    : (∀ source ∈ regrouped, ∀ declared ∈ source.enums, declared.IsGrouped)
      ∧ (ofRecords .gl regrouped).KeepsGroups regrouped
      ∧ ((ofRecords .gl regrouped).enums.find? "FOO").map Enumerant.groups
        = some ["Buffers", "Colors", "Masks"] :=
  ⟨by decide, ofRecords_keepsGroups .gl regrouped (by decide), by decide⟩

end Registry

end ApiBindings
