import ApiBindings.Proofs.Merging.Accounts

/-! No group is lost or entered twice when declarations of an enumerant are merged.
Whichever declaration wins, the groups of the other one are added to it. The groups that sources
list apart from the enumerant are added in the end, so it does not matter which came first.
-/

namespace ApiBindings

namespace Enumerant

-----------------------------------------------------------------------------------------
-- Adding groups
-----------------------------------------------------------------------------------------

/-- Every group of the enumerant is there once, and none is without a name. -/
structure IsGrouped (enumerant : Enumerant) : Prop where
  unique : enumerant.groups.Nodup
  named : "" ∉ enumerant.groups

instance (enumerant : Enumerant) : Decidable enumerant.IsGrouped :=
  decidable_of_iff (enumerant.groups.Nodup ∧ "" ∉ enumerant.groups)
    ⟨fun both => ⟨both.1, both.2⟩, fun grouped => ⟨grouped.unique, grouped.named⟩⟩

theorem isGrouped_declare (name : String) (value : Value) (origin : Origin) (source : String)
    : (declare name value origin source).IsGrouped :=
  ⟨List.nodup_nil, List.not_mem_nil⟩

theorem mem_groups_addGroup {enumerant : Enumerant} {group other : String}
    : other ∈ (enumerant.addGroup group).groups
      ↔ other ∈ enumerant.groups ∨ (other = group ∧ other ≠ "") := by
  unfold addGroup
  split
  · rename_i skipped
    constructor
    · exact Or.inl
    · rintro (member | ⟨rfl, named⟩)
      · exact member
      · exact skipped.resolve_left named
  · rename_i added
    obtain ⟨named, _⟩ := not_or.mp added
    simp only [List.mem_append, List.mem_singleton]
    refine or_congr_right ⟨fun same => ⟨same, same ▸ named⟩, And.left⟩

theorem IsGrouped.addGroup {enumerant : Enumerant} (grouped : enumerant.IsGrouped)
    (group : String)
    : (enumerant.addGroup group).IsGrouped := by
  constructor
  · unfold Enumerant.addGroup
    split
    · exact grouped.unique
    · rename_i added
      have unique := nodup_addNew grouped.unique group
      rwa [addNew, if_neg (not_or.mp added).2] at unique
  · rw [mem_groups_addGroup]
    rintro (member | ⟨_, named⟩)
    · exact grouped.named member
    · exact named rfl

/-- Groups with a name are added and nothing else is, by induction on the groups. -/
theorem mem_groups_addGroups {enumerant : Enumerant} {groups : List String} {other : String}
    : other ∈ (enumerant.addGroups groups).groups
      ↔ other ∈ enumerant.groups ∨ (other ∈ groups ∧ other ≠ "") := by
  induction groups generalizing enumerant with
  | nil => simp [addGroups]
  | cons group rest ih =>
      rw [addGroups, List.foldl_cons, ← addGroups, ih, mem_groups_addGroup, List.mem_cons,
        or_assoc, ← or_and_right]

theorem IsGrouped.addGroups {enumerant : Enumerant} (grouped : enumerant.IsGrouped)
    (groups : List String)
    : (enumerant.addGroups groups).IsGrouped := by
  induction groups generalizing enumerant with
  | nil => exact grouped
  | cons group rest ih => exact ih (grouped.addGroup group)

-----------------------------------------------------------------------------------------
-- Merging declarations
-----------------------------------------------------------------------------------------

theorem IsGrouped.merge {old new : Enumerant} (oldGrouped : old.IsGrouped)
    (newGrouped : new.IsGrouped)
    : (old.merge new).IsGrouped := by
  unfold Enumerant.merge
  split
  · exact ⟨(oldGrouped.addGroups new.groups).unique, (oldGrouped.addGroups new.groups).named⟩
  · split
    · exact newGrouped.addGroups old.groups
    · exact oldGrouped.addGroups new.groups

/-- Two declarations have their groups together whether they agree or one of them wins. -/
theorem mem_groups_merge {old new : Enumerant} {group : String} (named : group ≠ "")
    : group ∈ (old.merge new).groups ↔ group ∈ old.groups ∨ group ∈ new.groups := by
  unfold merge
  split
  · simp only [mem_groups_addGroups, ne_eq, named, not_false_eq_true, and_true]
  · split
    · simp only [mem_groups_addGroups, ne_eq, named, not_false_eq_true, and_true, or_comm]
    · simp only [mem_groups_addGroups, ne_eq, named, not_false_eq_true, and_true]

theorem isGrouped_entry {declarations : List Enumerant}
    (grouped : ∀ declaration ∈ declarations, declaration.IsGrouped) {entry : Enumerant}
    (found : (mergeRule.account declarations).entry = some entry)
    : entry.IsGrouped :=
  mergeRule.entry_of_merge IsGrouped IsGrouped.merge grouped found

/-- An entry has the groups of all declarations, by induction on these from the back. -/
theorem mem_groups_entry {group : String} (named : group ≠ "") (declarations : List Enumerant)
    : (∃ entry ∈ (mergeRule.account declarations).entry, group ∈ entry.groups)
      ↔ ∃ declaration ∈ declarations, group ∈ declaration.groups := by
  induction declarations using List.reverseRecOn with
  | nil => simp [MergeRule.account]
  | append_singleton front last ih =>
      simp only [List.mem_append, List.mem_singleton, or_and_right, exists_or,
        exists_eq_left, ← ih]
      rw [MergeRule.account_concat, MergeRule.declare]
      cases earlier : (mergeRule.account front).entry with
      | none => simp
      | some old =>
          have merged
              : group ∈ (mergeRule.merge old last).groups
                ↔ group ∈ old.groups ∨ group ∈ last.groups :=
            mem_groups_merge named
          simpa using merged

end Enumerant

-----------------------------------------------------------------------------------------
-- Groups in a registry
-----------------------------------------------------------------------------------------

theorem mem_listedGroups {sources : List Records} {name group : String}
    : group ∈ listedGroups sources name
      ↔ ∃ source ∈ sources, (group, name) ∈ source.groupMembers := by
  simp [listedGroups, List.mem_flatMap]

namespace Registry

variable {api : Api} {sources : List Records} {name : String} {enumerant : Enumerant}

theorem name_of_find?_enums
    (found : (ofRecords api sources).enums.find? name = some enumerant)
    : enumerant.name = name := by
  rw [find?_enums] at found
  obtain ⟨entry, merged, rfl⟩ := Option.map_eq_some_iff.mp found
  rw [Enumerant.name_addGroups]
  exact Enumerant.mergeRule.name_entry (name_of_mem_enumDeclarations sources name) merged

theorem isGrouped_of_find?_enums
    (grouped : ∀ source ∈ sources, ∀ declared ∈ source.enums, declared.IsGrouped)
    (found : (ofRecords api sources).enums.find? name = some enumerant)
    : enumerant.IsGrouped := by
  rw [find?_enums] at found
  obtain ⟨entry, merged, rfl⟩ := Option.map_eq_some_iff.mp found
  refine (Enumerant.isGrouped_entry (fun declared member => ?_) merged).addGroups _
  obtain ⟨source, ingested, declares⟩ := List.mem_flatMap.mp (List.mem_filter.mp member).1
  exact grouped source ingested declared declares

/-- An enumerant is in the groups of its declarations and in those that list it, and in no others.
-/
theorem mem_groups_of_find?_enums
    (found : (ofRecords api sources).enums.find? name = some enumerant)
    {group : String} (named : group ≠ "")
    : group ∈ enumerant.groups
      ↔ (∃ declared ∈ enumDeclarations sources name, group ∈ declared.groups)
        ∨ ∃ source ∈ sources, (group, name) ∈ source.groupMembers := by
  rw [find?_enums] at found
  obtain ⟨entry, merged, rfl⟩ := Option.map_eq_some_iff.mp found
  rw [Enumerant.mem_groups_addGroups, mem_listedGroups, ← Enumerant.mem_groups_entry named,
    merged]
  simp [named]

end Registry

end ApiBindings
