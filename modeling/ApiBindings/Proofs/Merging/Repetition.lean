import ApiBindings.Proofs.Merging.Arrangement
import ApiBindings.Proofs.Merging.Groups
import ApiBindings.Proofs.Merging.Precedence

/-! Sources that are ingested a second time.
By then the first feature that declares a name has won, so no entry is replaced any more, and it has
all groups already. What is added once more are the blocks of features and extensions.
-/

namespace ApiBindings

/-- Where two views of what is there agree, so do both together. -/
theorem map_pair_congr {α ν μ : Type} {first : α → ν} {second : α → μ} {left right : Option α}
    (sameFirst : left.map first = right.map first)
    (sameSecond : left.map second = right.map second)
    : left.map (fun value => (first value, second value))
      = right.map fun value => (first value, second value) := by
  cases left <;> cases right <;> simp_all

-----------------------------------------------------------------------------------------
-- Symbols
-----------------------------------------------------------------------------------------

theorem canonical?_append_self {α : Type} (origin : α → Origin) (declarations : List α)
    : canonical? origin (declarations ++ declarations) = canonical? origin declarations := by
  rw [canonical?, canonical?, List.find?_append, List.head?_append, Option.or_self,
    Option.or_self]

namespace MergeRule

variable {α : Type} (rule : MergeRule α)

/-- The entry of a name keeps saying the same for the same origin. -/
theorem entry_append_self {name : String} {declarations : List α}
    (named : ∀ declaration ∈ declarations, rule.name declaration = name)
    : (rule.account (declarations ++ declarations)).entry.map
          (fun symbol => (rule.name symbol, rule.stance symbol))
      = (rule.account declarations).entry.map
          fun symbol => (rule.name symbol, rule.stance symbol) := by
  have namedTwice : ∀ declaration ∈ declarations ++ declarations, rule.name declaration = name :=
    fun declaration member => named declaration (by simpa using member)
  rw [rule.entry_canonical named, rule.entry_canonical namedTwice, canonical?_append_self]

/-- No declaration that is taken into account wins against the entry again. -/
theorem yieldsTo_entry {declarations : List α} {entry declared : α}
    (found : (rule.account declarations).entry = some entry)
    (member : declared ∈ declarations)
    : (rule.origin entry).yieldsTo (rule.origin declared) = false := by
  cases isFeature : (rule.origin declared).isFeature with
  | false => simp [Origin.yieldsTo, isFeature]
  | true =>
      have some : (declarations.find? fun other => (rule.origin other).isFeature).isSome :=
        List.find?_isSome.mpr ⟨declared, member, isFeature⟩
      obtain ⟨first, isFirst⟩ := Option.isSome_iff_exists.mp some
      have stances := rule.stance_entry declarations
      rw [found, canonical?, isFirst, Option.some_or, Option.map_some, Option.map_some,
        Option.some.injEq] at stances
      have origin : rule.origin entry = rule.origin first := congrArg Prod.snd stances
      have firstIsFeature := List.find?_some isFirst
      simp [Origin.yieldsTo, origin, firstIsFeature]

end MergeRule

namespace Enumerant

/-- Adding groups that are there changes nothing, by induction on the groups. -/
theorem addGroups_of_subset {enumerant : Enumerant} {groups : List String}
    (known : ∀ group ∈ groups, group = "" ∨ group ∈ enumerant.groups)
    : enumerant.addGroups groups = enumerant := by
  induction groups with
  | nil => rfl
  | cons group rest ih =>
      have first : enumerant.addGroup group = enumerant :=
        if_pos (known group List.mem_cons_self)
      rw [addGroups, List.foldl_cons, first]
      exact ih fun other member => known other (List.mem_cons_of_mem _ member)

theorem addGroups_append_self (enumerant : Enumerant) (groups : List String)
    : enumerant.addGroups (groups ++ groups) = enumerant.addGroups groups := by
  have twice
      : enumerant.addGroups (groups ++ groups)
        = (enumerant.addGroups groups).addGroups groups :=
    List.foldl_append
  rw [twice]
  refine addGroups_of_subset fun group member => ?_
  by_cases named : group = ""
  · exact Or.inl named
  · exact Or.inr (mem_groups_addGroups.mpr (Or.inr ⟨member, named⟩))

theorem groups_addGroups_congr {one other : Enumerant} (same : one.groups = other.groups)
    (groups : List String)
    : (one.addGroups groups).groups = (other.addGroups groups).groups := by
  induction groups generalizing one other with
  | nil => exact same
  | cons group rest ih =>
      refine ih ?_
      unfold addGroup
      rw [same]
      split
      · exact same
      · rfl

/-- A declaration that brings nothing new: it does not win, and its groups are there. -/
structure Absorbs (entry declared : Enumerant) : Prop where
  stays : entry.origin.yieldsTo declared.origin = false
  groups : ∀ group ∈ declared.groups, group = "" ∨ group ∈ entry.groups

theorem Absorbs.merge {entry declared : Enumerant} (absorbs : entry.Absorbs declared)
    : (entry.merge declared).groups = entry.groups
      ∧ (entry.merge declared).origin = entry.origin := by
  unfold Enumerant.merge
  rw [absorbs.stays, addGroups_of_subset absorbs.groups, Origin.merge, absorbs.stays]
  split <;> exact ⟨rfl, rfl⟩

/-- Declarations that bring nothing new leave the groups as they are. By induction on these. -/
theorem groups_foldl_declare {declarations : List Enumerant} {account : Account Enumerant}
    {entry : Enumerant} (found : account.entry = some entry)
    (absorbs : ∀ declared ∈ declarations, entry.Absorbs declared)
    : (declarations.foldl mergeRule.declare account).entry.map Enumerant.groups
      = some entry.groups := by
  induction declarations generalizing account entry with
  | nil => exact congrArg (Option.map Enumerant.groups) found
  | cons next rest ih =>
      obtain ⟨groups, origin⟩ := (absorbs next List.mem_cons_self).merge
      have declared : (mergeRule.declare account next).entry = some (entry.merge next) := by
        rw [MergeRule.declare, found]
        rfl
      rw [List.foldl_cons, ih declared, groups]
      intro other member
      have before := absorbs other (List.mem_cons_of_mem _ member)
      exact ⟨origin ▸ before.stays, groups ▸ before.groups⟩

theorem groups_entry_append_self (declarations : List Enumerant)
    : (mergeRule.account (declarations ++ declarations)).entry.map Enumerant.groups
      = (mergeRule.account declarations).entry.map Enumerant.groups := by
  rw [MergeRule.account, List.foldl_append, ← MergeRule.account]
  cases found : (mergeRule.account declarations).entry with
  | none =>
      have none : declarations = [] := by
        cases declarations using List.reverseRecOn with
        | nil => rfl
        | append_singleton front last =>
            rw [MergeRule.account_concat] at found
            cases found
      subst none
      rfl
  | some entry =>
      refine groups_foldl_declare found fun declared member => ?_
      refine ⟨mergeRule.yieldsTo_entry found member, fun group among => ?_⟩
      by_cases named : group = ""
      · exact Or.inl named
      · obtain ⟨kept, isEntry, inEntry⟩ :=
          (mem_groups_entry named declarations).mpr ⟨declared, member, among⟩
        rw [found, Option.mem_some_iff] at isEntry
        exact Or.inr (isEntry ▸ inEntry)

end Enumerant

-----------------------------------------------------------------------------------------
-- Features and extensions
-----------------------------------------------------------------------------------------

namespace Feature

/-- A feature that has every block once more, behind all others. -/
def doubled (feature : Feature) : Feature :=
  { feature with
    requires := feature.requires ++ feature.requires
    removes := feature.removes ++ feature.removes }

/-- Merging adds blocks and nothing else. -/
theorem foldl_merge_eq (first : Feature) (rest : List Feature)
    : rest.foldl merge first
      = { first with
          requires := first.requires ++ rest.flatMap requires
          removes := first.removes ++ rest.flatMap removes } := by
  induction rest generalizing first with
  | nil => simp
  | cons next rest ih => simp [ih, merge]

/-- A feature whose place is there changes the one that has it. By induction on the features. -/
theorem addTo_of_mem {new : Feature} {features : List Feature}
    (unique : (features.map place).Nodup) (known : new.place ∈ features.map place)
    : new.addTo features
      = features.map fun old => if old.place = new.place then old.merge new else old := by
  induction features with
  | nil => cases known
  | cons old rest ih =>
      rw [List.map_cons, List.nodup_cons] at unique
      rw [addTo_cons, List.map_cons]
      by_cases same : old.place = new.place
      · have others : ∀ other ∈ rest, other.place ≠ new.place := fun other member equal =>
          unique.1 (same ▸ equal ▸ List.mem_map_of_mem member)
        rw [if_pos same, if_pos same]
        congr 1
        exact (List.map_id rest).symm.trans
          (List.map_congr_left fun other member => (if_neg (others other member)).symm)
      · have later : new.place ∈ rest.map place :=
          (List.mem_cons.mp known).resolve_left fun equal => same equal.symm
        rw [if_neg same, if_neg same, ih unique.2 later]

/-- Features whose places are all there change those that have them, each by the ones of its own
place. By induction on the new ones.
-/
theorem foldl_addTo_of_mem {declared features : List Feature}
    (unique : (features.map place).Nodup)
    (known : ∀ new ∈ declared, new.place ∈ features.map place)
    : declared.foldl (fun features new => new.addTo features) features
      = features.map fun old =>
          (declared.filter fun new => new.place = old.place).foldl merge old := by
  induction declared generalizing features with
  | nil => simp
  | cons new rest ih =>
      have step := addTo_of_mem unique (known new List.mem_cons_self)
      have places : (new.addTo features).map place = features.map place := by
        rw [places_addTo, addNew, if_pos (known new List.mem_cons_self)]
      rw [List.foldl_cons, ih (places ▸ unique)
        (fun other member => places ▸ known other (List.mem_cons_of_mem _ member)), step,
        List.map_map]
      refine List.map_congr_left fun old _ => ?_
      by_cases same : old.place = new.place
      · have merged : (old.merge new).place = new.place := same
        simp [same, merged]
      · simp [same, Ne.symm same]

end Feature

namespace Extension

/-- An extension that has every block once more. -/
def doubled (extension : Extension) : Extension :=
  { extension with requires := extension.requires ++ extension.requires }

/-- A declaration that lists no other interfaces adds blocks and nothing else. -/
theorem merge_of_subset {old new : Extension} (listed : new.supported ⊆ old.supported)
    : old.merge new = { old with requires := old.requires ++ new.requires } := by
  have supported
      : new.supported.foldl
            (fun listed api => if listed.contains api then listed else listed ++ [api])
            old.supported
        = old.supported := by
    simp only [List.contains_eq_mem, decide_eq_true_eq]
    exact foldl_addNew_of_subset listed
  rw [merge, supported]

/-- By induction on the declarations, none of which changes the interfaces. -/
theorem foldl_merge_of_subset {merged : Extension} {declarations : List Extension}
    (listed : ∀ declared ∈ declarations, declared.supported ⊆ merged.supported)
    : declarations.foldl merge merged
      = { merged with requires := merged.requires ++ declarations.flatMap requires } := by
  induction declarations generalizing merged with
  | nil => simp
  | cons next rest ih =>
      have step := merge_of_subset (listed next List.mem_cons_self)
      have later : ∀ declared ∈ rest, declared.supported ⊆ (merged.merge next).supported := by
        rw [step]
        exact fun declared member => listed declared (List.mem_cons_of_mem _ member)
      rw [List.foldl_cons, ih later, step]
      simp

theorem joinAll_append_self (declarations : List Extension)
    : joinAll merge (declarations ++ declarations) = (joinAll merge declarations).map doubled := by
  cases declarations with
  | nil => rfl
  | cons first rest =>
      have listed
          : ∀ declared ∈ first :: rest,
              declared.supported ⊆ (rest.foldl merge first).supported :=
        fun declared member api among => mem_supported_foldl_merge.mpr ⟨declared, member, among⟩
      rw [List.cons_append, joinAll_cons, joinAll_cons, List.foldl_append,
        foldl_merge_of_subset listed, ← requires_foldl_merge]
      rfl

end Extension

-----------------------------------------------------------------------------------------
-- A registry of sources that are ingested twice
-----------------------------------------------------------------------------------------

/-- What a symbol says, and which groups it is in. -/
def Enumerant.facts (enumerant : Enumerant) : String × BitVec 64 × List String :=
  (enumerant.name, enumerant.value.bits, enumerant.groups)

def Command.facts (command : Command) : String × String :=
  (command.name, command.signature)

namespace Registry

/-- A registry that says the same of all symbols as another one, and has all blocks twice. -/
structure Doubles (twice once : Registry) : Prop where
  enums
    : (twice.enums.map fun _ => Enumerant.facts) = once.enums.map fun _ => Enumerant.facts
  commands
    : (twice.commands.map fun _ => Command.facts) = once.commands.map fun _ => Command.facts
  features : twice.features = once.features.map Feature.doubled
  extensions : twice.extensions = once.extensions.map fun _ => Extension.doubled

variable (api : Api) (sources : List Records)

theorem enums_ofRecords_append_self
    : ((ofRecords api (sources ++ sources)).enums.map fun _ => Enumerant.facts)
      = (ofRecords api sources).enums.map fun _ => Enumerant.facts := by
  refine Table.ext_find? ?_ fun name => ?_
  · rw [Table.names_map, Table.names_map, enumNames_ofRecords, enumNames_ofRecords,
      enumNames_built, enumNames_built, declaredEnums, List.flatMap_append, List.map_append,
      eraseDups_append_self]
    rfl
  · have declarations
        : enumDeclarations (sources ++ sources) name
          = enumDeclarations sources name ++ enumDeclarations sources name := by
      simp only [enumDeclarations, declaredEnums, List.flatMap_append, List.filter_append]
    have listed
        : listedGroups (sources ++ sources) name
          = listedGroups sources name ++ listedGroups sources name := by
      simp only [listedGroups, List.flatMap_append, List.filter_append, List.map_append]
    have same := map_pair_congr
      (Enumerant.mergeRule.entry_append_self (name_of_mem_enumDeclarations sources name))
      (Enumerant.groups_entry_append_self (enumDeclarations sources name))
    rw [Table.find?_map, Table.find?_map, find?_enums, find?_enums, declarations, listed,
      Option.map_map, Option.map_map]
    simp only [Function.comp_def, Enumerant.addGroups_append_self]
    refine map_eq_map_of (fun {left right} equal => ?_) same
    obtain ⟨said, groups⟩ := Prod.mk.inj equal
    obtain ⟨sameName, stance⟩ := Prod.mk.inj said
    have bits : left.value.bits = right.value.bits :=
      Content.bits.inj (congrArg Prod.fst stance)
    simp only [Enumerant.facts, Enumerant.name_addGroups, Enumerant.value_addGroups, bits,
      Enumerant.groups_addGroups_congr groups]
    exact congrArg (·, _) sameName

theorem commands_ofRecords_append_self
    : ((ofRecords api (sources ++ sources)).commands.map fun _ => Command.facts)
      = (ofRecords api sources).commands.map fun _ => Command.facts := by
  refine Table.ext_find? ?_ fun name => ?_
  · have names (sources : List Records)
        : (ofRecords api sources).commands.names
          = ((declaredCommands sources).map Command.name).eraseDups :=
      commandNames_built api sources
    rw [Table.names_map, Table.names_map, names, names, declaredCommands,
      List.flatMap_append, List.map_append, eraseDups_append_self]
    rfl
  · have declarations
        : commandDeclarations (sources ++ sources) name
          = commandDeclarations sources name ++ commandDeclarations sources name := by
      simp only [commandDeclarations, declaredCommands, List.flatMap_append, List.filter_append]
    rw [Table.find?_map, Table.find?_map, find?_commands, find?_commands, declarations]
    refine map_eq_map_of (fun {left right} equal => ?_)
      (Command.mergeRule.entry_append_self (name_of_mem_commandDeclarations sources name))
    obtain ⟨sameName, stance⟩ := Prod.mk.inj equal
    exact Prod.ext sameName (Content.signature.inj (congrArg Prod.fst stance))

/-- Every place is there by the time of the second round, and so its feature gets all of its blocks
again.
-/
theorem features_built_append_self
    : (built api (sources ++ sources)).features
      = (built api sources).features.map Feature.doubled := by
  have twice
      : (built api (sources ++ sources)).features
        = (declaredFeatures sources).foldl (fun features new => new.addTo features)
            (built api sources).features := by
    rw [features_built, features_built, declaredFeatures, List.flatMap_append,
      List.foldl_append]
    rfl
  have known
      : ∀ new ∈ declaredFeatures sources,
          new.place ∈ (built api sources).features.map Feature.place := by
    intro new member
    rw [places_built, mem_foldl_addNew]
    exact List.mem_map_of_mem member
  rw [twice, Feature.foldl_addTo_of_mem (nodup_places_built api sources) known]
  refine List.map_congr_left fun merged member => ?_
  obtain ⟨first, rest, shape, made⟩ := exists_declarations_of_mem_features
    ((features_perm api sources).mem_iff.mpr member)
  rw [shape, Feature.foldl_merge_eq, ← Feature.requires_foldl_merge,
    ← Feature.removes_foldl_merge, made]
  rfl

/-- More blocks do not change the order of features, which goes by their places. -/
theorem features_ofRecords_append_self
    : (ofRecords api (sources ++ sources)).features
      = (ofRecords api sources).features.map Feature.doubled := by
  have sorted (sources : List Records)
      : (ofRecords api sources).features
        = (built api sources).features.mergeSort
            (Builder.precedes ((built api sources).features.map Feature.api).eraseDups) :=
    rfl
  rw [sorted, sorted, features_built_append_self, List.map_map]
  refine (List.map_mergeSort fun old _ new _ => ?_).symm
  rfl

theorem extensions_ofRecords_append_self
    : (ofRecords api (sources ++ sources)).extensions
      = (ofRecords api sources).extensions.map fun _ => Extension.doubled := by
  refine Table.ext_find? ?_ fun name => ?_
  · rw [Table.names_map, extensionNames_ofRecords, extensionNames_ofRecords,
      declaredExtensions, List.flatMap_append, List.map_append, eraseDups_append_self]
    rfl
  · have declarations
        : extensionDeclarations (sources ++ sources) name
          = extensionDeclarations sources name ++ extensionDeclarations sources name := by
      simp only [extensionDeclarations, List.flatMap_append, List.filter_append]
    rw [Table.find?_map, find?_extensions, find?_extensions, declarations,
      Extension.joinAll_append_self]

theorem ofRecords_doubles
    : (ofRecords api (sources ++ sources)).Doubles (ofRecords api sources) where
  enums := enums_ofRecords_append_self api sources
  commands := commands_ofRecords_append_self api sources
  features := features_ofRecords_append_self api sources
  extensions := extensions_ofRecords_append_self api sources

end Registry

end ApiBindings
