import ApiBindings.Proofs.Merging.Groups

/-! What of a feature's enumerant does not depend on the order in which sources are ingested.
Its bits, its groups and that it is a feature's do not. Its width may: a loser widens the value of
the winner if their bits agree, but a declaration that has already lost to another value is not
asked again when a feature replaces that value.
-/

namespace ApiBindings

-----------------------------------------------------------------------------------------
-- Values that absorb others
-----------------------------------------------------------------------------------------

theorem Width.eq_of_wide_iff {left right : Width} (same : left = .wide ↔ right = .wide)
    : left = right := by
  cases left <;> cases right <;> simp_all

theorem Width.max_comm (left right : Width) : left.max right = right.max left := by
  cases left <;> cases right <;> rfl

namespace Value

theorem ext {left right : Value} (bits : left.bits = right.bits) (width : left.width = right.width)
    : left = right := by
  cases left
  cases right
  cases bits
  cases width
  rfl

/-- The value as wide as another one of the same bits. -/
def absorb (value other : Value) : Value :=
  if other.bits = value.bits then { value with width := value.width.max other.width } else value

/-- Whether absorbing another value makes this one wide, however narrow it is. -/
def IsWidenedBy (value other : Value) : Prop :=
  other.bits = value.bits ∧ other.width = .wide

@[simp] theorem bits_absorb (value other : Value) : (value.absorb other).bits = value.bits := by
  unfold absorb
  split <;> rfl

theorem isWidenedBy_absorb_iff {value other third : Value}
    : (value.absorb other).IsWidenedBy third ↔ value.IsWidenedBy third := by
  rw [IsWidenedBy, bits_absorb, IsWidenedBy]

theorem wide_absorb_iff {value other : Value}
    : (value.absorb other).width = .wide ↔ value.width = .wide ∨ value.IsWidenedBy other := by
  unfold absorb IsWidenedBy
  split
  · rename_i same
    cases width : value.width <;> simp [Width.max, same]
  · rename_i differ
    simp [differ]

theorem bits_foldl_absorb (value : Value) (others : List Enumerant)
    : (others.foldl (fun value other => value.absorb other.value) value).bits = value.bits := by
  induction others generalizing value with
  | nil => rfl
  | cons next rest ih => rw [List.foldl_cons, ih, bits_absorb]

/-- A value is wide behind others if it was or if one of them widens it, by induction on them. -/
theorem wide_foldl_absorb_iff {value : Value} {others : List Enumerant}
    : (others.foldl (fun value other => value.absorb other.value) value).width = .wide
      ↔ value.width = .wide ∨ ∃ other ∈ others, value.IsWidenedBy other.value := by
  induction others generalizing value with
  | nil => simp
  | cons next rest ih =>
      simp only [List.foldl_cons, ih, wide_absorb_iff, isWidenedBy_absorb_iff,
        List.exists_mem_cons_iff, or_assoc]

end Value

/-- An entry has the origin of one of its declarations, and so what all of these have. -/
theorem MergeRule.origin_entry {α : Type} (rule : MergeRule α) (holds : Origin → Prop)
    {declarations : List α}
    (declared : ∀ declaration ∈ declarations, holds (rule.origin declaration)) {entry : α}
    (found : (rule.account declarations).entry = some entry)
    : holds (rule.origin entry) := by
  refine rule.entry_of_merge (fun symbol => holds (rule.origin symbol)) ?_ declared found
  intro old new oldHolds newHolds
  rw [rule.origin_merge, MergedKind.winner]
  split
  · exact newHolds
  · exact oldHolds

namespace Enumerant

-----------------------------------------------------------------------------------------
-- The value of an entry
-----------------------------------------------------------------------------------------

/-- Of two declarations the winner's value absorbs the loser's. -/
theorem value_merge (old new : Enumerant)
    : (old.merge new).value
      = (mergeRule.winner old new).value.absorb (mergeRule.loser old new).value := by
  have winner
      : mergeRule.winner old new = if old.origin.yieldsTo new.origin then new else old := rfl
  have loser
      : mergeRule.loser old new = if old.origin.yieldsTo new.origin then old else new := rfl
  rw [winner, loser]
  by_cases agree : old.value.bits = new.value.bits
  · rw [merge, if_pos (by simpa [agrees] using agree)]
    cases wins : old.origin.yieldsTo new.origin with
    | false => simp [Value.absorb, agree]
    | true =>
        refine Value.ext (by simpa using agree) ?_
        simpa [Value.absorb, agree] using Width.max_comm old.value.width new.value.width
  · rw [merge, if_neg (by simpa [agrees] using agree)]
    cases wins : old.origin.yieldsTo new.origin with
    | false => simp [Value.absorb, Ne.symm agree]
    | true => simp [Value.absorb, agree]

/-- While nothing wins against an entry, its value absorbs all that is declared. By induction on
the declarations.
-/
theorem entry_foldl_kept {others : List Enumerant} {account : Account Enumerant}
    {entry : Enumerant} (found : account.entry = some entry)
    (wins : ∀ other ∈ others, entry.origin.yieldsTo other.origin = false)
    : ∃ kept,
        (others.foldl mergeRule.declare account).entry = some kept
        ∧ kept.origin = entry.origin
        ∧ kept.value
          = others.foldl (fun value other => value.absorb other.value) entry.value := by
  induction others generalizing account entry with
  | nil => exact ⟨entry, found, rfl, rfl⟩
  | cons next rest ih =>
      have stays : (mergeRule.origin entry).yieldsTo (mergeRule.origin next) = false :=
        wins next List.mem_cons_self
      have declared : (mergeRule.declare account next).entry = some (entry.merge next) := by
        rw [MergeRule.declare, found]
        rfl
      have origin : (entry.merge next).origin = entry.origin := by
        refine (mergeRule.origin_merge entry next).trans ?_
        simp only [MergedKind.winner, stays, Bool.false_eq_true, if_false]
        rfl
      have value : (entry.merge next).value = entry.value.absorb next.value := by
        simp only [value_merge, MergedKind.winner, MergedKind.loser, stays,
          Bool.false_eq_true, if_false]
      obtain ⟨kept, keptFound, keptOrigin, keptValue⟩ := ih declared
        (fun other member => origin ▸ wins other (List.mem_cons_of_mem _ member))
      rw [value] at keptValue
      exact ⟨kept, keptFound, keptOrigin.trans origin, keptValue⟩

/-- The entry behind the first feature is that feature's. Its value has absorbed what stood before
it, and absorbs all that comes later.
-/
theorem entry_feature {early : List Enumerant} {feature : Enumerant}
    (isFeature : feature.origin.isFeature)
    (before : ∀ other ∈ early, other.origin.isFeature = false) (late : List Enumerant)
    : ∃ entry,
        (mergeRule.account (early ++ feature :: late)).entry = some entry
        ∧ entry.origin = feature.origin
        ∧ entry.value
          = late.foldl (fun value other => value.absorb other.value)
              ((mergeRule.account early).entry.elim feature.value fun old =>
                feature.value.absorb old.value) := by
  have keeps {entry : Enumerant} (origin : entry.origin = feature.origin)
      : ∀ other ∈ late, entry.origin.yieldsTo other.origin = false := by
    intro other _
    simp [Origin.yieldsTo, origin, isFeature]
  rw [MergeRule.account, List.foldl_append, List.foldl_cons, ← MergeRule.account]
  cases earlier : (mergeRule.account early).entry with
  | none =>
      have declared
          : (mergeRule.declare (mergeRule.account early) feature).entry = some feature := by
        rw [MergeRule.declare, earlier]
        rfl
      exact entry_foldl_kept declared (keeps rfl)
  | some old =>
      have wins : (mergeRule.origin old).yieldsTo (mergeRule.origin feature) = true := by
        have oldLoses : old.origin.isFeature = false :=
          mergeRule.origin_entry (fun origin => origin.isFeature = false) before earlier
        change old.origin.yieldsTo feature.origin = true
        simp [Origin.yieldsTo, isFeature, oldLoses]
      have declared
          : (mergeRule.declare (mergeRule.account early) feature).entry
            = some (old.merge feature) := by
        rw [MergeRule.declare, earlier]
        rfl
      have origin : (old.merge feature).origin = feature.origin := by
        refine (mergeRule.origin_merge old feature).trans ?_
        simp only [MergedKind.winner, wins, if_true]
        rfl
      have value : (old.merge feature).value = feature.value.absorb old.value := by
        simp only [value_merge, MergedKind.winner, MergedKind.loser, wins, if_true]
      obtain ⟨kept, keptFound, keptOrigin, keptValue⟩ :=
        entry_foldl_kept declared (keeps origin)
      rw [value] at keptValue
      exact ⟨kept, keptFound, keptOrigin.trans origin, keptValue⟩

/-- The entry behind the first feature is wide if that feature is, or if a later declaration widens
it, or one before it that had not lost to a first declaration of other bits.
-/
theorem wide_entry_iff {early late : List Enumerant} {feature entry : Enumerant}
    (isFeature : feature.origin.isFeature)
    (before : ∀ other ∈ early, other.origin.isFeature = false)
    (found : (mergeRule.account (early ++ feature :: late)).entry = some entry)
    : entry.value.width = .wide
      ↔ feature.value.width = .wide
        ∨ (∃ first ∈ early.head?, first.value.bits = feature.value.bits
            ∧ ∃ other ∈ early, feature.value.IsWidenedBy other.value)
        ∨ ∃ other ∈ late, feature.value.IsWidenedBy other.value := by
  obtain ⟨merged, mergedFound, -, value⟩ := entry_feature isFeature before late
  obtain rfl := Option.some.inj (mergedFound.symm.trans found)
  rw [value, Value.wide_foldl_absorb_iff, ← or_assoc]
  cases early with
  | nil => simp [MergeRule.account]
  | cons first rest =>
      -- Nothing wins against the first declaration before the feature does.
      have keeps : ∀ other ∈ rest, first.origin.yieldsTo other.origin = false := by
        intro other member
        simp [Origin.yieldsTo, before other (List.mem_cons_of_mem _ member)]
      have declared : (mergeRule.declare {} first).entry = some first := rfl
      obtain ⟨old, oldFound, -, oldValue⟩ := entry_foldl_kept declared keeps
      rw [MergeRule.account, List.foldl_cons, oldFound, Option.elim_some,
        Value.wide_absorb_iff]
      simp only [Value.isWidenedBy_absorb_iff]
      refine or_congr_left (or_congr_right ?_)
      rw [Value.IsWidenedBy, oldValue, Value.bits_foldl_absorb, Value.wide_foldl_absorb_iff]
      simp only [List.head?_cons, Option.mem_some_iff, exists_eq_left', List.exists_mem_cons_iff,
        Value.IsWidenedBy]
      refine and_congr_right fun agree => ?_
      rw [agree, eq_self, true_and]

-----------------------------------------------------------------------------------------
-- Entries that features declare with one value
-----------------------------------------------------------------------------------------

/-- Features declare an enumerant, and all of them with the same value. -/
structure IsCore (value : Value) (declarations : List Enumerant) : Prop where
  declared : ∃ declaration ∈ declarations, declaration.origin.isFeature
  same : ∀ declaration ∈ declarations, declaration.origin.isFeature → declaration.value = value

instance (value : Value) (declarations : List Enumerant)
    : Decidable (IsCore value declarations) :=
  decidable_of_iff
    ((∃ declaration ∈ declarations, declaration.origin.isFeature)
      ∧ ∀ declaration ∈ declarations,
          declaration.origin.isFeature → declaration.value = value)
    ⟨fun both => ⟨both.1, both.2⟩, fun core => ⟨core.declared, core.same⟩⟩

/-- No order of the declarations bears on the width: all have the bits of the features' value, or
none that has them is wider than that value.
-/
def IsWidthSettled (value : Value) (declarations : List Enumerant) : Prop :=
  (∀ declaration ∈ declarations, declaration.value.bits = value.bits)
  ∨ ∀ declaration ∈ declarations,
      value.IsWidenedBy declaration.value → value.width = .wide

variable {value : Value} {declarations reordered : List Enumerant}

theorem IsCore.perm (core : IsCore value declarations) (perm : declarations.Perm reordered)
    : IsCore value reordered := by
  obtain ⟨declaration, member, isFeature⟩ := core.declared
  exact {
    declared := ⟨declaration, perm.mem_iff.mp member, isFeature⟩
    same := fun other otherMember => core.same other (perm.mem_iff.mpr otherMember)
  }

theorem IsWidthSettled.perm (settled : IsWidthSettled value declarations)
    (perm : declarations.Perm reordered)
    : IsWidthSettled value reordered := by
  rcases settled with agree | narrow
  · exact Or.inl fun other member => agree other (perm.mem_iff.mpr member)
  · exact Or.inr fun other member => narrow other (perm.mem_iff.mpr member)

/-- The declarations before the first feature, that feature, and the declarations behind it. -/
theorem IsCore.split (core : IsCore value declarations)
    : ∃ early feature late,
        declarations = early ++ feature :: late
        ∧ feature.origin.isFeature
        ∧ feature.value = value
        ∧ ∀ other ∈ early, other.origin.isFeature = false := by
  have some : (declarations.find? fun other => other.origin.isFeature).isSome := by
    simpa using core.declared
  obtain ⟨feature, found⟩ := Option.isSome_iff_exists.mp some
  obtain ⟨isFeature, early, late, shape, before⟩ := List.find?_eq_some_iff_append.mp found
  refine ⟨early, feature, late, shape, isFeature, ?_, by simpa using before⟩
  exact core.same feature (List.mem_of_find?_eq_some found) isFeature

/-- Behind features that agree stands an entry of theirs, with their bits. -/
theorem IsCore.entry (core : IsCore value declarations)
    : ∃ entry,
        (mergeRule.account declarations).entry = some entry
        ∧ entry.origin.isFeature
        ∧ entry.value.bits = value.bits := by
  obtain ⟨early, feature, late, rfl, isFeature, rfl, before⟩ := core.split
  obtain ⟨entry, found, origin, merged⟩ := entry_feature isFeature before late
  refine ⟨entry, found, origin ▸ isFeature, ?_⟩
  rw [merged, Value.bits_foldl_absorb]
  cases (mergeRule.account early).entry with
  | none => rfl
  | some old => exact feature.value.bits_absorb old.value

/-- Where the width is settled, it is wide if any declaration of the features' bits is. -/
theorem IsCore.wide_iff (core : IsCore value declarations)
    (settled : IsWidthSettled value declarations) {entry : Enumerant}
    (found : (mergeRule.account declarations).entry = some entry)
    : entry.value.width = .wide
      ↔ value.width = .wide
        ∨ ∃ declaration ∈ declarations, value.IsWidenedBy declaration.value := by
  obtain ⟨early, feature, late, rfl, isFeature, rfl, before⟩ := core.split
  rw [wide_entry_iff isFeature before found]
  rcases settled with agree | narrow
  · have unbeaten
        : (∃ first ∈ early.head?, first.value.bits = feature.value.bits
            ∧ ∃ other ∈ early, feature.value.IsWidenedBy other.value)
          ↔ ∃ other ∈ early, feature.value.IsWidenedBy other.value := by
      cases early with
      | nil => simp
      | cons first rest => simp [agree first (by simp)]
    rw [unbeaten]
    constructor
    · rintro (wide | ⟨other, member, widens⟩ | ⟨other, member, widens⟩)
      · exact Or.inl wide
      · exact Or.inr ⟨other, by simp [member], widens⟩
      · exact Or.inr ⟨other, by simp [member], widens⟩
    · rintro (wide | ⟨other, member, widens⟩)
      · exact Or.inl wide
      · rcases List.mem_append.mp member with earlier | behind
        · exact Or.inr (Or.inl ⟨other, earlier, widens⟩)
        · rcases List.mem_cons.mp behind with rfl | later
          · exact Or.inl widens.2
          · exact Or.inr (Or.inr ⟨other, later, widens⟩)
  · have already {other : Enumerant} (member : other ∈ early ++ feature :: late)
        (widens : feature.value.IsWidenedBy other.value)
        : feature.value.width = .wide :=
      narrow other member widens
    constructor
    · rintro (wide | ⟨-, -, -, other, member, widens⟩ | ⟨other, member, widens⟩)
      · exact Or.inl wide
      · exact Or.inl (already (by simp [member]) widens)
      · exact Or.inl (already (by simp [member]) widens)
    · rintro (wide | ⟨other, member, widens⟩)
      · exact Or.inl wide
      · exact Or.inl (already member widens)

/-- All features can be put behind everything else, and what differs from them is not theirs. -/
theorem IsCore.sort (core : IsCore value declarations)
    : ∃ others feature late,
        declarations.Perm (others ++ feature :: late)
        ∧ (∀ other ∈ others, other.origin.isFeature = false)
        ∧ feature.origin.isFeature
        ∧ (∀ declaration ∈ feature :: late, declaration.value = value)
        ∧ ∀ declaration ∈ declarations, declaration.value ≠ value → declaration ∈ others := by
  let features := declarations.filter fun declaration => declaration.origin.isFeature
  let others := declarations.filter fun declaration => !declaration.origin.isFeature
  have perm : declarations.Perm (others ++ features) :=
    (List.filter_append_perm _ declarations).symm.trans List.perm_append_comm
  have valueOf : ∀ feature ∈ features, feature.value = value := by
    intro feature member
    exact core.same feature (List.mem_filter.mp member).1 (List.mem_filter.mp member).2
  obtain ⟨declared, declaredMember, declaredFeature⟩ := core.declared
  have declaredIn : declared ∈ features := List.mem_filter.mpr ⟨declaredMember, declaredFeature⟩
  obtain ⟨feature, late, shape⟩ := List.exists_cons_of_ne_nil (List.ne_nil_of_mem declaredIn)
  have featureMember : feature ∈ features := by simp [shape]
  refine ⟨others, feature, late, shape ▸ perm, fun other member => ?_,
    (List.mem_filter.mp featureMember).2, shape ▸ valueOf, fun other member differs => ?_⟩
  · simpa using (List.mem_filter.mp member).2
  · rcases List.mem_append.mp (perm.mem_iff.mp member) with inOthers | inFeatures
    · exact inOthers
    · exact absurd (valueOf other inFeatures) differs

/-- Features that come first are widened by any declaration that can widen them. -/
theorem IsCore.exists_wide (core : IsCore value declarations) {wide : Enumerant}
    (member : wide ∈ declarations) (widens : value.IsWidenedBy wide.value)
    (narrow : ¬ value.width = .wide)
    : ∃ reordered entry,
        declarations.Perm reordered
        ∧ (mergeRule.account reordered).entry = some entry
        ∧ entry.value.width = .wide := by
  obtain ⟨others, feature, late, perm, -, isFeature, valueOf, differing⟩ := core.sort
  have inOthers : wide ∈ others := differing wide member fun same => narrow (same ▸ widens.2)
  have featureValue : feature.value = value := valueOf feature List.mem_cons_self
  have none : ∀ other ∈ ([] : List Enumerant), other.origin.isFeature = false := by simp
  obtain ⟨entry, found, -, -⟩ := entry_feature isFeature none (late ++ others)
  refine ⟨feature :: late ++ others, entry, perm.trans List.perm_append_comm, found, ?_⟩
  refine (wide_entry_iff isFeature none found).mpr (Or.inr (Or.inr ?_))
  exact ⟨wide, List.mem_append_right _ inOthers, featureValue ▸ widens⟩

/-- Features that come last are not widened if what comes first has other bits. -/
theorem IsCore.exists_narrow (core : IsCore value declarations) {first : Enumerant}
    (member : first ∈ declarations) (differs : ¬ first.value.bits = value.bits)
    (narrow : ¬ value.width = .wide)
    : ∃ reordered entry,
        declarations.Perm reordered
        ∧ (mergeRule.account reordered).entry = some entry
        ∧ ¬ entry.value.width = .wide := by
  obtain ⟨others, feature, late, perm, losing, isFeature, valueOf, differing⟩ := core.sort
  have inOthers : first ∈ others := differing first member fun same => differs (by rw [same])
  have featureValue : feature.value = value := valueOf feature List.mem_cons_self
  have others_perm : others.Perm (first :: others.erase first) := List.perm_cons_erase inOthers
  have before : ∀ other ∈ first :: others.erase first, other.origin.isFeature = false :=
    fun other otherMember => losing other (others_perm.mem_iff.mpr otherMember)
  obtain ⟨entry, found, -, -⟩ := entry_feature isFeature before late
  refine ⟨first :: others.erase first ++ feature :: late, entry,
    perm.trans (others_perm.append_right _), found, ?_⟩
  rw [wide_entry_iff isFeature before found, featureValue]
  rintro (already | ⟨head, headFound, agrees, -⟩ | ⟨later, laterMember, widens⟩)
  · exact narrow already
  · obtain rfl : first = head := by simpa using headFound
    exact differs agrees
  · have same := valueOf later (List.mem_cons_of_mem _ laterMember)
    exact narrow (same ▸ widens.2)

/-- Where the width is not settled, either width comes out of some order. -/
theorem IsCore.exists_width (core : IsCore value declarations)
    (unsettled : ¬ IsWidthSettled value declarations) (width : Width)
    : ∃ reordered entry,
        declarations.Perm reordered
        ∧ (mergeRule.account reordered).entry = some entry
        ∧ entry.value.width = width := by
  obtain ⟨disagree, widened⟩ := not_or.mp unsettled
  simp only [not_forall] at disagree widened
  obtain ⟨first, firstMember, differs⟩ := disagree
  obtain ⟨wide, wideMember, widens, narrow⟩ := widened
  cases width with
  | wide => exact core.exists_wide wideMember widens narrow
  | narrow =>
      obtain ⟨reordered, entry, perm, found, notWide⟩ :=
        core.exists_narrow firstMember differs narrow
      refine ⟨reordered, entry, perm, found, ?_⟩
      cases width : entry.value.width with
      | narrow => rfl
      | wide => exact absurd width notWide

/-- Two enumerants of features with the same bits, in the same groups. -/
structure SameCore (one other : Enumerant) : Prop where
  features : one.origin.isFeature ∧ other.origin.isFeature
  bits : one.value.bits = other.value.bits
  groups : ∀ group, group ≠ "" → (group ∈ one.groups ↔ group ∈ other.groups)

end Enumerant

-----------------------------------------------------------------------------------------
-- Sources in another order
-----------------------------------------------------------------------------------------

/-- A source that declares one enumerant and nothing else. -/
def Records.declaring (enumerant : Enumerant) : Records :=
  { source := enumerant.source, enums := [enumerant] }

theorem enumDeclarations_perm {sources reordered : List Records}
    (perm : sources.Perm reordered) (name : String)
    : (enumDeclarations sources name).Perm (enumDeclarations reordered name) :=
  (perm.flatMap_right _).filter _

theorem enumDeclarations_declaring {declarations : List Enumerant} {name : String}
    (named : ∀ declaration ∈ declarations, declaration.name = name)
    : enumDeclarations (declarations.map Records.declaring) name = declarations := by
  have declared : declaredEnums (declarations.map Records.declaring) = declarations := by
    rw [declaredEnums, List.flatMap_map]
    exact List.flatMap_singleton' declarations
  rw [enumDeclarations, declared, List.filter_eq_self]
  simpa using named

namespace Registry

variable {api : Api} {sources reordered : List Records} {name : String} {value : Value}

/-- The enumerant that features declare, as the declarations of its name make it. -/
theorem find?_core (api : Api) (core : Enumerant.IsCore value (enumDeclarations sources name))
    : ∃ entry found,
        (Enumerant.mergeRule.account (enumDeclarations sources name)).entry = some entry
        ∧ (ofRecords api sources).enums.find? name = some found
        ∧ found.origin.isFeature
        ∧ found.value = entry.value
        ∧ entry.value.bits = value.bits := by
  obtain ⟨entry, merged, isFeature, bits⟩ := core.entry
  refine ⟨entry, entry.addGroups (listedGroups sources name), merged, ?_, ?_,
    entry.value_addGroups _, bits⟩
  · rw [find?_enums, merged, Option.map_some]
  · rw [Enumerant.origin_addGroups]
    exact isFeature

/-- An enumerant has its groups from all sources, in whatever order these come. -/
theorem groups_reordered (perm : sources.Perm reordered) {one other : Enumerant}
    (oneFound : (ofRecords api sources).enums.find? name = some one)
    (otherFound : (ofRecords api reordered).enums.find? name = some other)
    {group : String} (named : group ≠ "")
    : group ∈ one.groups ↔ group ∈ other.groups := by
  rw [mem_groups_of_find?_enums oneFound named, mem_groups_of_find?_enums otherFound named]
  simp only [(enumDeclarations_perm perm name).mem_iff, perm.mem_iff]

/-- For an enumerant that features declare, all with the same value, the order of the sources
decides neither its bits nor its groups nor that it is a feature's. It does not decide its width
either where that is settled. Where it is not, sources with one declaration each can be put in an
order for either width.
-/
theorem core_reordered (api : Api) (sources : List Records) {name : String} {value : Value}
    (core : Enumerant.IsCore value (enumDeclarations sources name))
    : let declarations := enumDeclarations sources name
      (∀ reordered,
        sources.Perm reordered
        → ∃ one other,
            (ofRecords api sources).enums.find? name = some one
            ∧ (ofRecords api reordered).enums.find? name = some other
            ∧ one.SameCore other
            ∧ (Enumerant.IsWidthSettled value declarations
              → one.value.width = other.value.width))
      ∧ (¬ Enumerant.IsWidthSettled value declarations
        → ∀ width,
            ∃ reordered,
              (declarations.map Records.declaring).Perm reordered
              ∧ ((ofRecords api reordered).enums.find? name).map
                  (fun enumerant => enumerant.value.width)
                = some width) := by
  intro declarations
  constructor
  · intro reordered perm
    have declarationsPerm := enumDeclarations_perm perm name
    have otherCore := core.perm declarationsPerm
    obtain ⟨oneEntry, one, oneMerged, oneFound, oneFeature, oneValue, oneBits⟩ :=
      find?_core api core
    obtain ⟨otherEntry, other, otherMerged, otherFound, otherFeature, otherValue, otherBits⟩ :=
      find?_core api otherCore
    refine ⟨one, other, oneFound, otherFound, ?_, fun settled => ?_⟩
    · exact {
        features := ⟨oneFeature, otherFeature⟩
        bits := by rw [oneValue, otherValue, oneBits, otherBits]
        groups := fun group named => groups_reordered perm oneFound otherFound named
      }
    · rw [oneValue, otherValue]
      refine Width.eq_of_wide_iff ?_
      rw [core.wide_iff settled oneMerged,
        otherCore.wide_iff (settled.perm declarationsPerm) otherMerged]
      simp only [declarationsPerm.mem_iff]
  · intro unsettled width
    obtain ⟨reordered, entry, perm, merged, entryWidth⟩ := core.exists_width unsettled width
    have named : ∀ declaration ∈ reordered, declaration.name = name := fun other member =>
      name_of_mem_enumDeclarations sources name other (perm.mem_iff.mpr member)
    refine ⟨reordered.map Records.declaring, perm.map Records.declaring, ?_⟩
    rw [find?_enums, enumDeclarations_declaring named, merged, Option.map_some,
      Option.map_some, Enumerant.value_addGroups, entryWidth]

def otherBits : Records where
  source := "x0"
  enums := [.declare "FOO" (.ofBits 2) (.extension "X0") "x0"]

def wideBits : Records where
  source := "x1"
  enums := [.declare "FOO" { bits := 1, width := .wide } (.extension "X1") "x1"]

def narrowFeature : Records where
  source := "core"
  enums := [.declare "FOO" (.ofBits 1) (.feature "gl" "GL_VERSION_1_0" ⟨1, 0⟩) "core"]

theorem narrowFeature_reordered
    : Enumerant.IsCore (.ofBits 1)
          (enumDeclarations [otherBits, wideBits, narrowFeature] "FOO")
      ∧ [otherBits, wideBits, narrowFeature].Perm [narrowFeature, otherBits, wideBits]
      ∧ ∃ one other,
          (ofRecords .gl [otherBits, wideBits, narrowFeature]).enums.find? "FOO" = some one
          ∧ (ofRecords .gl [narrowFeature, otherBits, wideBits]).enums.find? "FOO" = some other
          ∧ one.SameCore other := by
  have core
      : Enumerant.IsCore (.ofBits 1)
          (enumDeclarations [otherBits, wideBits, narrowFeature] "FOO") := by
    decide
  have perm
      : [otherBits, wideBits, narrowFeature].Perm [narrowFeature, otherBits, wideBits] := by
    decide
  obtain ⟨one, other, oneFound, otherFound, same, -⟩ :=
    (core_reordered .gl [otherBits, wideBits, narrowFeature] core).1 _ perm
  exact ⟨core, perm, one, other, oneFound, otherFound, same⟩

/-- The wide declaration has lost to other bits before the feature comes, and so widens nothing,
but it widens the feature if that is there already.
-/
theorem narrowFeature_width
    : ¬ (Enumerant.IsCore (.ofBits 1)
            (enumDeclarations [otherBits, wideBits, narrowFeature] "FOO")
          ∧ [otherBits, wideBits, narrowFeature].Perm [narrowFeature, otherBits, wideBits]
          → ((ofRecords .gl [otherBits, wideBits, narrowFeature]).enums.find? "FOO").map
                (fun enumerant => enumerant.value.width)
              = ((ofRecords .gl [narrowFeature, otherBits, wideBits]).enums.find? "FOO").map
                fun enumerant => enumerant.value.width) := by
  decide

end Registry

end ApiBindings
