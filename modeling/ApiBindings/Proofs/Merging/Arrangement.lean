import ApiBindings.Proofs.Merging.Extensions
import ApiBindings.Proofs.Merging.Features

/-! The features and extensions of a registry are all that sources declare, in a fixed order.
Declarations are joined by their places and names, which leaves every block in the order in which
it was ingested. Features are then sorted by their interfaces, in the order in which these were
first declared, and by their numbers.
-/

namespace ApiBindings

-----------------------------------------------------------------------------------------
-- Numbers
-----------------------------------------------------------------------------------------

namespace Version

/-- The first number comes strictly before the second one. -/
def Precedes (first second : Version) : Prop :=
  first.major < second.major ∨ first.major = second.major ∧ first.minor < second.minor

theorem le_iff {first second : Version}
    : first.le second = true
      ↔ first.major < second.major ∨ first.major = second.major ∧ first.minor ≤ second.minor := by
  simp [le]

theorem le_trans {first second third : Version} (earlier : first.le second = true)
    (later : second.le third = true)
    : first.le third = true := by
  rw [le_iff] at *
  rcases earlier with earlier | ⟨same, earlier⟩
  · rcases later with later | ⟨equal, -⟩
    · exact .inl (UInt16.lt_trans earlier later)
    · exact .inl (equal ▸ earlier)
  · rcases later with later | ⟨equal, later⟩
    · exact .inl (same ▸ later)
    · exact .inr ⟨same.trans equal, UInt16.le_trans earlier later⟩

theorem le_total (first second : Version) : first.le second = true ∨ second.le first = true := by
  rw [le_iff, le_iff]
  rcases Nat.lt_trichotomy first.major.toNat second.major.toNat with less | same | more
  · exact .inl (.inl (UInt16.lt_iff_toNat_lt.mpr less))
  · have same := UInt16.toNat_inj.mp same
    rcases UInt16.le_total first.minor second.minor with less | more
    · exact .inl (.inr ⟨same, less⟩)
    · exact .inr (.inr ⟨same.symm, more⟩)
  · exact .inr (.inl (UInt16.lt_iff_toNat_lt.mpr more))

theorem precedes_of_le {first second : Version} (upTo : first.le second = true)
    (differ : first ≠ second)
    : first.Precedes second := by
  rcases le_iff.mp upTo with less | ⟨same, minor⟩
  · exact .inl less
  · refine .inr ⟨same, UInt16.lt_of_le_of_ne minor fun equal => differ ?_⟩
    cases first
    cases second
    simp_all

end Version

-----------------------------------------------------------------------------------------
-- Lists that are sorted by keys
-----------------------------------------------------------------------------------------

section

variable {α κ : Type} [DecidableEq κ] {key : α → κ}

/-- Leaving out repetitions before taking keys changes nothing if repeated keys are erased too. By
induction from the back.
-/
theorem eraseDups_map_foldl_addNew {β : Type} [DecidableEq β] (key : β → κ) (list : List β)
    : ((list.foldl addNew []).map key).eraseDups = (list.map key).eraseDups := by
  induction list using List.reverseRecOn with
  | nil => rfl
  | append_singleton front last ih =>
      rw [List.foldl_append, List.foldl_cons, List.foldl_nil, List.map_append, List.map_singleton,
        eraseDups_concat, ← ih, addNew]
      split
      · rename_i seen
        have among : key last ∈ ((front.foldl addNew []).map key).eraseDups :=
          List.mem_eraseDups.mpr (List.mem_map_of_mem seen)
        rw [addNew, if_pos among]
      · rw [List.map_append, List.map_singleton, eraseDups_concat]

/-- Those with the first of the keys are all in front, by induction on the list. -/
theorem filter_append_filter_of_sorted {first : κ} {keys : List κ} {list : List α}
    (sorted
      : list.Pairwise fun a b =>
          (first :: keys).idxOf (key a) ≤ (first :: keys).idxOf (key b))
    : (list.filter fun a => key a = first) ++ (list.filter fun a => key a ≠ first) = list := by
  induction list with
  | nil => rfl
  | cons head tail ih =>
      obtain ⟨upTo, sorted⟩ := List.pairwise_cons.mp sorted
      by_cases isFirst : key head = first
      · rw [List.filter_cons_of_pos (by simpa using isFirst),
          List.filter_cons_of_neg (by simpa using isFirst), List.cons_append, ih sorted]
      · -- Behind an element with another key there is none with the first one.
        have behind : ∀ other ∈ head :: tail, key other ≠ first := by
          intro other member same
          rcases List.mem_cons.mp member with rfl | later
          · exact isFirst same
          · have least := upTo other later
            rw [same, List.idxOf_cons_self, Nat.le_zero, List.idxOf_cons_ne _ (Ne.symm isFirst)]
              at least
            exact Nat.succ_ne_zero _ least
        rw [List.filter_eq_nil_iff.mpr (by simpa using behind),
          List.filter_eq_self.mpr (by simpa using behind), List.nil_append]

/-- A list that is sorted by keys is made of the parts for each key. By induction on the keys. -/
theorem flatMap_filter_of_sorted {keys : List κ} (unique : keys.Nodup) {list : List α}
    (known : ∀ a ∈ list, key a ∈ keys)
    (sorted : list.Pairwise fun a b => keys.idxOf (key a) ≤ keys.idxOf (key b))
    : keys.flatMap (fun k => list.filter fun a => key a = k) = list := by
  induction keys generalizing list with
  | nil =>
      refine (List.eq_nil_iff_forall_not_mem.mpr fun a member => ?_).symm
      exact List.not_mem_nil (known a member)
  | cons first keys ih =>
      obtain ⟨absent, unique⟩ := List.nodup_cons.mp unique
      have rest
          : keys.flatMap (fun k =>
              (list.filter fun a => key a ≠ first).filter fun a => key a = k)
            = list.filter fun a => key a ≠ first := by
        refine ih unique (fun a member => ?_) ?_
        · obtain ⟨inList, other⟩ := List.mem_filter.mp member
          exact List.mem_of_ne_of_mem (of_decide_eq_true other) (known a inList)
        · refine (sorted.filter _).imp_of_mem fun {a b} left right upTo => ?_
          have leftOther : key a ≠ first := of_decide_eq_true (List.mem_filter.mp left).2
          have rightOther : key b ≠ first := of_decide_eq_true (List.mem_filter.mp right).2
          rw [List.idxOf_cons_ne _ leftOther.symm, List.idxOf_cons_ne _ rightOther.symm] at upTo
          exact Nat.le_of_succ_le_succ upTo
      have parts
          : (keys.flatMap fun k => list.filter fun a => key a = k)
            = keys.flatMap fun k =>
                (list.filter fun a => key a ≠ first).filter fun a => key a = k := by
        refine List.flatMap_congr fun k member => ?_
        rw [List.filter_filter]
        refine List.filter_congr fun a _ => ?_
        by_cases same : key a = k
        · have other : k ≠ first := fun equal => absent (equal ▸ member)
          simp [same, other]
        · simp [same]
      rw [List.flatMap_cons, parts, rest]
      exact filter_append_filter_of_sorted sorted

end

-----------------------------------------------------------------------------------------
-- The order of features
-----------------------------------------------------------------------------------------

namespace Feature

/-- The order of features by interface and number, for interfaces that need not be listed. -/
def isUpTo (apis : List String) (a b : Feature) : Bool :=
  apis.idxOf a.api < apis.idxOf b.api
    || (apis.idxOf a.api == apis.idxOf b.api && a.number.le b.number)

theorem isUpTo_iff {apis : List String} {a b : Feature}
    : isUpTo apis a b = true
      ↔ apis.idxOf a.api < apis.idxOf b.api
        ∨ apis.idxOf a.api = apis.idxOf b.api ∧ a.number.le b.number = true := by
  simp [isUpTo]

theorem isUpTo_trans (apis : List String) (a b c : Feature)
    (earlier : isUpTo apis a b = true) (later : isUpTo apis b c = true)
    : isUpTo apis a c = true := by
  rw [isUpTo_iff] at *
  rcases earlier with earlier | ⟨same, earlier⟩
  · rcases later with later | ⟨equal, -⟩
    · exact .inl (Nat.lt_trans earlier later)
    · exact .inl (equal ▸ earlier)
  · rcases later with later | ⟨equal, later⟩
    · exact .inl (same ▸ later)
    · exact .inr ⟨same.trans equal, Version.le_trans earlier later⟩

theorem isUpTo_total (apis : List String) (a b : Feature)
    : (isUpTo apis a b || isUpTo apis b a) = true := by
  rw [Bool.or_eq_true, isUpTo_iff, isUpTo_iff]
  rcases Nat.lt_trichotomy (apis.idxOf a.api) (apis.idxOf b.api) with less | same | more
  · exact .inl (.inl less)
  · rcases Version.le_total a.number b.number with less | more
    · exact .inl (.inr ⟨same, less⟩)
    · exact .inr (.inr ⟨same.symm, more⟩)
  · exact .inr (.inl more)

/-- Sorting goes by that order, as all interfaces are listed by then. -/
theorem precedes_eq_isUpTo {apis : List String} {a b : Feature} (listed : a.api ∈ apis)
    : Registry.Builder.precedes apis a b = isUpTo apis a b := by
  unfold Registry.Builder.precedes isUpTo
  by_cases same : a.api = b.api
  · simp [same]
  · have apart : apis.idxOf a.api ≠ apis.idxOf b.api := fun equal =>
      same ((List.idxOf_inj listed).mp equal)
    rw [if_neg same]
    simp only [beq_eq_false_iff_ne.mpr apart, Bool.false_and, Bool.or_false, decide_eq_decide]
    omega

end Feature

-----------------------------------------------------------------------------------------
-- Features and extensions in a registry
-----------------------------------------------------------------------------------------

/-- The extensions that sources declare, in the order in which they are ingested. -/
def declaredExtensions (sources : List Records) : List Extension :=
  sources.flatMap fun source => source.extensions

namespace Registry

theorem features_perm (api : Api) (sources : List Records)
    : (ofRecords api sources).features.Perm (built api sources).features :=
  List.mergeSort_perm _ _

/-- The interfaces of the features in a registry, in the order in which they were first declared.
-/
theorem apis_built (api : Api) (sources : List Records)
    : ((built api sources).features.map Feature.api).eraseDups
      = ((declaredFeatures sources).map Feature.api).eraseDups := by
  have byPlace (features : List Feature)
      : features.map Feature.api = (features.map Feature.place).map Prod.fst := by
    rw [List.map_map]
    rfl
  rw [byPlace, places_built, eraseDups_map_foldl_addNew, ← byPlace]

/-- Features are sorted by the order in which interfaces were first declared, and by number. -/
theorem pairwise_isUpTo (api : Api) (sources : List Records)
    : (ofRecords api sources).features.Pairwise fun a b =>
        Feature.isUpTo ((declaredFeatures sources).map Feature.api).eraseDups a b = true := by
  have sorted
      : (ofRecords api sources).features
        = (built api sources).features.mergeSort
            (Feature.isUpTo ((declaredFeatures sources).map Feature.api).eraseDups) := by
    have agree
        : ∀ a ∈ (built api sources).features, ∀ b ∈ (built api sources).features,
            Builder.precedes ((built api sources).features.map Feature.api).eraseDups a b
            = Feature.isUpTo ((declaredFeatures sources).map Feature.api).eraseDups (id a) (id b) := by
      intro a member b _
      rw [← apis_built api]
      exact Feature.precedes_eq_isUpTo (List.mem_eraseDups.mpr (List.mem_map_of_mem member))
    have same := List.map_mergeSort agree
    rwa [List.map_id, List.map_id] at same
  rw [sorted]
  exact List.pairwise_mergeSort (Feature.isUpTo_trans _) (Feature.isUpTo_total _) _

theorem nodup_places (api : Api) (sources : List Records)
    : ((ofRecords api sources).features.map Feature.place).Nodup :=
  ((features_perm api sources).map _).nodup_iff.mpr (nodup_places_built api sources)

theorem mem_places_iff (api : Api) (sources : List Records) (place : String × Version)
    : place ∈ (ofRecords api sources).features.map Feature.place
      ↔ place ∈ (declaredFeatures sources).map Feature.place := by
  rw [((features_perm api sources).map _).mem_iff, places_built, mem_foldl_addNew]

/-- The names of the extensions after a source: those that were there, and then the new ones. -/
theorem Builder.extensionNames_ingest (builder : Builder) (records : Records)
    : (builder.ingest records).extensions.names
      = (records.extensions.map Extension.name).foldl addNew builder.extensions.names := by
  have added (builder : Builder)
      : (records.extensions.foldl addExtension builder).extensions.names
        = (records.extensions.map Extension.name).foldl addNew builder.extensions.names := by
    rw [List.foldl_map]
    refine (List.foldl_hom (fun builder : Builder => builder.extensions.names) ?_).symm
    exact fun builder new => (Table.names_upsert builder.extensions new.name new _).symm
  unfold ingest
  dsimp only
  rw [added,
    foldl_keeps (fun builder : Builder => builder.extensions.names) addFeature (fun _ _ => rfl),
    foldl_keeps (fun builder : Builder => builder.extensions.names) addType (fun _ _ => rfl),
    foldl_keeps (fun builder : Builder => builder.extensions.names) addCommand (fun _ _ => rfl),
    foldl_keeps (fun builder : Builder => builder.extensions.names) addEnumerant
      (fun _ _ => rfl)]

theorem extensionNames_ofRecords (api : Api) (sources : List Records)
    : (ofRecords api sources).extensions.names
      = ((declaredExtensions sources).map Extension.name).eraseDups := by
  rw [declaredExtensions, List.map_flatMap, ← foldl_addNew, List.foldl_flatMap]
  refine (List.foldl_hom (fun builder : Builder => builder.extensions.names)
    fun builder source => ?_).symm
  exact (Builder.extensionNames_ingest builder source).symm

/-- Every extension stands under its own name. -/
theorem name_of_find?_extensions {api : Api} {sources : List Records} {name : String}
    {extension : Extension}
    (found : (ofRecords api sources).extensions.find? name = some extension)
    : extension.name = name := by
  rw [find?_extensions] at found
  cases shape : extensionDeclarations sources name with
  | nil =>
      rw [shape] at found
      cases found
  | cons first rest =>
      rw [shape, joinAll_cons, Option.some.injEq] at found
      rw [← found, Extension.name_foldl_merge]
      exact name_of_mem_extensionDeclarations sources name first (shape ▸ List.mem_cons_self)

-----------------------------------------------------------------------------------------
-- All that sources declare
-----------------------------------------------------------------------------------------

/-- A registry has the features and extensions that sources declare, in their order and with all
of their blocks.
-/
structure Arranges (registry : Registry) (sources : List Records) : Prop where
  /-- Each place has one feature. -/
  unique : (registry.features.map Feature.place).Nodup
  places
    : ∀ place,
        place ∈ registry.features.map Feature.place
        ↔ place ∈ (declaredFeatures sources).map Feature.place
  /-- The features of an interface stand together, and interfaces in the order of declaration. -/
  contiguous
    : registry.features
      = ((declaredFeatures sources).map Feature.api).eraseDups.flatMap fun api =>
          registry.features.filter fun feature => feature.api = api
  ascending
    : ∀ api,
        ((registry.features.filter fun feature => feature.api = api).map
          Feature.number).Pairwise Version.Precedes
  requires
    : ∀ feature ∈ registry.features,
        feature.requires
        = ((declaredFeatures sources).filter fun declared =>
            declared.place = feature.place).flatMap Feature.requires
  removes
    : ∀ feature ∈ registry.features,
        feature.removes
        = ((declaredFeatures sources).filter fun declared =>
            declared.place = feature.place).flatMap Feature.removes
  extensions
    : registry.extensions.values.map Extension.name
      = ((declaredExtensions sources).map Extension.name).eraseDups
  extensionRequires
    : ∀ extension ∈ registry.extensions.values,
        extension.requires
        = ((declaredExtensions sources).filter fun declared =>
            declared.name = extension.name).flatMap Extension.requires

/-- Merging loses no block of a feature or an extension and puts both in order. -/
theorem ofRecords_arranges (api : Api) (sources : List Records)
    : (ofRecords api sources).Arranges sources where
  unique := nodup_places api sources
  places := mem_places_iff api sources
  contiguous := by
    refine (flatMap_filter_of_sorted (nodup_eraseDups _) ?_ ?_).symm
    · intro feature member
      have place := (mem_places_iff api sources _).mp (List.mem_map_of_mem member)
      obtain ⟨declared, among, same⟩ := List.mem_map.mp place
      rw [List.mem_eraseDups]
      exact List.mem_map.mpr ⟨declared, among, congrArg Prod.fst same⟩
    · refine (pairwise_isUpTo api sources).imp fun {a b} upTo => ?_
      rcases Feature.isUpTo_iff.mp upTo with less | ⟨same, -⟩
      · exact Nat.le_of_lt less
      · exact Nat.le_of_eq same
  ascending := by
    intro interface
    have sorted := (pairwise_isUpTo api sources).and
      (List.pairwise_map.mp (nodup_places api sources))
    refine List.pairwise_map.mpr ((sorted.filter _).imp_of_mem ?_)
    rintro a b left right ⟨upTo, apart⟩
    have leftApi : a.api = interface := of_decide_eq_true (List.mem_filter.mp left).2
    have rightApi : b.api = interface := of_decide_eq_true (List.mem_filter.mp right).2
    have number : a.number.le b.number = true := by
      rcases Feature.isUpTo_iff.mp upTo with less | ⟨-, number⟩
      · rw [leftApi, rightApi] at less
        exact absurd less (Nat.lt_irrefl _)
      · exact number
    refine Version.precedes_of_le number fun same => apart ?_
    exact Prod.ext (leftApi.trans rightApi.symm) same
  requires := by
    intro feature member
    obtain ⟨first, rest, shape, made⟩ := exists_declarations_of_mem_features member
    rw [shape, ← Feature.requires_foldl_merge, made]
  removes := by
    intro feature member
    obtain ⟨first, rest, shape, made⟩ := exists_declarations_of_mem_features member
    rw [shape, ← Feature.removes_foldl_merge, made]
  extensions := by
    rw [← extensionNames_ofRecords api, Table.values, List.map_map]
    refine List.map_congr_left fun entry member => ?_
    exact name_of_find?_extensions (Table.mem_entries_iff.mp member)
  extensionRequires := by
    intro extension member
    obtain ⟨first, rest, shape, made⟩ := mem_extensions_iff.mp member
    change _ = (extensionDeclarations sources extension.name).flatMap _
    rw [shape, ← Extension.requires_foldl_merge, made]

end Registry

end ApiBindings
