import ApiBindings.Proofs.Merging.Accounts

/-! What merging makes of the features of one place, an interface and a number.
There is one feature for each place that sources declare. It has the blocks of all declarations of
its place, in the order in which they are ingested, and the name of the first of them.
-/

namespace ApiBindings

namespace Feature

-----------------------------------------------------------------------------------------
-- Features by their places
-----------------------------------------------------------------------------------------

def place (feature : Feature) : String × Version :=
  (feature.api, feature.number)

/-- What two declarations of one place make together. -/
def merge (old new : Feature) : Feature :=
  { old with
    requires := old.requires ++ new.requires
    removes := old.removes ++ new.removes }

theorem addTo_cons (new old : Feature) (rest : List Feature)
    : new.addTo (old :: rest)
      = if old.place = new.place then old.merge new :: rest else old :: new.addTo rest := by
  simp only [addTo, place, merge, Prod.mk.injEq]

/-- Adding a feature adds its place behind all others, unless it is there. By induction on the
features.
-/
theorem places_addTo (new : Feature) (features : List Feature)
    : (new.addTo features).map place = addNew (features.map place) new.place := by
  induction features with
  | nil => rfl
  | cons old rest ih =>
      rw [addTo_cons]
      by_cases same : old.place = new.place
      · have merged : (old.merge new).place = old.place := rfl
        rw [if_pos same, List.map_cons, merged, List.map_cons, addNew,
          if_pos (by rw [same]; exact List.mem_cons_self)]
      · rw [if_neg same, List.map_cons, ih, List.map_cons, addNew, addNew]
        simp only [List.mem_cons, Ne.symm same, false_or]
        split <;> rfl

/-- Adding a feature changes what is found at its place, and at no other. By induction on the
features.
-/
theorem find?_addTo (new : Feature) (features : List Feature) (target : String × Version)
    : (new.addTo features).find? (fun feature => feature.place = target)
      = if decide (new.place = target) then
          joined merge (features.find? fun feature => feature.place = target) new
        else
          features.find? fun feature => feature.place = target := by
  induction features with
  | nil =>
      by_cases here : new.place = target
      · simp [addTo, joined, here]
      · simp [addTo, here]
  | cons old rest ih =>
      rw [addTo_cons]
      by_cases same : old.place = new.place
      · have merged : (old.merge new).place = old.place := rfl
        by_cases here : new.place = target
        · simp [merged, same, here, joined]
        · simp [merged, same, here]
      · by_cases here : old.place = target
        · have elsewhere : new.place ≠ target := fun equal => same (here.trans equal.symm)
          rw [if_neg same]
          simp [here, elsewhere]
        · simp only [if_neg same, List.find?_cons, here, decide_false, ih]

theorem place_foldl_merge (first : Feature) (rest : List Feature)
    : (rest.foldl merge first).place = first.place := by
  induction rest generalizing first with
  | nil => rfl
  | cons next rest ih => exact ih (first.merge next)

theorem name_foldl_merge (first : Feature) (rest : List Feature)
    : (rest.foldl merge first).name = first.name := by
  induction rest generalizing first with
  | nil => rfl
  | cons next rest ih => exact ih (first.merge next)

theorem requires_foldl_merge (first : Feature) (rest : List Feature)
    : (rest.foldl merge first).requires
      = (first :: rest).flatMap fun feature => feature.requires := by
  induction rest generalizing first with
  | nil => simp
  | cons next rest ih =>
      rw [List.foldl_cons, ih]
      simp [merge]

theorem removes_foldl_merge (first : Feature) (rest : List Feature)
    : (rest.foldl merge first).removes
      = (first :: rest).flatMap fun feature => feature.removes := by
  induction rest generalizing first with
  | nil => simp
  | cons next rest ih =>
      rw [List.foldl_cons, ih]
      simp [merge]

/-- A feature of the same place that has all the blocks which the other requires. -/
structure Carries (merged feature : Feature) : Prop where
  place : merged.place = feature.place
  requires : feature.requires ⊆ merged.requires

instance (merged feature : Feature) : Decidable (merged.Carries feature) :=
  decidable_of_iff
    (merged.place = feature.place ∧ ∀ block ∈ feature.requires, block ∈ merged.requires)
    ⟨fun ⟨place, requires⟩ => ⟨place, requires⟩, fun carries => ⟨carries.1, carries.2⟩⟩

end Feature

-----------------------------------------------------------------------------------------
-- Features in a registry
-----------------------------------------------------------------------------------------

/-- The features that sources declare, in the order in which they are ingested. -/
def declaredFeatures (sources : List Records) : List Feature :=
  sources.flatMap fun source => source.features

namespace Registry

theorem Builder.features_ingest (builder : Builder) (records : Records)
    : (builder.ingest records).features
      = records.features.foldl (fun features new => new.addTo features) builder.features := by
  have added (builder : Builder)
      : (records.features.foldl addFeature builder).features
        = records.features.foldl (fun features new => new.addTo features) builder.features :=
    (List.foldl_hom (fun builder : Builder => builder.features) fun _ _ => rfl).symm
  unfold ingest
  dsimp only
  rw [foldl_keeps (fun builder : Builder => builder.features) addExtension (fun _ _ => rfl),
    added,
    foldl_keeps (fun builder : Builder => builder.features) addType (fun _ _ => rfl),
    foldl_keeps (fun builder : Builder => builder.features) addCommand (fun _ _ => rfl),
    foldl_keeps (fun builder : Builder => builder.features) addEnumerant (fun _ _ => rfl)]

theorem features_built (api : Api) (sources : List Records)
    : (built api sources).features
      = (declaredFeatures sources).foldl (fun features new => new.addTo features) [] := by
  rw [declaredFeatures, List.foldl_flatMap]
  refine (List.foldl_hom (fun builder : Builder => builder.features)
    fun builder source => ?_).symm
  exact (Builder.features_ingest builder source).symm

/-- Features are kept in the order in which their places are first declared. -/
theorem places_built (api : Api) (sources : List Records)
    : (built api sources).features.map Feature.place
      = ((declaredFeatures sources).map Feature.place).foldl addNew [] := by
  rw [features_built, List.foldl_map]
  exact (List.foldl_hom (List.map Feature.place) fun features new =>
    (Feature.places_addTo new features).symm).symm

/-- No two features of a registry have the same place. -/
theorem nodup_places_built (api : Api) (sources : List Records)
    : ((built api sources).features.map Feature.place).Nodup := by
  rw [places_built, foldl_addNew]
  exact nodup_eraseDups _

/-- The features of a registry are what the declarations of each place make. -/
theorem mem_features_iff {api : Api} {sources : List Records} {merged : Feature}
    : merged ∈ (ofRecords api sources).features
      ↔ joinAll Feature.merge
            ((declaredFeatures sources).filter fun feature => feature.place = merged.place)
          = some merged := by
  have sorted
      : merged ∈ (ofRecords api sources).features ↔ merged ∈ (built api sources).features :=
    (List.mergeSort_perm _ _).mem_iff
  rw [sorted, mem_iff_find?_eq_some (nodup_places_built api sources), features_built, joinAll,
    foldl_follows (fun features : List Feature =>
        features.find? fun feature => feature.place = merged.place)
      (fun features new => new.addTo features) _ _
      (fun features new => Feature.find?_addTo new features merged.place)]
  rfl

/-- Every feature that a source declares is in one of the registry, with all of its blocks. -/
theorem exists_carries (api : Api) {sources : List Records} {feature : Feature}
    (declared : feature ∈ declaredFeatures sources)
    : ∃ merged ∈ (ofRecords api sources).features, merged.Carries feature := by
  have member
      : feature ∈ (declaredFeatures sources).filter fun other =>
          other.place = feature.place := by
    simpa using declared
  obtain ⟨first, rest, shape⟩ := List.exists_cons_of_ne_nil (List.ne_nil_of_mem member)
  have firstPlace : first.place = feature.place := by
    have firstMember
        : first ∈ (declaredFeatures sources).filter fun other =>
            other.place = feature.place := by
      simp [shape]
    simpa using (List.mem_filter.mp firstMember).2
  have place : (rest.foldl Feature.merge first).place = feature.place :=
    (Feature.place_foldl_merge first rest).trans firstPlace
  refine ⟨rest.foldl Feature.merge first, ?_, place, ?_⟩
  · rw [mem_features_iff, place, shape]
    exact joinAll_cons ..
  · intro block required
    rw [Feature.requires_foldl_merge, ← shape]
    exact List.mem_flatMap.mpr ⟨feature, member, required⟩

/-- A feature of the registry is what the declarations of its place make, of which there is one. -/
theorem exists_declarations_of_mem_features {api : Api} {sources : List Records}
    {merged : Feature} (member : merged ∈ (ofRecords api sources).features)
    : ∃ first rest,
        ((declaredFeatures sources).filter fun feature => feature.place = merged.place)
          = first :: rest
        ∧ rest.foldl Feature.merge first = merged := by
  rw [mem_features_iff] at member
  cases shape
        : (declaredFeatures sources).filter fun feature => feature.place = merged.place with
  | nil =>
      rw [shape] at member
      cases member
  | cons first rest =>
      rw [shape, joinAll_cons, Option.some.injEq] at member
      exact ⟨first, rest, rfl, member⟩

/-- Every block that a feature of the registry requires is required by a declared one. -/
theorem exists_declared_of_mem_requires {api : Api} {sources : List Records}
    {merged : Feature} (member : merged ∈ (ofRecords api sources).features)
    {block : InterfaceBlock} (required : block ∈ merged.requires)
    : ∃ feature ∈ declaredFeatures sources,
        feature.place = merged.place ∧ block ∈ feature.requires := by
  obtain ⟨first, rest, shape, made⟩ := exists_declarations_of_mem_features member
  rw [← made, Feature.requires_foldl_merge, ← shape] at required
  obtain ⟨feature, found, inFeature⟩ := List.mem_flatMap.mp required
  obtain ⟨declared, place⟩ := List.mem_filter.mp found
  exact ⟨feature, declared, of_decide_eq_true place, inFeature⟩

end Registry

end ApiBindings
