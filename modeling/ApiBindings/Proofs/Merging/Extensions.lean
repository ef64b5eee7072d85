import ApiBindings.Profile
import ApiBindings.Proofs.Merging.Accounts

/-! What merging makes of the declarations of one extension, and which profiles take it.
The interfaces that declarations list are put together. A declaration that lists none stands for
all interfaces, but it adds nothing to those that others list, and so it can be lost among them.
-/

namespace ApiBindings

namespace Extension

-----------------------------------------------------------------------------------------
-- The extension that declarations make
-----------------------------------------------------------------------------------------

theorem name_foldl_merge (first : Extension) (rest : List Extension)
    : (rest.foldl merge first).name = first.name := by
  induction rest generalizing first with
  | nil => rfl
  | cons next rest ih => exact ih (first.merge next)

theorem requires_foldl_merge (first : Extension) (rest : List Extension)
    : (rest.foldl merge first).requires
      = (first :: rest).flatMap fun declared => declared.requires := by
  induction rest generalizing first with
  | nil => simp
  | cons next rest ih =>
      rw [List.foldl_cons, ih]
      simp [merge]

theorem mem_supported_merge {old new : Extension} {api : String}
    : api ∈ (old.merge new).supported ↔ api ∈ old.supported ∨ api ∈ new.supported := by
  unfold merge
  dsimp only
  generalize old.supported = listed
  induction new.supported generalizing listed with
  | nil => simp
  | cons next rest ih =>
      rw [List.foldl_cons, ih, List.mem_cons, ← or_assoc]
      refine or_congr_left ?_
      split
      · rename_i known
        rw [List.contains_eq_mem, decide_eq_true_eq] at known
        exact ⟨Or.inl, fun listed => listed.elim id fun same => same ▸ known⟩
      · rw [List.mem_append, List.mem_singleton]

/-- Declarations list together what each of them lists, by induction on those behind the first. -/
theorem mem_supported_foldl_merge {first : Extension} {rest : List Extension} {api : String}
    : api ∈ (rest.foldl merge first).supported
      ↔ ∃ declared ∈ first :: rest, api ∈ declared.supported := by
  induction rest generalizing first with
  | nil => simp
  | cons next rest ih =>
      rw [List.foldl_cons, ih]
      simp only [List.exists_mem_cons_iff, mem_supported_merge, or_assoc]

theorem supported_foldl_merge_eq_nil_iff {first : Extension} {rest : List Extension}
    : (rest.foldl merge first).supported = []
      ↔ ∀ declared ∈ first :: rest, declared.supported = [] := by
  simp only [List.eq_nil_iff_forall_not_mem, mem_supported_foldl_merge, not_exists, not_and]
  exact ⟨fun none declared member api => none api declared member,
    fun none api declared member => none declared member api⟩

end Extension

-----------------------------------------------------------------------------------------
-- Extensions that a profile takes
-----------------------------------------------------------------------------------------

namespace Profile

/-- Whether an interface that an extension lists is that of the profile. -/
def isFor (profile : Profile) (listed : String) : Bool :=
  profile.api.any fun api =>
    listed == api || (listed == "glcore" && api == "gl" && profile.profile == some "core")

theorem isSupported_iff {profile : Profile} {extension : Extension}
    : profile.isSupported extension = true
      ↔ profile.api = none
        ∨ extension.supported = []
        ∨ ∃ listed ∈ extension.supported, profile.isFor listed = true := by
  unfold isSupported isFor
  cases profile.api with
  | none => simp
  | some api => simp

theorem takesExtension_iff {profile : Profile} {extension : Extension}
    : profile.takesExtension extension = true
      ↔ profile.lists extension = true ∧ profile.isSupported extension = true := by
  rw [takesExtension, Bool.and_eq_true]

/-- A profile goes by the name when it lists an extension. -/
theorem lists_congr (profile : Profile) {one other : Extension} (same : one.name = other.name)
    : profile.lists one = profile.lists other := by
  unfold lists
  rw [same]

/-- A declaration for all interfaces is lost: others list interfaces, and the profile takes none of
these.
-/
structure Narrows (profile : Profile) (declarations : List Extension) : Prop where
  lost
    : ∃ declared ∈ declarations,
        declared.supported = [] ∧ profile.takesExtension declared = true
  listing : ∃ declared ∈ declarations, declared.supported ≠ []
  refused
    : ∀ declared ∈ declarations,
        declared.supported ≠ [] → profile.takesExtension declared = false

/-- What declarations make is there for a profile if one that lists interfaces is, or if none lists
any.
-/
theorem isSupported_foldl_merge_iff {profile : Profile} {first : Extension}
    {rest : List Extension}
    : profile.isSupported (rest.foldl Extension.merge first) = true
      ↔ (∃ declared ∈ first :: rest,
            declared.supported ≠ [] ∧ profile.isSupported declared = true)
        ∨ ∀ declared ∈ first :: rest, declared.supported = [] := by
  rw [isSupported_iff, Extension.supported_foldl_merge_eq_nil_iff]
  constructor
  · rintro (anyApi | none | ⟨api, member, isFor⟩)
    · by_cases none : ∀ declared ∈ first :: rest, declared.supported = []
      · exact Or.inr none
      · simp only [not_forall] at none
        obtain ⟨declared, member, listing⟩ := none
        exact Or.inl ⟨declared, member, listing, isSupported_iff.mpr (Or.inl anyApi)⟩
    · exact Or.inr none
    · obtain ⟨declared, declaredMember, listed⟩ :=
        Extension.mem_supported_foldl_merge.mp member
      refine Or.inl ⟨declared, declaredMember, List.ne_nil_of_mem listed, ?_⟩
      exact isSupported_iff.mpr (Or.inr (Or.inr ⟨api, listed, isFor⟩))
  · rintro (⟨declared, member, listing, supported⟩ | none)
    · rcases isSupported_iff.mp supported with anyApi | empty | ⟨api, listed, isFor⟩
      · exact Or.inl anyApi
      · exact absurd empty listing
      · refine Or.inr (Or.inr ⟨api, ?_, isFor⟩)
        exact Extension.mem_supported_foldl_merge.mpr ⟨declared, member, listed⟩
    · exact Or.inr (Or.inl none)

/-- What declarations make is taken if one of them is that lists interfaces, or if none lists any
and one of them is taken.
-/
theorem takesExtension_foldl_merge_iff {profile : Profile} {first : Extension}
    {rest : List Extension}
    (named : ∀ declared ∈ first :: rest, declared.name = first.name)
    : profile.takesExtension (rest.foldl Extension.merge first) = true
      ↔ (∃ declared ∈ first :: rest,
            declared.supported ≠ [] ∧ profile.takesExtension declared = true)
        ∨ (∀ declared ∈ first :: rest, declared.supported = [])
            ∧ ∃ declared ∈ first :: rest, profile.takesExtension declared = true := by
  have lists {declared : Extension} (member : declared ∈ first :: rest)
      : profile.lists (rest.foldl Extension.merge first) = profile.lists declared :=
    profile.lists_congr ((Extension.name_foldl_merge first rest).trans
      (named declared member).symm)
  rw [takesExtension_iff, isSupported_foldl_merge_iff]
  constructor
  · rintro ⟨listed, ⟨declared, member, listing, supported⟩ | none⟩
    · refine Or.inl ⟨declared, member, listing, ?_⟩
      exact takesExtension_iff.mpr ⟨(lists member).symm.trans listed, supported⟩
    · have supported : profile.isSupported first = true :=
        isSupported_iff.mpr (Or.inr (Or.inl (none first List.mem_cons_self)))
      refine Or.inr ⟨none, first, List.mem_cons_self, ?_⟩
      exact takesExtension_iff.mpr ⟨(lists List.mem_cons_self).symm.trans listed, supported⟩
  · rintro (⟨declared, member, listing, taken⟩ | ⟨none, declared, member, taken⟩)
    · obtain ⟨listed, supported⟩ := takesExtension_iff.mp taken
      exact ⟨(lists member).trans listed, Or.inl ⟨declared, member, listing, supported⟩⟩
    · obtain ⟨listed, -⟩ := takesExtension_iff.mp taken
      exact ⟨(lists member).trans listed, Or.inr none⟩

/-- What declarations make is taken exactly if one of them is and they are not narrowed. -/
theorem takesExtension_foldl_merge_iff_not_narrows {profile : Profile} {first : Extension}
    {rest : List Extension}
    (named : ∀ declared ∈ first :: rest, declared.name = first.name)
    : profile.takesExtension (rest.foldl Extension.merge first) = true
      ↔ (∃ declared ∈ first :: rest, profile.takesExtension declared = true)
        ∧ ¬ profile.Narrows (first :: rest) := by
  rw [takesExtension_foldl_merge_iff named]
  constructor
  · rintro (⟨declared, member, listing, taken⟩ | ⟨none, declared, member, taken⟩)
    · refine ⟨⟨declared, member, taken⟩, fun narrows => ?_⟩
      exact Bool.false_ne_true ((narrows.refused declared member listing).symm.trans taken)
    · refine ⟨⟨declared, member, taken⟩, fun narrows => ?_⟩
      obtain ⟨other, otherMember, listing⟩ := narrows.listing
      exact listing (none other otherMember)
  · rintro ⟨⟨declared, member, taken⟩, kept⟩
    by_contra refused
    obtain ⟨noneListing, someListing⟩ := not_or.mp refused
    refine kept {
      lost := ⟨declared, member, ?_, taken⟩
      listing := ?_
      refused := ?_
    }
    · by_contra listing
      exact noneListing ⟨declared, member, listing, taken⟩
    · by_contra none
      simp only [not_exists, not_and, not_not] at none
      exact someListing ⟨none, declared, member, taken⟩
    · intro other otherMember listing
      by_contra otherTaken
      exact noneListing ⟨other, otherMember, listing, by simpa using otherTaken⟩

end Profile

-----------------------------------------------------------------------------------------
-- Extensions in a registry
-----------------------------------------------------------------------------------------

/-- The declarations of one extension, in the order in which they are ingested. -/
def extensionDeclarations (sources : List Records) (name : String) : List Extension :=
  (sources.flatMap fun source => source.extensions).filter fun extension =>
    extension.name = name

theorem name_of_mem_extensionDeclarations (sources : List Records) (name : String)
    : ∀ declared ∈ extensionDeclarations sources name, declared.name = name := by
  intro declared member
  simpa using (List.mem_filter.mp member).2

namespace Registry

theorem Builder.find?_extensions_addExtension (name : String) (builder : Builder)
    (new : Extension)
    : (builder.addExtension new).extensions.find? name
      = if decide (new.name = name) then
          joined Extension.merge (builder.extensions.find? name) new
        else
          builder.extensions.find? name := by
  unfold addExtension
  by_cases same : new.name = name
  · subst same
    rw [if_pos (decide_eq_true rfl)]
    exact Table.find?_upsert_self ..
  · rw [if_neg (by simpa using same)]
    exact Table.find?_upsert_of_ne _ _ (Ne.symm same)

/-- A source moves an extension by its declarations of that name, and by nothing else. -/
theorem Builder.find?_extensions_ingest (name : String) (builder : Builder)
    (records : Records)
    : (builder.ingest records).extensions.find? name
      = (records.extensions.filter fun new => new.name = name).foldl (joined Extension.merge)
          (builder.extensions.find? name) := by
  unfold ingest
  dsimp only
  rw [foldl_follows (fun builder : Builder => builder.extensions.find? name) addExtension _ _
      (find?_extensions_addExtension name),
    foldl_keeps (fun builder : Builder => builder.extensions.find? name) addFeature
      (fun _ _ => rfl),
    foldl_keeps (fun builder : Builder => builder.extensions.find? name) addType
      (fun _ _ => rfl),
    foldl_keeps (fun builder : Builder => builder.extensions.find? name) addCommand
      (fun _ _ => rfl),
    foldl_keeps (fun builder : Builder => builder.extensions.find? name) addEnumerant
      (fun _ _ => rfl)]

/-- The extension of a registry is what its declarations make. -/
theorem find?_extensions (api : Api) (sources : List Records) (name : String)
    : (ofRecords api sources).extensions.find? name
      = joinAll Extension.merge (extensionDeclarations sources name) := by
  rw [extensionDeclarations, List.filter_flatMap, joinAll, List.foldl_flatMap]
  refine (List.foldl_hom (fun builder : Builder => builder.extensions.find? name)
    fun builder source => ?_).symm
  exact (Builder.find?_extensions_ingest name builder source).symm

/-- An extension of the registry is what the declarations of its name make. -/
theorem mem_extensions_iff {api : Api} {sources : List Records} {merged : Extension}
    : merged ∈ (ofRecords api sources).extensions.values
      ↔ ∃ first rest,
          extensionDeclarations sources merged.name = first :: rest
          ∧ rest.foldl Extension.merge first = merged := by
  have found {name : String} {extension : Extension}
      : (name, extension) ∈ (ofRecords api sources).extensions.entries
        ↔ ∃ first rest,
            extensionDeclarations sources name = first :: rest
            ∧ rest.foldl Extension.merge first = extension := by
    rw [Table.mem_entries_iff, find?_extensions]
    cases extensionDeclarations sources name with
    | nil => simp [joinAll]
    | cons first rest => simp [joinAll_cons]
  constructor
  · intro member
    obtain ⟨⟨name, extension⟩, entry, rfl⟩ := List.mem_map.mp member
    obtain ⟨first, rest, shape, rfl⟩ := found.mp entry
    have firstName : first.name = name :=
      name_of_mem_extensionDeclarations sources name first (shape ▸ List.mem_cons_self)
    refine ⟨first, rest, ?_, rfl⟩
    rw [Extension.name_foldl_merge, firstName, shape]
  · intro made
    exact List.mem_map.mpr ⟨_, found.mpr made, rfl⟩

/-- Every extension that a source declares is in one of the registry, with all of its blocks. -/
theorem exists_extends (api : Api) {sources : List Records} {extension : Extension}
    (declared : extension ∈ extensionDeclarations sources extension.name)
    : ∃ merged ∈ (ofRecords api sources).extensions.values,
        merged.name = extension.name ∧ extension.requires ⊆ merged.requires := by
  obtain ⟨first, rest, shape⟩ := List.exists_cons_of_ne_nil (List.ne_nil_of_mem declared)
  have firstName : first.name = extension.name :=
    name_of_mem_extensionDeclarations sources extension.name first (shape ▸ List.mem_cons_self)
  have name : (rest.foldl Extension.merge first).name = extension.name :=
    (Extension.name_foldl_merge first rest).trans firstName
  refine ⟨rest.foldl Extension.merge first, ?_, name, ?_⟩
  · exact mem_extensions_iff.mpr ⟨first, rest, name ▸ shape, rfl⟩
  · intro block required
    rw [Extension.requires_foldl_merge, ← shape]
    exact List.mem_flatMap.mpr ⟨extension, declared, required⟩

/-- A profile takes an extension exactly if it takes a declaration of it and does not narrow them.
-/
theorem takesExtension_merged_iff (api : Api) (sources : List Records) (name : String)
    (profile : Profile)
    : (∃ merged ∈ (ofRecords api sources).extensions.find? name,
          profile.takesExtension merged = true)
      ↔ (∃ declared ∈ extensionDeclarations sources name,
            profile.takesExtension declared = true)
        ∧ ¬ profile.Narrows (extensionDeclarations sources name) := by
  have named := name_of_mem_extensionDeclarations sources name
  rw [find?_extensions]
  cases declarations : extensionDeclarations sources name with
  | nil => simp [joinAll]
  | cons first rest =>
      rw [declarations] at named
      have sameName : ∀ declared ∈ first :: rest, declared.name = first.name := by
        intro declared member
        exact (named declared member).trans (named first List.mem_cons_self).symm
      rw [joinAll_cons]
      simp only [Option.mem_some_iff, exists_eq_left']
      exact Profile.takesExtension_foldl_merge_iff_not_narrows sameName

/-- A header declares an extension for all interfaces, and then a document lists one. -/
def headerThenDocument : List Records :=
  [
    {
      source := "gl.h"
      extensions := [{ name := "GL_EXT_foo", supported := [], requires := [] }]
    },
    {
      source := "gl.xml"
      extensions := [{ name := "GL_EXT_foo", supported := ["gles2"], requires := [] }]
    }
  ]

/-- The desktop profile takes the declaration of the header, and not what both make. -/
theorem headerThenDocument_narrowed
    : ¬ ((∃ merged ∈ (ofRecords .gl headerThenDocument).extensions.find? "GL_EXT_foo",
              (Profile.forApi .gl).takesExtension merged = true)
          ↔ ∃ declared ∈ extensionDeclarations headerThenDocument "GL_EXT_foo",
              (Profile.forApi .gl).takesExtension declared = true) := by
  decide

end Registry

end ApiBindings
