import ApiBindings.Proofs.Reading.Documents
import ApiBindings.Proofs.Reading.Pruning

/-! Reading for an interface is reading what is left when foreign elements are deleted.
This is so for the elements that readers pass over. Some elements are read whatever interfaces they
list, and a document that has foreign ones among these holds more than what is left without them.
-/

namespace ApiBindings.Document

open ApiBindings.Markup
open Findings

/-- The same document, read for all interfaces. -/
def Source.forAll (source : Source) : Source :=
  { source with api := none }

theorem Source.allows_forAll (source : Source) (element : Element)
    : source.forAll.allows element = true := by
  unfold allows forAll
  cases element.attribute? "api" <;> rfl

theorem Source.allows_eq {source : Source} {interface : String}
    (chosen : source.api = some interface) (element : Element)
    : source.allows element = !isForeign interface element.tag := by
  unfold allows isForeign Element.attribute?
  rw [chosen]
  cases element.tag.attribute? "api" <;> simp

variable {source : Source} {interface : String} {deletes : Place → Tag → Bool} {place : Place}
variable {element : Element}

/-- What readers pass over is what they are not allowed to read. -/
theorem skips_eq_not_allows (chosen : source.api = some interface) {name : String}
    (filtered : name ∈ place.filtered) {child : Element} (named : child.tag.name = name)
    : place.skips interface child.tag = !source.allows child := by
  rw [source.allows_eq chosen, Place.skips, named, List.contains_iff_mem.mpr filtered]
  simp

theorem skips_eq_false {name : String} (unfiltered : name ∉ place.filtered) {child : Element}
    (named : child.tag.name = name)
    : place.skips interface child.tag = false := by
  simp [Place.skips, named, unfiltered]

theorem reads_of_filtered {name : String} (filtered : name ∈ place.filtered)
    : place.reads name = true := by
  simp [Place.reads, filtered]

theorem reads_of_unfiltered {name : String} (unfiltered : name ∈ place.unfiltered)
    : place.reads name = true := by
  simp [Place.reads, unfiltered]

theorem mem_named_iff {name : String} {child : Element}
    : child ∈ element.named name ↔ child ∈ element.elements ∧ child.tag.name = name := by
  simp [Element.named, Element.name]

theorem name_pruned : (pruned deletes place element).name = element.name :=
  rfl

theorem attribute?_pruned (name : String)
    : (pruned deletes place element).attribute? name = element.attribute? name :=
  rfl

theorem fault_pruned (label : String) (problem : Problem)
    : source.forAll.fault (pruned deletes place element) label problem
      = source.fault element label problem :=
  rfl

-----------------------------------------------------------------------------------------
-- The elements of a name
-----------------------------------------------------------------------------------------

/-- Of elements that are filtered, those are left that are for the interface. -/
theorem named_pruned_filtered (chosen : source.api = some interface)
    (agrees : Agrees interface deletes place element) {name : String}
    (filtered : name ∈ place.filtered)
    : (pruned deletes place element).named name
      = ((element.named name).filter source.allows).map (pruned deletes (place.below name)) := by
  rw [named_pruned]
  refine congrArg (List.map _) (List.filter_congr fun child member => ?_)
  obtain ⟨inside, named⟩ := mem_named_iff.mp member
  rw [agrees.deletes_eq inside (named ▸ reads_of_filtered filtered),
    skips_eq_not_allows chosen filtered named, Bool.not_not]

/-- Of elements that are not filtered, all are left. -/
theorem named_pruned_unfiltered (agrees : Agrees interface deletes place element)
    {name : String} (unfiltered : name ∈ place.unfiltered) (apart : name ∉ place.filtered)
    : (pruned deletes place element).named name
      = (element.named name).map (pruned deletes (place.below name)) := by
  rw [named_pruned]
  refine congrArg (List.map _) (List.filter_eq_self.mpr fun child member => ?_)
  obtain ⟨inside, named⟩ := mem_named_iff.mp member
  rw [agrees.deletes_eq inside (named ▸ reads_of_unfiltered unfiltered),
    skips_eq_false apart named]
  rfl

theorem child?_eq_head? (element : Element) (name : String)
    : element.child? name = (element.named name).head? := by
  rw [Element.child?, Element.named, List.head?_filter]

theorem mem_named_of_child? {name : String} {child : Element}
    (found : element.child? name = some child)
    : child ∈ element.named name :=
  List.mem_of_head? (child?_eq_head? element name ▸ found)

theorem child?_pruned (agrees : Agrees interface deletes place element) {name : String}
    (unfiltered : name ∈ place.unfiltered) (apart : name ∉ place.filtered)
    : (pruned deletes place element).child? name
      = (element.child? name).map (pruned deletes (place.below name)) := by
  rw [child?_eq_head?, child?_eq_head?, named_pruned_unfiltered agrees unfiltered apart,
    List.head?_map]

/-- Deleting below the elements of a name agrees with the readers if they come to these. -/
theorem Agrees.of_mem_named (agrees : Agrees interface deletes place element) {name : String}
    (reads : place.reads name = true) {child : Element} (member : child ∈ element.named name)
    (kept : place.skips interface child.tag = false)
    : Agrees interface deletes (place.below name) child := by
  obtain ⟨inside, named⟩ := mem_named_iff.mp member
  exact named ▸ agrees.child inside (named ▸ reads) kept

theorem Agrees.of_filtered (chosen : source.api = some interface)
    (agrees : Agrees interface deletes place element) {name : String}
    (filtered : name ∈ place.filtered) {child : Element} (member : child ∈ element.named name)
    (allowed : source.allows child = true)
    : Agrees interface deletes (place.below name) child := by
  refine agrees.of_mem_named (reads_of_filtered filtered) member ?_
  rw [skips_eq_not_allows chosen filtered (mem_named_iff.mp member).2, allowed]
  rfl

theorem Agrees.of_unfiltered (agrees : Agrees interface deletes place element) {name : String}
    (unfiltered : name ∈ place.unfiltered) (apart : name ∉ place.filtered) {child : Element}
    (member : child ∈ element.named name)
    : Agrees interface deletes (place.below name) child :=
  agrees.of_mem_named (reads_of_unfiltered unfiltered) member
    (skips_eq_false apart (mem_named_iff.mp member).2)

/-- Elements that are filtered are read like those that are left of them. -/
theorem collect_named_filtered {σ : Type} {read other : σ → Element → Findings × σ}
    (chosen : source.api = some interface) (agrees : Agrees interface deletes place element)
    {name : String} (filtered : name ∈ place.filtered)
    (foreign
      : ∀ child state, source.allows child = false → read state child = ({}, state))
    (allowed
      : ∀ child state,
          source.allows child = true
          → Agrees interface deletes (place.below name) child
          → read state child = other state (pruned deletes (place.below name) child))
    (state : σ)
    : collect read state (element.named name)
      = collect other state ((pruned deletes place element).named name) := by
  rw [named_pruned_filtered chosen agrees filtered,
    collect_filter (fun child _ refused state => foreign child state refused)]
  refine collect_map (fun child member state => ?_) state
  obtain ⟨inside, allows⟩ := List.mem_filter.mp member
  exact allowed child state allows (agrees.of_filtered chosen filtered inside allows)

/-- Elements that are not filtered are read like what is left of each. -/
theorem collect_named_unfiltered {σ : Type} {read other : σ → Element → Findings × σ}
    (agrees : Agrees interface deletes place element) {name : String}
    (unfiltered : name ∈ place.unfiltered) (apart : name ∉ place.filtered)
    (same
      : ∀ child state,
          Agrees interface deletes (place.below name) child
          → read state child = other state (pruned deletes (place.below name) child))
    (state : σ)
    : collect read state (element.named name)
      = collect other state ((pruned deletes place element).named name) := by
  rw [named_pruned_unfiltered agrees unfiltered apart]
  refine collect_map (fun child member state => ?_) state
  exact same child state (agrees.of_unfiltered unfiltered apart member)

-----------------------------------------------------------------------------------------
-- Symbols
-----------------------------------------------------------------------------------------

theorem readType_pruned (allowed : source.allows element = true)
    (agrees : Agrees interface deletes .text element)
    : readType source element = readType source.forAll (pruned deletes .text element) := by
  rw [agrees.pruned_text, readType, readType, allowed, source.allows_forAll]
  rfl

/-- An enumerant is all in the tag of its element. -/
theorem readEnumerant_pruned (allowed : source.allows element = true) (place : Place)
    (blockGroup : Option String) (origin : Origin) (scope : Constant.Scope)
    : readEnumerant source blockGroup origin scope element
      = readEnumerant source.forAll blockGroup origin scope (pruned deletes place element) := by
  rw [readEnumerant, readEnumerant, allowed, source.allows_forAll]
  rfl

theorem readEnums_pruned (chosen : source.api = some interface)
    (agrees : Agrees interface deletes .enums element) (scope : Constant.Scope)
    : readEnums source scope element
      = readEnums source.forAll scope (pruned deletes .enums element) := by
  have collected (blockGroup : Option String)
      : collect (readEnumerant source blockGroup .unattributed) scope (element.named "enum")
        = collect (readEnumerant source.forAll blockGroup .unattributed) scope
            ((pruned deletes .enums element).named "enum") :=
    collect_named_filtered chosen agrees List.mem_cons_self
      (fun _ scope foreign => readEnumerant_foreign foreign _ _ scope)
      (fun _ scope allowed _ => readEnumerant_pruned allowed _ _ _ scope) scope
  rw [readEnums, collected]
  rfl

/-- The members of a group are all in the tags of their elements. -/
theorem readGroup_pruned (agrees : Agrees interface deletes .group element)
    : readGroup source element = readGroup source.forAll (pruned deletes .group element) := by
  have members
      : (pruned deletes .group element).named "enum"
        = (element.named "enum").map (pruned deletes .unread) :=
    named_pruned_unfiltered agrees List.mem_cons_self List.not_mem_nil
  unfold readGroup
  rw [members, List.filterMap_map]
  rfl

/-- The prototype and the parameters of a command are read for their texts, and its alias for its
tag.
-/
theorem readCommand_pruned (chosen : source.api = some interface)
    (allowed : source.allows element = true)
    (agrees : Agrees interface deletes .command element)
    : readCommand source element
      = readCommand source.forAll (pruned deletes .command element) := by
  have proto : (pruned deletes .command element).child? "proto" = element.child? "proto" := by
    rw [child?_pruned agrees List.mem_cons_self (by decide)]
    cases found : element.child? "proto" with
    | none => rfl
    | some proto =>
        have member := mem_named_of_child? found
        have text := agrees.of_unfiltered List.mem_cons_self (by decide) member
        exact congrArg some text.pruned_text
  have params
      : ((pruned deletes .command element).named "param").filter source.forAll.allows
        = (element.named "param").filter source.allows := by
    rw [named_pruned_filtered chosen agrees List.mem_cons_self,
      List.filter_eq_self.mpr fun child _ => source.allows_forAll child]
    refine (List.map_congr_left fun child member => ?_).trans (List.map_id _)
    obtain ⟨inside, allows⟩ := List.mem_filter.mp member
    have text := agrees.of_filtered chosen List.mem_cons_self inside allows
    exact text.pruned_text
  have otherName
      : ((pruned deletes .command element).child? "alias").bind
          (fun other => other.attribute? "name")
        = (element.child? "alias").bind fun other => other.attribute? "name" := by
    rw [child?_pruned agrees (List.mem_cons_of_mem _ List.mem_cons_self) (by decide),
      Option.bind_map]
    rfl
  unfold readCommand
  rw [allowed, source.allows_forAll, proto, params, otherName]
  rfl

-----------------------------------------------------------------------------------------
-- Features and extensions
-----------------------------------------------------------------------------------------

/-- Of the elements of filtered names, those are left that are for the interface. -/
theorem elements_pruned_filtered (chosen : source.api = some interface)
    (agrees : Agrees interface deletes place element) {names : List String} {inner : Place}
    (known : ∀ name ∈ names, name ∈ place.filtered ∧ place.below name = inner)
    : ((pruned deletes place element).elements.filter fun child =>
          names.contains child.name && source.forAll.allows child)
      = (element.elements.filter fun child =>
          names.contains child.name && source.allows child).map (pruned deletes inner) := by
  rw [elements_pruned, List.filter_map, List.filter_filter]
  have same
      : (element.elements.filter fun child =>
            ((fun child => names.contains child.name && source.forAll.allows child)
              ∘ fun child => pruned deletes (place.below child.name) child) child
            && !deletes place child.tag)
        = element.elements.filter fun child =>
            names.contains child.name && source.allows child := by
    refine List.filter_congr fun child member => ?_
    change (names.contains child.name && source.forAll.allows _ && !deletes place child.tag) = _
    rw [source.allows_forAll, Bool.and_true]
    cases contained : names.contains child.name with
    | false => rfl
    | true =>
        have named := (known _ (List.contains_iff_mem.mp contained)).1
        rw [agrees.deletes_eq member (reads_of_filtered named),
          skips_eq_not_allows chosen named rfl, Bool.not_not]
  rw [same]
  refine List.map_congr_left fun child member => ?_
  have named := (Bool.and_eq_true_iff.mp (List.mem_filter.mp member).2).1
  rw [(known child.name (List.contains_iff_mem.mp named)).2]

theorem blockItems_eq (source : Source) (block : Element)
    : blockItems source block
      = block.elements.filter fun item =>
          ["enum", "command", "type"].contains item.name && source.allows item := by
  refine List.filter_congr fun item _ => ?_
  simp only [List.contains_cons, List.contains_nil, Bool.or_false, Bool.or_assoc]

theorem blockItems_pruned (chosen : source.api = some interface)
    (agrees : Agrees interface deletes .block element)
    : blockItems source.forAll (pruned deletes .block element)
      = (blockItems source element).map (pruned deletes .unread) := by
  rw [blockItems_eq, blockItems_eq]
  exact elements_pruned_filtered chosen agrees fun _ member => ⟨member, rfl⟩

/-- A block names its items by their tags. -/
theorem readBlock_pruned (chosen : source.api = some interface)
    (agrees : Agrees interface deletes .block element)
    : readBlock source element = readBlock source.forAll (pruned deletes .block element) := by
  have same (kind : String)
      : references source.forAll (pruned deletes .block element) kind
        = references source element kind := by
    unfold references
    rw [blockItems_pruned chosen agrees, List.filter_map, List.filterMap_map]
    rfl
  unfold readBlock
  rw [same, same, same]
  rfl

theorem readItems_pruned (chosen : source.api = some interface)
    (agrees : Agrees interface deletes .block element) (origin : Origin)
    (scope : Constant.Scope)
    : readItems source origin scope element
      = readItems source.forAll origin scope (pruned deletes .block element) := by
  unfold readItems
  rw [blockItems_pruned chosen agrees]
  refine collect_map (fun item member scope => ?_) scope
  have allowed := (Bool.and_eq_true_iff.mp (List.mem_filter.mp member).2).2
  unfold readItem
  rw [readEnumerant_pruned allowed .unread]
  rfl

section

variable {kinds : List String}

theorem blocks_pruned (chosen : source.api = some interface)
    (agrees : Agrees interface deletes place element)
    (known : ∀ kind ∈ kinds, kind ∈ place.filtered ∧ place.below kind = .block)
    : blocks source.forAll (pruned deletes place element) kinds
      = (blocks source element kinds).map (pruned deletes .block) :=
  elements_pruned_filtered chosen agrees known

theorem Agrees.of_mem_blocks (chosen : source.api = some interface)
    (agrees : Agrees interface deletes place element)
    (known : ∀ kind ∈ kinds, kind ∈ place.filtered ∧ place.below kind = .block)
    {block : Element} (member : block ∈ blocks source element kinds)
    : Agrees interface deletes .block block := by
  obtain ⟨inside, kept⟩ := List.mem_filter.mp member
  obtain ⟨kind, allowed⟩ := Bool.and_eq_true_iff.mp kept
  obtain ⟨filtered, below⟩ := known block.name (List.contains_iff_mem.mp kind)
  exact below ▸ agrees.of_filtered chosen filtered (mem_named_iff.mpr ⟨inside, rfl⟩) allowed

theorem map_readBlock_pruned (chosen : source.api = some interface)
    (agrees : Agrees interface deletes place element)
    (known : ∀ kind ∈ kinds, kind ∈ place.filtered ∧ place.below kind = .block)
    : (blocks source element kinds).map (readBlock source)
      = (blocks source.forAll (pruned deletes place element) kinds).map
          (readBlock source.forAll) := by
  rw [blocks_pruned chosen agrees known, List.map_map]
  refine List.map_congr_left fun block member => ?_
  exact readBlock_pruned chosen (agrees.of_mem_blocks chosen known member)

theorem collect_readItems_pruned (chosen : source.api = some interface)
    (agrees : Agrees interface deletes place element)
    (known : ∀ kind ∈ kinds, kind ∈ place.filtered ∧ place.below kind = .block)
    (origin : Origin) (scope : Constant.Scope)
    : collect (readItems source origin) scope (blocks source element kinds)
      = collect (readItems source.forAll origin) scope
          (blocks source.forAll (pruned deletes place element) kinds) := by
  rw [blocks_pruned chosen agrees known]
  refine collect_map (fun block member scope => ?_) scope
  exact readItems_pruned chosen (agrees.of_mem_blocks chosen known member) origin scope

end

theorem readFeature_pruned (chosen : source.api = some interface)
    (allowed : source.allows element = true)
    (agrees : Agrees interface deletes .feature element) (scope : Constant.Scope)
    : readFeature source scope element
      = readFeature source.forAll scope (pruned deletes .feature element) := by
  have items (origin : Origin)
      : collect (readItems source origin) scope (blocks source element ["require", "remove"])
        = collect (readItems source.forAll origin) scope
            (blocks source.forAll (pruned deletes .feature element) ["require", "remove"]) :=
    collect_readItems_pruned chosen agrees (by decide) origin scope
  unfold readFeature
  rw [allowed, source.allows_forAll, map_readBlock_pruned chosen agrees (by decide),
    map_readBlock_pruned chosen agrees (by decide)]
  simp only [items, attribute?_pruned, fault_pruned]

/-- An extension is read whatever interfaces it lists. -/
theorem readExtension_pruned (chosen : source.api = some interface)
    (agrees : Agrees interface deletes .extension element) (scope : Constant.Scope)
    : readExtension source scope element
      = readExtension source.forAll scope (pruned deletes .extension element) := by
  have items (origin : Origin)
      : collect (readItems source origin) scope (blocks source element ["require"])
        = collect (readItems source.forAll origin) scope
            (blocks source.forAll (pruned deletes .extension element) ["require"]) :=
    collect_readItems_pruned chosen agrees (by decide) origin scope
  have requires
      : (blocks source element ["require"]).map (readBlock source)
        = (blocks source.forAll (pruned deletes .extension element) ["require"]).map
            (readBlock source.forAll) :=
    map_readBlock_pruned chosen agrees (by decide)
  unfold readExtension
  simp only [items, requires]
  rfl

-----------------------------------------------------------------------------------------
-- Registries
-----------------------------------------------------------------------------------------

/-- Elements that are filtered are read apart like those that are left of them. -/
theorem join_named_filtered {read other : Element → Findings}
    (chosen : source.api = some interface) (agrees : Agrees interface deletes place element)
    {name : String} (filtered : name ∈ place.filtered)
    (foreign : ∀ child, source.allows child = false → read child = {})
    (allowed
      : ∀ child,
          source.allows child = true
          → Agrees interface deletes (place.below name) child
          → read child = other (pruned deletes (place.below name) child))
    : join ((element.named name).map read)
      = join (((pruned deletes place element).named name).map other) := by
  rw [join_map_eq_collect, join_map_eq_collect]
  refine congrArg Prod.fst (collect_named_filtered chosen agrees filtered ?_ ?_ ())
  · exact fun child _ refused => congrArg (·, ()) (foreign child refused)
  · exact fun child _ allows inner => congrArg (·, ()) (allowed child allows inner)

theorem join_named_unfiltered {read other : Element → Findings}
    (agrees : Agrees interface deletes place element) {name : String}
    (unfiltered : name ∈ place.unfiltered) (apart : name ∉ place.filtered)
    (same
      : ∀ child,
          Agrees interface deletes (place.below name) child
          → read child = other (pruned deletes (place.below name) child))
    : join ((element.named name).map read)
      = join (((pruned deletes place element).named name).map other) := by
  rw [join_map_eq_collect, join_map_eq_collect]
  refine congrArg Prod.fst (collect_named_unfiltered agrees unfiltered apart ?_ ())
  exact fun child _ inner => congrArg (·, ()) (same child inner)

/-- A section that readers do not know holds nothing. -/
theorem readSection_unread (unread : Place.registry.reads element.name = false)
    (scope : Constant.Scope)
    : readSection source scope element = ({}, scope) := by
  have apart (name : String) (known : Place.registry.reads name = true) : element.name ≠ name := by
    rintro rfl
    exact Bool.noConfusion (known.symm.trans unread)
  rw [readSection, if_neg (apart "types" rfl), if_neg (apart "enums" rfl),
    if_neg (apart "groups" rfl), if_neg (apart "commands" rfl), if_neg (apart "feature" rfl),
    if_neg (apart "extensions" rfl)]

/-- Of the sections that readers know, only features are passed over. -/
theorem readSection_foreign (chosen : source.api = some interface)
    (skipped : Place.registry.skips interface element.tag = true) (scope : Constant.Scope)
    : readSection source scope element = ({}, scope) := by
  have filtered := (Bool.and_eq_true_iff.mp skipped).1
  have feature : element.name = "feature" :=
    List.mem_singleton.mp (List.contains_iff_mem.mp filtered)
  rw [skips_eq_not_allows chosen List.mem_cons_self feature] at skipped
  rw [readSection, feature]
  exact readFeature_foreign (by simpa using skipped) scope

/-- A section that is deleted holds nothing for the interface. -/
theorem readSection_deleted (chosen : source.api = some interface)
    (agrees : Agrees interface deletes .registry element) {child : Element}
    (member : child ∈ element.elements) (deleted : deletes .registry child.tag = true)
    (scope : Constant.Scope)
    : readSection source scope child = ({}, scope) := by
  cases reads : Place.registry.reads child.name with
  | false => exact readSection_unread reads scope
  | true =>
      rw [agrees.deletes_eq member reads] at deleted
      exact readSection_foreign chosen deleted scope

/-- A section that is not deleted is read like what is left of it. -/
theorem readSection_pruned (chosen : source.api = some interface)
    (agrees : Agrees interface deletes .registry element) {child : Element}
    (member : child ∈ element.elements) (kept : deletes .registry child.tag = false)
    (scope : Constant.Scope)
    : readSection source scope child
      = readSection source.forAll scope
          (pruned deletes (Place.registry.below child.name) child) := by
  cases reads : Place.registry.reads child.name with
  | false =>
      rw [readSection_unread reads, readSection_unread]
      rwa [name_pruned]
  | true =>
      rw [agrees.deletes_eq member reads] at kept
      have inner : Agrees interface deletes (Place.registry.below child.name) child :=
        agrees.child member reads kept
      unfold readSection
      rw [name_pruned]
      -- The name of a section decides on its place, and the place on what is filtered in it.
      split_ifs with types enums groups commands feature extensions
      · rw [types] at inner ⊢
        refine congrArg (·, scope) (join_named_filtered chosen inner List.mem_cons_self ?_ ?_)
        · exact fun _ foreign => readType_foreign foreign
        · exact fun _ allowed text => readType_pruned allowed text
      · rw [enums] at inner ⊢
        exact readEnums_pruned chosen inner scope
      · rw [groups] at inner ⊢
        refine congrArg (·, scope)
          (join_named_unfiltered inner List.mem_cons_self List.not_mem_nil ?_)
        exact fun _ agrees => readGroup_pruned agrees
      · rw [commands] at inner ⊢
        refine congrArg (·, scope) (join_named_filtered chosen inner List.mem_cons_self ?_ ?_)
        · exact fun _ foreign => readCommand_foreign foreign
        · exact fun _ allowed agrees => readCommand_pruned chosen allowed agrees
      · rw [feature] at inner ⊢
        rw [skips_eq_not_allows chosen List.mem_cons_self feature] at kept
        exact readFeature_pruned chosen (by simpa using kept) inner scope
      · rw [extensions] at inner ⊢
        refine collect_named_unfiltered inner List.mem_cons_self List.not_mem_nil ?_ scope
        exact fun _ scope agrees => readExtension_pruned chosen agrees scope
      · rfl

/-- Every section is read like what is left of it. -/
theorem readRegistry_pruned (chosen : source.api = some interface)
    (agrees : Agrees interface deletes .registry element)
    : readRegistry source element
      = readRegistry source.forAll (pruned deletes .registry element) := by
  have kept
      : collect (readSection source) Constant.Scope.initial element.elements
        = collect (readSection source) Constant.Scope.initial
            (element.elements.filter fun child => !deletes .registry child.tag) := by
    refine collect_filter (fun child member deleted => ?_) _
    exact readSection_deleted chosen agrees member (by simpa using deleted)
  unfold readRegistry
  rw [elements_pruned, kept]
  refine congrArg Prod.fst (collect_map (fun child member scope => ?_) _)
  obtain ⟨inside, left⟩ := List.mem_filter.mp member
  exact readSection_pruned chosen agrees inside (by simpa using left) scope

theorem readTree_pruned (chosen : source.api = some interface)
    (agrees : Agrees interface deletes .document element)
    : readTree source element = readTree source.forAll (pruned deletes .document element) := by
  unfold readTree
  rw [child?_pruned agrees List.mem_cons_self List.not_mem_nil]
  cases found : element.child? "registry" with
  | none => rfl
  | some registry =>
      have member := mem_named_of_child? found
      have inner := agrees.of_unfiltered List.mem_cons_self List.not_mem_nil member
      exact readRegistry_pruned chosen inner

theorem records_pruned (chosen : source.api = some interface)
    (agrees : Agrees interface deletes .document element) (fault : Option Nat)
    : records source fault element
      = records source.forAll fault (pruned deletes .document element) := by
  rw [records, records, readTree_pruned chosen agrees]
  rfl

/-- Nothing is passed over outside of a registry. -/
theorem filtered_eq_nil (outer : place.isInRegistry = false) : place.filtered = [] := by
  cases place with
  | document | outside => rfl
  | _ => exact Bool.noConfusion outer

/-- Foreign elements that are all at places where they are filtered are those passed over. -/
theorem isForeign_eq_skips {tag : Tag}
    (filtered : place.isForeign interface tag = true → tag.name ∈ place.filtered)
    : place.isForeign interface tag = place.skips interface tag := by
  unfold Place.isForeign at filtered ⊢
  unfold Place.skips
  cases foreign : isForeign interface tag with
  | false => rw [Bool.and_false, Bool.and_false]
  | true =>
      rw [foreign, Bool.and_true] at filtered
      rw [Bool.and_true, Bool.and_true]
      cases inside : place.isInRegistry with
      | false => rw [filtered_eq_nil inside, List.contains_nil]
      | true => exact (List.contains_iff_mem.mpr (filtered inside)).symm

/-- Reading a document for an interface is reading what is left when the elements that readers pass
over are deleted. These are all foreign elements if readers come to no other ones that are foreign.
-/
theorem records_filtered (name interface : String) (fault : Option Nat) (document : Element)
    : let found := records { name, api := some interface } fault document
      let left (deletes : Place → Tag → Bool) :=
        records { name, api := none } fault (pruned deletes .document document)
      found = left (Place.skips interface)
      ∧ ((∀ visit ∈ visited interface .document document,
            visit.1.isForeign interface visit.2 = true → visit.2.name ∈ visit.1.filtered)
          → found = left (Place.isForeign interface)) := by
  refine ⟨records_pruned rfl (fun _ _ => rfl) fault, fun filtered => ?_⟩
  refine records_pruned rfl (fun visit member => ?_) fault
  exact isForeign_eq_skips (filtered visit member)

/-- An enumerant of another interface before one of all interfaces. -/
def foreignEnumerant : Element where
  tag := { name := "#document", attributes := [], line := 0 }
  children := [
    .element { name := "registry", attributes := [], line := 1 } [
      .element { name := "enums", attributes := [("group", "Sizes")], line := 2 } [
        .element {
          name := "enum"
          attributes := [("name", "SIZE"), ("bitpos", "1"), ("api", "gles1 | gles2")]
          line := 3
        } [],
        .element {
          name := "enum"
          attributes := [("name", "SIZE"), ("bitpos", "2")]
          line := 4
        } []
      ]
    ]
  ]

theorem foreignEnumerant_filtered
    : let found := records { name := "gl.xml", api := some "gl" } none foreignEnumerant
      (∀ visit ∈ visited "gl" .document foreignEnumerant,
          visit.1.isForeign "gl" visit.2 = true → visit.2.name ∈ visit.1.filtered)
      ∧ found
        = records { name := "gl.xml", api := none } none
            (pruned (Place.isForeign "gl") .document foreignEnumerant)
      ∧ found.enums.map (fun enumerant => enumerant.value.bits) = [4] := by
  have filtered
      : ∀ visit ∈ visited "gl" .document foreignEnumerant,
          visit.1.isForeign "gl" visit.2 = true → visit.2.name ∈ visit.1.filtered := by
    decide
  exact ⟨filtered, (records_filtered "gl.xml" "gl" none foreignEnumerant).2 filtered, by decide⟩

/-- An extension of another interface. -/
def foreignExtension : Element where
  tag := { name := "#document", attributes := [], line := 0 }
  children := [
    .element { name := "registry", attributes := [], line := 1 } [
      .element { name := "extensions", attributes := [], line := 1 } [
        .element {
          name := "extension"
          attributes := [("name", "GL_EXT_foo"), ("api", "gles2")]
          line := 1
        } []
      ]
    ]
  ]

/-- The extension is read for an interface that it does not list. -/
theorem foreignExtension_not_filtered
    : let found := records { name := "gl.xml", api := some "gl" } none foreignExtension
      found.extensions.map Extension.name = ["GL_EXT_foo"]
      ∧ found
        ≠ records { name := "gl.xml", api := none } none
            (pruned (Place.isForeign "gl") .document foreignExtension) := by
  decide

end ApiBindings.Document
