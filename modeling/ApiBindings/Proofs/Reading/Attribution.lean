import ApiBindings.Proofs.Reading.Accounting
import ApiBindings.Proofs.Reading.Features
import ApiBindings.Proofs.Reading.Truncation

/-! Who a document attributes its symbols to.
A symbol that is defined inside a feature or an extension belongs to it. Any other one is attributed
once everything has been read: to the first feature that requires it or, if no feature does, to the
first extension. So it does not matter where in the document a symbol is defined.
-/

namespace ApiBindings

/-- A name is among those that some of the blocks list. -/
def RequiredIn (names : InterfaceBlock → List String) (name : String)
    (blocks : List InterfaceBlock)
    : Prop :=
  ∃ block ∈ blocks, name ∈ names block

/-- The origin that a name has by those who require it, the first of whom counts. Features come
before extensions, and nobody need require the name.
-/
inductive AttributedTo (features : List Feature) (extensions : List Extension)
    (names : InterfaceBlock → List String) (name : String) : Origin → Prop
  | feature (front : List Feature) (feature : Feature) (back : List Feature)
    (split : features = front ++ feature :: back)
    (requires : RequiredIn names name feature.requires)
    (first : ∀ earlier ∈ front, ¬ RequiredIn names name earlier.requires)
    : AttributedTo features extensions names name
        (.feature feature.api feature.name feature.number)
  | extension (front : List Extension) (extension : Extension) (back : List Extension)
    (featureless : ∀ feature ∈ features, ¬ RequiredIn names name feature.requires)
    (split : extensions = front ++ extension :: back)
    (requires : RequiredIn names name extension.requires)
    (first : ∀ earlier ∈ front, ¬ RequiredIn names name earlier.requires)
    : AttributedTo features extensions names name (.extension extension.name)
  | nobody (featureless : ∀ feature ∈ features, ¬ RequiredIn names name feature.requires)
    (extensionless : ∀ extension ∈ extensions, ¬ RequiredIn names name extension.requires)
    : AttributedTo features extensions names name .unattributed

namespace Findings

theorem any_contains_iff {names : InterfaceBlock → List String} {name : String}
    {blocks : List InterfaceBlock}
    : (blocks.any fun block => (names block).contains name) = true
      ↔ RequiredIn names name blocks := by
  simp [RequiredIn]

/-- A symbol without an origin is attributed to the first of those who require it. -/
theorem attributedTo_requirer? (found : Findings) (names : InterfaceBlock → List String)
    (name : String)
    : AttributedTo found.features found.extensions names name
        (attributed .unattributed (found.requirer? names name)) := by
  unfold attributed requirer? requirers
  rw [if_pos rfl, List.find?_append, List.find?_map, List.find?_map]
  cases ofFeature : found.features.find? _ with
  | some feature =>
      obtain ⟨requires, front, back, split, first⟩ := List.find?_eq_some_iff_append.mp ofFeature
      refine .feature front feature back split (any_contains_iff.mp requires) ?_
      intro earlier member required
      have passed := (Bool.not_eq_true' _).mp (first earlier member)
      exact Bool.false_ne_true (passed.symm.trans (any_contains_iff.mpr required))
  | none =>
      have featureless : ∀ feature ∈ found.features, ¬ RequiredIn names name feature.requires :=
        fun feature member required =>
          List.find?_eq_none.mp ofFeature feature member (any_contains_iff.mpr required)
      cases ofExtension : found.extensions.find? _ with
      | some extension =>
          obtain ⟨requires, front, back, split, first⟩ :=
            List.find?_eq_some_iff_append.mp ofExtension
          refine .extension front extension back featureless split
            (any_contains_iff.mp requires) ?_
          intro earlier member required
          have passed := (Bool.not_eq_true' _).mp (first earlier member)
          exact Bool.false_ne_true (passed.symm.trans (any_contains_iff.mpr required))
      | none =>
          exact .nobody featureless fun extension member required =>
            List.find?_eq_none.mp ofExtension extension member (any_contains_iff.mpr required)

end Findings

namespace Document

open ApiBindings.Markup
open Findings

-----------------------------------------------------------------------------------------
-- Features and extensions
-----------------------------------------------------------------------------------------

/-- The extension that an element is read into, if it has a name. -/
def extension? (source : Source) (element : Element) : Option Extension :=
  (nonempty? element "name").map fun name => {
    name
    supported := (entries (· == '|') ((element.attribute? "supported").getD "")).filter (· ≠ "")
    requires := (blocks source element ["require"]).map (readBlock source)
  }

/-- The sections of the registry of a document. -/
def sections (document : Element) : List Element :=
  ((document.child? "registry").map Element.elements).getD []

/-- The features that the feature elements of a document are read into. -/
def featuresOf (source : Source) (document : Element) : List Feature :=
  ((sections document).filter fun part => part.name = "feature").filterMap (feature? source)

/-- The extensions that the extension elements of a document are read into. -/
def extensionsOf (source : Source) (document : Element) : List Extension :=
  (((sections document).filter fun part => part.name = "extensions").flatMap fun part =>
    part.named "extension").filterMap (extension? source)

theorem extensions_readExtension (source : Source) (scope : Constant.Scope) (element : Element)
    : (readExtension source scope element).1.extensions = (extension? source element).toList := by
  unfold readExtension extension?
  cases nonempty? element "name" with
  | none => rfl
  | some name =>
      exact congrArg (· ++ _)
        (of_collect_readItems Part.extensions_skipsEnumerants source _ scope _)

/-- Only a section of extensions has extensions. -/
theorem extensions_readSection (source : Source) (scope : Constant.Scope) (element : Element)
    : (readSection source scope element).1.extensions
      = if element.name = "extensions" then
          (element.named "extension").filterMap (extension? source)
        else [] := by
  by_cases extensions : element.name = "extensions"
  · rw [if_pos extensions, readSection, List.filterMap_eq_flatMap_toList]
    simp only [extensions, String.reduceEq, if_false, if_true]
    exact Part.extensions.of_collect (extensions_readExtension source) scope _
  · rw [if_neg extensions]
    by_cases feature : element.name = "feature"
    · rw [readSection]
      simp only [feature, String.reduceEq, if_false, if_true]
      exact of_readFeature Part.extensions_skipsEnumerants (fun _ => rfl) source scope element
    · exact of_readSection Part.extensions_skipsDefinitions Part.extensions_skipsEnumerants source
        scope feature extensions

/-- A part that sections of one name hold is that part of those sections. -/
theorem flatMap_ite {α β : Type} (items : List β) (holds : β → Bool) (parts : β → List α)
    : (items.flatMap fun item => if holds item then parts item else [])
      = (items.filter holds).flatMap parts := by
  induction items with
  | nil => rfl
  | cons item rest ih =>
      rw [List.flatMap_cons, ih]
      cases held : holds item <;> simp [held]

theorem features_readTree (source : Source) (document : Element)
    : (readTree source document).features = featuresOf source document := by
  unfold featuresOf sections readTree
  cases document.child? "registry" with
  | none => rfl
  | some registry =>
      refine (Part.features.of_collect (features_readSection source) _ _).trans ?_
      rw [Option.map_some, Option.getD_some, List.filterMap_eq_flatMap_toList, ← flatMap_ite]
      simp only [decide_eq_true_eq]

theorem extensions_readTree (source : Source) (document : Element)
    : (readTree source document).extensions = extensionsOf source document := by
  unfold extensionsOf sections readTree
  cases document.child? "registry" with
  | none => rfl
  | some registry =>
      refine (Part.extensions.of_collect (extensions_readSection source) _ _).trans ?_
      rw [Option.map_some, Option.getD_some, List.filterMap_flatMap, ← flatMap_ite]
      simp only [decide_eq_true_eq]

-----------------------------------------------------------------------------------------
-- Definitions
-----------------------------------------------------------------------------------------

/-- An element of a registry that defines enumerants, in itself or in its blocks. -/
inductive Definer where
  | enums (element : Element)
  | feature (element : Element)
  | extension (element : Element)

namespace Definer

def read (source : Source) (scope : Constant.Scope) : Definer → Findings × Constant.Scope
  | .enums element => readEnums source scope element
  | .feature element => readFeature source scope element
  | .extension element => readExtension source scope element

/-- The elements of a section that define enumerants. -/
def ofSection (element : Element) : List Definer :=
  if element.name = "enums" then [.enums element]
  else if element.name = "feature" then [.feature element]
  else if element.name = "extensions" then (element.named "extension").map .extension
  else []

/-- The origin that an enumerant has by where it is defined: that of the feature or extension
around it or, at the top, that of those who require it.
-/
def Attributes (source : Source) (document : Element) (name : String) : Definer → Origin → Prop
  | .enums _, origin =>
      AttributedTo (featuresOf source document) (extensionsOf source document)
        InterfaceBlock.enums name origin
  | .feature element, origin =>
      ∃ feature, feature? source element = some feature
        ∧ origin = .feature feature.api feature.name feature.number
  | .extension element, origin =>
      ∃ extension, extension? source element = some extension
        ∧ origin = .extension extension.name

/-- A section is read as its definers are, as far as enumerants and constants are concerned. -/
theorem read_ofSection (source : Source) (scope : Constant.Scope) (element : Element)
    : (collect (read source) scope (ofSection element)).1.enums
        = (readSection source scope element).1.enums
      ∧ (collect (read source) scope (ofSection element)).2
        = (readSection source scope element).2 := by
  have skips := Part.enums_skipsDefinitions
  have alone (definer : Definer)
      : (collect (read source) scope [definer]).1.enums = (read source scope definer).1.enums :=
    List.append_nil _
  unfold ofSection readSection
  by_cases types : element.name = "types"
  · simp only [types, String.reduceEq, if_false, if_true]
    exact ⟨(Part.enums.of_join_map_eq_nil (of_readType skips source) _).symm, rfl⟩
  by_cases groups : element.name = "groups"
  · simp only [groups, String.reduceEq, if_false, if_true]
    exact ⟨(Part.enums.of_join_map_eq_nil (of_readGroup skips source) _).symm, rfl⟩
  by_cases commands : element.name = "commands"
  · simp only [commands, String.reduceEq, if_false, if_true]
    exact ⟨(Part.enums.of_join_map_eq_nil (of_readCommand skips source) _).symm, rfl⟩
  rw [if_neg types, if_neg groups, if_neg commands]
  split_ifs with enums feature extensions
  · exact ⟨alone _, rfl⟩
  · exact ⟨alone _, rfl⟩
  · have same
        : collect (readExtension source) scope (element.named "extension")
          = collect (read source) scope ((element.named "extension").map .extension) :=
      collect_map
        (fun element _ scope =>
          show readExtension source scope element = read source scope (.extension element) from rfl)
        scope
    rw [same]
    exact ⟨rfl, rfl⟩
  · exact ⟨rfl, rfl⟩

/-- The elements of a document that define enumerants. -/
def ofDocument (document : Element) : List Definer :=
  (sections document).flatMap ofSection

theorem enums_collect (source : Source) (scope : Constant.Scope) (parts : List Element)
    : (collect (read source) scope (parts.flatMap ofSection)).1.enums
      = (collect (readSection source) scope parts).1.enums := by
  induction parts generalizing scope with
  | nil => rfl
  | cons part rest ih =>
      obtain ⟨enums, left⟩ := read_ofSection source scope part
      refine (Part.enums.of_collect_append scope _ _).trans ?_
      exact congrArg₂ (· ++ ·) enums (left ▸ ih _)

end Definer

/-- The enumerants of a document as they are defined, each with the element that it is defined by or
in.
-/
def definitions (source : Source) (document : Element) : List (Definer × Enumerant) :=
  (shares (Definer.read source) Constant.Scope.initial (Definer.ofDocument document)).flatMap
    fun (definer, found) => found.enums.map fun enumerant => (definer, enumerant)

theorem exists_scope_of_mem_definitions {source : Source} {document : Element} {definer : Definer}
    {defined : Enumerant} (member : (definer, defined) ∈ definitions source document)
    : ∃ scope, defined ∈ (definer.read source scope).1.enums := by
  let isRead (definer : Definer) (found : Findings) : Prop :=
    ∃ scope, found = (definer.read source scope).1
  have read
      : ∀ share ∈ shares (Definer.read source) Constant.Scope.initial (Definer.ofDocument document),
          isRead share.1 share.2 :=
    forall_shares (fun scope definer => ⟨scope, rfl⟩) _ _
  obtain ⟨share, among, member⟩ := List.mem_flatMap.mp member
  obtain ⟨enumerant, inside, same⟩ := List.mem_map.mp member
  obtain ⟨rfl, rfl⟩ := Prod.mk.inj same
  obtain ⟨scope, whole⟩ := read share among
  exact ⟨scope, whole ▸ inside⟩

theorem map_definitions (source : Source) (document : Element)
    : (definitions source document).map Prod.snd = (readTree source document).enums := by
  have enums
      : (definitions source document).map Prod.snd
        = (collect (Definer.read source) Constant.Scope.initial
            (Definer.ofDocument document)).1.enums := by
    rw [collect_eq_join_shares, definitions, List.map_flatMap]
    refine Eq.trans ?_ (Part.enums.of_join _).symm
    simp [List.flatMap_map, Part.enums, Function.comp_def]
  rw [enums, Definer.ofDocument, sections, readTree]
  cases document.child? "registry" with
  | none => rfl
  | some registry => exact Definer.enums_collect source _ _

-----------------------------------------------------------------------------------------
-- Origins
-----------------------------------------------------------------------------------------

/-- An enumerant is read with the origin that its reader is given. -/
theorem origin_of_mem_readEnumerant {source : Source} {blockGroup : Option String}
    {origin : Origin} {scope : Constant.Scope} {element : Element} {enumerant : Enumerant}
    (member : enumerant ∈ (readEnumerant source blockGroup origin scope element).1.enums)
    : enumerant.origin = origin := by
  unfold readEnumerant at member
  split at member
  · cases member
  · split at member
    · cases member
    · split at member
      · cases member
      · obtain rfl := List.mem_singleton.mp member
        exact Enumerant.origin_addGroups _ _

theorem origin_of_mem_readEnums {source : Source} {scope : Constant.Scope} {element : Element}
    {enumerant : Enumerant} (member : enumerant ∈ (readEnums source scope element).1.enums)
    : enumerant.origin = .unattributed :=
  Part.enums.forall_mem_collect (fun _ _ _ _ member => origin_of_mem_readEnumerant member) scope
    enumerant member

theorem origin_of_mem_readItem {source : Source} {origin : Origin} {scope : Constant.Scope}
    {item : Element} {enumerant : Enumerant}
    (member : enumerant ∈ (readItem source origin scope item).1.enums)
    : enumerant.origin = origin := by
  unfold readItem at member
  split at member
  · cases member
  · split at member
    · exact origin_of_mem_readEnumerant member
    · cases member

/-- All enumerants in blocks have the origin of the blocks. -/
theorem origin_of_mem_blocks {source : Source} {origin : Origin} {scope : Constant.Scope}
    {blocks : List Element} {enumerant : Enumerant}
    (member : enumerant ∈ (collect (readItems source origin) scope blocks).1.enums)
    : enumerant.origin = origin := by
  have ofBlock (block : Element) (scope : Constant.Scope)
      : ∀ enumerant ∈ Part.enums.of (readItems source origin scope block).1,
          enumerant.origin = origin :=
    Part.enums.forall_mem_collect (fun _ _ _ _ member => origin_of_mem_readItem member) scope
  have ofBlocks
      : ∀ enumerant ∈ Part.enums.of (collect (readItems source origin) scope blocks).1,
          enumerant.origin = origin :=
    Part.enums.forall_mem_collect (fun block _ scope => ofBlock block scope) scope
  exact ofBlocks enumerant member

/-- What a feature element defines is attributed to its feature. -/
theorem feature?_of_mem_readFeature {source : Source} {scope : Constant.Scope} {element : Element}
    {enumerant : Enumerant} (member : enumerant ∈ (readFeature source scope element).1.enums)
    : ∃ feature, feature? source element = some feature
        ∧ enumerant.origin = .feature feature.api feature.name feature.number := by
  unfold readFeature at member
  split at member
  · cases member
  · rename_i allowed
    have allowed : source.allows element = true := by simpa using allowed
    split at member
    · rename_i api name text apiFound nameFound numberFound
      split at member
      · cases member
      · rename_i number parsed
        have isFeature : feature? source element = some {
            api, name, number
            requires := (blocks source element ["require"]).map (readBlock source)
            removes := (blocks source element ["remove"]).map (readBlock source)
          } := by
          rw [feature?, if_pos allowed, apiFound, nameFound, numberFound, Option.bind_some, parsed]
        refine ⟨_, isFeature, ?_⟩
        rcases List.mem_append.mp member with defined | none
        · exact origin_of_mem_blocks defined
        · cases none
    · cases member

theorem extension?_of_mem_readExtension {source : Source} {scope : Constant.Scope}
    {element : Element} {enumerant : Enumerant}
    (member : enumerant ∈ (readExtension source scope element).1.enums)
    : ∃ extension, extension? source element = some extension
        ∧ enumerant.origin = .extension extension.name := by
  unfold readExtension at member
  unfold extension?
  split at member
  · cases member
  · rename_i name named
    rw [named]
    refine ⟨_, rfl, ?_⟩
    rcases List.mem_append.mp member with defined | none
    · exact origin_of_mem_blocks defined
    · cases none

/-- The origin that an enumerant is left with is the one by where it is defined. An origin that it
was read with is kept.
-/
theorem Definer.attributes_of_mem {source : Source} {document : Element} {scope : Constant.Scope}
    {definer : Definer} {enumerant : Enumerant}
    (member : enumerant ∈ (definer.read source scope).1.enums) {requirer : Option Origin}
    (found
      : AttributedTo (featuresOf source document) (extensionsOf source document)
          InterfaceBlock.enums enumerant.name (attributed .unattributed requirer))
    : definer.Attributes source document enumerant.name
        (attributed enumerant.origin requirer) := by
  cases definer with
  | enums element =>
      have origin : enumerant.origin = .unattributed := origin_of_mem_readEnums member
      rw [origin]
      exact found
  | feature element =>
      obtain ⟨feature, isFeature, origin⟩ := feature?_of_mem_readFeature member
      rw [origin]
      exact ⟨feature, isFeature, rfl⟩
  | extension element =>
      obtain ⟨extension, isExtension, origin⟩ := extension?_of_mem_readExtension member
      rw [origin]
      exact ⟨extension, isExtension, rfl⟩

theorem origin_of_mem_readCommand {source : Source} {element : Element} {command : Command}
    (member : command ∈ (readCommand source element).commands)
    : command.origin = .unattributed := by
  unfold readCommand at member
  split at member
  · cases member
  · split at member
    · cases member
    · split at member
      · cases member
      · dsimp only at member
        split at member
        · cases member
        · split at member
          · exact List.mem_singleton.mp member ▸ rfl
          · obtain ⟨faultsOnly, -⟩ := readParams_faults source _ _
            rw [faultsOnly] at member
            cases member

/-- All commands are read without an origin. -/
theorem origin_of_mem_readTree {source : Source} {document : Element} {command : Command}
    (member : command ∈ (readTree source document).commands)
    : command.origin = .unattributed := by
  have ofSection (element : Element) (scope : Constant.Scope)
      : ∀ command ∈ Part.commands.of (readSection source scope element).1,
          command.origin = .unattributed := by
    by_cases commands : element.name = "commands"
    · have read
          : (readSection source scope element).1
            = join ((element.named "command").map (readCommand source)) := by
        simp [readSection, commands]
      rw [read, Part.commands.of_join, List.flatMap_map]
      intro command member
      obtain ⟨child, -, member⟩ := List.mem_flatMap.mp member
      exact origin_of_mem_readCommand member
    · intro command member
      change command ∈ (readSection source scope element).1.commands at member
      rw [commands_readSection commands] at member
      cases member
  unfold readTree at member
  split at member
  · rename_i registry within
    have ofRegistry : ∀ command ∈ Part.commands.of (readRegistry source registry),
        command.origin = .unattributed :=
      Part.commands.forall_mem_collect (fun element _ scope => ofSection element scope) _
    exact ofRegistry command member
  · cases member

/-- The records of a document attribute its symbols. An enumerant has the origin by where it is
defined, and a command that of those who require it.
-/
theorem records_attributed (source : Source) (fault : Option Nat) (document : Element)
    : List.Forall₂
        (fun (definer, defined) enumerant =>
          enumerant = { defined with origin := enumerant.origin }
          ∧ definer.Attributes source document enumerant.name enumerant.origin)
        (definitions source document) (records source fault document).enums
      ∧ ∀ command ∈ (records source fault document).commands,
          AttributedTo (featuresOf source document) (extensionsOf source document)
            InterfaceBlock.commands command.name command.origin := by
  let found := malformed source fault ++ readTree source document
  -- The fault of a document is neither a symbol nor a requirer.
  have enums : found.enums = (definitions source document).map Prod.snd := by
    rw [map_definitions]
    cases fault <;> rfl
  have commands : found.commands = (readTree source document).commands := by
    cases fault <;> rfl
  have attributed (names : InterfaceBlock → List String) (name : String)
      : AttributedTo (featuresOf source document) (extensionsOf source document) names name
          (attributed .unattributed (found.requirer? names name)) := by
    rw [← features_readTree, ← extensions_readTree]
    have spec := attributedTo_requirer? found names name
    cases fault <;> exact spec
  constructor
  · change List.Forall₂ _ _ (found.enums.map _)
    rw [enums, List.map_map, List.forall₂_map_right_iff, List.forall₂_same]
    intro (definer, defined) member
    obtain ⟨scope, read⟩ := exists_scope_of_mem_definitions member
    exact ⟨rfl, Definer.attributes_of_mem read (attributed _ _)⟩
  · intro command member
    obtain ⟨read, among, rfl⟩ := List.mem_map.mp member
    have unattributed : read.origin = .unattributed := origin_of_mem_readTree (commands ▸ among)
    dsimp only
    rw [unattributed]
    exact attributed _ _

end Document

end ApiBindings
