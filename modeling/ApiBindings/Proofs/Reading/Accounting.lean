import ApiBindings.Proofs.Merging.Rule
import ApiBindings.Proofs.Reading.Documents

/-! Nothing in a document is lost without a trace.
Every element that a reader comes to has an outcome: what it declares, or faults that name its
document and its line. The outcomes of elements follow each other in the order of the elements and
are all that is found. Elements for other interfaces have none.
-/

namespace ApiBindings

/-- The names of a kind among references, each a kind with a name. -/
def namesOfKind (kind : String) (references : List (String × String)) : List String :=
  (references.filter fun reference => reference.1 == kind).map Prod.snd

/-- A block lists references by their kinds, in their order. -/
structure InterfaceBlock.Lists (block : InterfaceBlock) (references : List (String × String))
    : Prop where
  enums : block.enums = namesOfKind "enum" references
  commands : block.commands = namesOfKind "command" references
  types : block.types = namesOfKind "type" references

namespace Document

open ApiBindings.Markup
open Findings

-----------------------------------------------------------------------------------------
-- Outcomes
-----------------------------------------------------------------------------------------

/-- An element for another interface has nothing, and any other one has an outcome. -/
def IfAllowed (source : Source) (outcome : Element → Findings → Prop) (element : Element)
    (found : Findings)
    : Prop :=
  if source.allows element then outcome element found else found = {}

/-- A type is declared if it has a name, and it need not have one. -/
inductive TypeOutcome (source : Source) (element : Element) : Findings → Prop
  | recorded (type : TypeDecl) (named : typeName? element = some type.name)
    (declaredBy : type.source = source.name)
    : TypeOutcome source element { types := [type] }
  | nameless (absent : typeName? element = none) : TypeOutcome source element {}

/-- A group lists its members or is at fault once. -/
inductive GroupOutcome (source : Source) (element : Element) : Findings → Prop
  | recorded (group : String) (named : element.attribute? "name" = some group)
    (groupMembers : List (String × String))
    (members : ∀ member ∈ groupMembers, member.1 = group)
    : GroupOutcome source element { groupMembers }
  | refused (label : String) (problem : Problem)
    : GroupOutcome source element (source.fault element label problem)

/-- A definition declares one enumerant or is at fault once. -/
inductive DefinitionOutcome (source : Source) (element : Element) : Findings → Prop
  | recorded (enumerant : Enumerant) (named : element.attribute? "name" = some enumerant.name)
    (declaredBy : enumerant.source = source.name)
    : DefinitionOutcome source element { enums := [enumerant] }
  | refused (label : String) (problem : Problem)
    : DefinitionOutcome source element (source.fault element label problem)

/-- A command is declared without faults or not declared for some. -/
inductive CommandOutcome (source : Source) (element : Element) : Findings → Prop
  | recorded (command : Command) (proto : Element) (inside : element.child? "proto" = some proto)
    (named : (proto.child? "name").map Element.text = some command.name)
    (declaredBy : command.source = source.name)
    : CommandOutcome source element { commands := [command] }
  | refused (faults : List Fault) (some : faults ≠ [])
    (own : ∀ fault ∈ faults, fault.input = source.name)
    : CommandOutcome source element { faults }

/-- The reference that an item of a block makes, as its kind and its name. -/
def reference? (item : Element) : Option (String × String) :=
  (nonempty? item "name").map fun name => (item.name, name)

/-- An item without a name is at fault for that. Any other one is a reference, and a definition too
if it gives a value.
-/
inductive ItemOutcome (source : Source) (item : Element) : Findings → Prop
  | nameless (absent : reference? item = none)
    : ItemOutcome source item (source.fault item item.name (.missingAttribute "name"))
  | reference (name : String) (named : reference? item = some (item.name, name))
    (plain : isDefinition item = false)
    : ItemOutcome source item {}
  | definition (name : String) (named : reference? item = some (item.name, name))
    (inline : isDefinition item = true) {found : Findings}
    (outcome : DefinitionOutcome source item found)
    : ItemOutcome source item found

/-- The items of a block share what is found in it, and the block lists their references. -/
structure BlockOutcome (source : Source) (block : Element) (found : Findings) : Prop where
  shared : SharedBy (ItemOutcome source) (blockItems source block) found
  lists : (readBlock source block).Lists ((blockItems source block).filterMap reference?)

/-- A feature is at fault once or declared behind what is found in its blocks. -/
inductive FeatureOutcome (source : Source) (element : Element) : Findings → Prop
  | recorded (feature : Feature) (named : element.attribute? "name" = some feature.name)
    (interface : element.attribute? "api" = some feature.api)
    (requires : feature.requires = (blocks source element ["require"]).map (readBlock source))
    (removes : feature.removes = (blocks source element ["remove"]).map (readBlock source))
    {found : Findings}
    (shared : SharedBy (BlockOutcome source) (blocks source element ["require", "remove"]) found)
    : FeatureOutcome source element (found ++ { features := [feature] })
  | refused (label : String) (problem : Problem)
    : FeatureOutcome source element (source.fault element label problem)

/-- An extension is at fault once or declared behind what is found in its blocks. -/
inductive ExtensionOutcome (source : Source) (element : Element) : Findings → Prop
  | recorded (extension : Extension) (named : element.attribute? "name" = some extension.name)
    (requires : extension.requires = (blocks source element ["require"]).map (readBlock source))
    {found : Findings}
    (shared : SharedBy (BlockOutcome source) (blocks source element ["require"]) found)
    : ExtensionOutcome source element (found ++ { extensions := [extension] })
  | refused (label : String) (problem : Problem)
    : ExtensionOutcome source element (source.fault element label problem)

/-- What is found in a section is shared by those of its elements that it is about. -/
inductive SectionOutcome (source : Source) (element : Element) : Findings → Prop
  | types (about : element.name = "types") {found : Findings}
    (shared : SharedBy (IfAllowed source (TypeOutcome source)) (element.named "type") found)
    : SectionOutcome source element found
  | enums (about : element.name = "enums") (bitmaskGroups : List String) {found : Findings}
    (shared
      : SharedBy (IfAllowed source (DefinitionOutcome source)) (element.named "enum") found)
    : SectionOutcome source element ({ bitmaskGroups } ++ found)
  | groups (about : element.name = "groups") {found : Findings}
    (shared : SharedBy (GroupOutcome source) (element.named "group") found)
    : SectionOutcome source element found
  | commands (about : element.name = "commands") {found : Findings}
    (shared : SharedBy (IfAllowed source (CommandOutcome source)) (element.named "command") found)
    : SectionOutcome source element found
  | feature (about : element.name = "feature") {found : Findings}
    (outcome : IfAllowed source (FeatureOutcome source) element found)
    : SectionOutcome source element found
  | extensions (about : element.name = "extensions") {found : Findings}
    (shared : SharedBy (ExtensionOutcome source) (element.named "extension") found)
    : SectionOutcome source element found
  | other
    (about
      : element.name
        ∉ ["types", "enums", "groups", "commands", "feature", "extensions"])
    : SectionOutcome source element {}

-----------------------------------------------------------------------------------------
-- Symbols
-----------------------------------------------------------------------------------------

theorem attribute?_of_nonempty? {element : Element} {key name : String}
    (found : nonempty? element key = some name)
    : element.attribute? key = some name :=
  (Option.filter_eq_some_iff.mp found).1

theorem ifAllowed_of {source : Source} {outcome : Element → Findings → Prop} {element : Element}
    {found : Findings} (foreign : source.allows element = false → found = {})
    (allowed : source.allows element = true → outcome element found)
    : IfAllowed source outcome element found := by
  unfold IfAllowed
  cases allows : source.allows element with
  | false => exact foreign allows
  | true => exact allowed allows

theorem ifAllowed_readType (source : Source) (element : Element)
    : IfAllowed source (TypeOutcome source) element (readType source element) := by
  refine ifAllowed_of readType_foreign fun allowed => ?_
  rw [readType, allowed]
  cases named : typeName? element with
  | none => exact .nameless named
  | some name => exact .recorded _ named rfl

theorem groupOutcome_readGroup (source : Source) (element : Element)
    : GroupOutcome source element (readGroup source element) := by
  unfold readGroup
  split
  · exact .refused _ _
  · rename_i group named
    refine .recorded group named _ fun member among => ?_
    obtain ⟨name, -, rfl⟩ := List.mem_map.mp among
    rfl

/-- Of the definitions for the chosen interface, each declares an enumerant or is at fault. -/
theorem definitionOutcome_readEnumerant {source : Source} {element : Element}
    (allowed : source.allows element = true) (blockGroup : Option String) (origin : Origin)
    (scope : Constant.Scope)
    : DefinitionOutcome source element
        (readEnumerant source blockGroup origin scope element).1 := by
  unfold readEnumerant
  rw [allowed]
  split
  · rename_i refused
    cases refused
  · split
    · exact .refused _ _
    · rename_i name named
      split
      · exact .refused _ _
      · refine .recorded _ ?_ ?_
        · rw [Enumerant.addGroups_eq]
          exact attribute?_of_nonempty? named
        · rw [Enumerant.addGroups_eq]
          rfl

theorem ifAllowed_readEnumerant (source : Source) (blockGroup : Option String) (origin : Origin)
    (element : Element) (scope : Constant.Scope)
    : IfAllowed source (DefinitionOutcome source) element
        (readEnumerant source blockGroup origin scope element).1 := by
  refine ifAllowed_of (fun foreign => ?_) fun allowed => ?_
  · rw [readEnumerant_foreign foreign]
  · exact definitionOutcome_readEnumerant allowed blockGroup origin scope

/-- Findings that are faults only are so together, by induction on them. -/
theorem join_eq_faults {parts : List Findings}
    (only : ∀ part ∈ parts, part = { faults := part.faults })
    : join parts = { faults := (join parts).faults } := by
  induction parts with
  | nil => rfl
  | cons first rest ih =>
      obtain ⟨here, later⟩ := List.forall_mem_cons.mp only
      change first ++ join rest = _
      rw [here, ih later]
      rfl

/-- Each parameter that cannot be read is at fault once. -/
theorem readParams_faults (source : Source) (label : String) (elements : List Element)
    : let found := (readParams source label elements).1
      found = { faults := found.faults } ∧ ∀ fault ∈ found.faults, fault.input = source.name := by
  intro found
  constructor
  · refine join_eq_faults fun part member => ?_
    obtain ⟨⟨element, outcome⟩, -, rfl⟩ := List.mem_map.mp member
    cases outcome <;> rfl
  · intro fault member
    have faults : found.faults = _ := Part.faults.of_join _
    rw [faults] at member
    obtain ⟨part, among, member⟩ := List.mem_flatMap.mp member
    obtain ⟨⟨element, outcome⟩, -, rfl⟩ := List.mem_map.mp among
    cases outcome with
    | ok param => cases member
    | error problem => exact List.mem_singleton.mp member ▸ rfl

theorem name_of_readPrototype {proto : Element} {name returns : String}
    (read : readPrototype proto = .ok (name, returns))
    : (proto.child? "name").map Element.text = some name := by
  unfold readPrototype at read
  split at read
  · cases read
  · rename_i found
    obtain ⟨rfl, -⟩ := Prod.mk.inj (Except.ok.inj read)
    exact (Option.filter_eq_some_iff.mp found).1

theorem commandOutcome_readCommand {source : Source} {element : Element}
    (allowed : source.allows element = true)
    : CommandOutcome source element (readCommand source element) := by
  have refused (label : String) (problem : Problem)
      : CommandOutcome source element (source.fault element label problem) :=
    .refused _ (List.cons_ne_nil _ _) fun fault member => List.mem_singleton.mp member ▸ rfl
  unfold readCommand
  rw [allowed]
  split
  · rename_i foreign
    cases foreign
  · split
    · exact refused _ _
    · rename_i proto inside
      split
      · exact refused _ _
      · rename_i name returns read
        dsimp only
        split
        · exact refused _ _
        · split
          · exact .recorded _ proto inside (name_of_readPrototype read) rfl
          · -- The faults of parameters stand for the whole command.
            rename_i faulty
            obtain ⟨only, own⟩ := readParams_faults source ("command " ++ name)
              ((element.named "param").filter source.allows)
            rw [only]
            exact .refused _ (by simpa using faulty) own

theorem ifAllowed_readCommand (source : Source) (element : Element)
    : IfAllowed source (CommandOutcome source) element (readCommand source element) :=
  ifAllowed_of readCommand_foreign commandOutcome_readCommand

-----------------------------------------------------------------------------------------
-- Features and extensions
-----------------------------------------------------------------------------------------

/-- An item has its outcome wherever it is read, if it is for the chosen interface. -/
theorem itemOutcome_readItem {source : Source} {item : Element}
    (allowed : source.allows item = true) (origin : Origin) (scope : Constant.Scope)
    : ItemOutcome source item (readItem source origin scope item).1 := by
  unfold readItem
  cases named : nonempty? item "name" with
  | none => exact .nameless (by simp [reference?, named])
  | some name =>
      have reference : reference? item = some (item.name, name) := by simp [reference?, named]
      cases inline : isDefinition item with
      | true =>
          exact .definition name reference inline
            (definitionOutcome_readEnumerant allowed _ origin scope)
      | false => exact .reference name reference inline

/-- The names of one kind are those of the references of that kind. -/
theorem references_eq (source : Source) (block : Element) (kind : String)
    : references source block kind
      = namesOfKind kind ((blockItems source block).filterMap reference?) := by
  unfold references namesOfKind
  rw [List.filterMap_filter, List.filter_filterMap, List.map_filterMap]
  refine congrArg (List.filterMap · _) (funext fun item => ?_)
  unfold reference?
  cases nonempty? item "name" with
  | none => simp
  | some name =>
      rw [Option.map_some, Option.filter_some]
      cases item.name == kind <;> rfl

theorem blockOutcome_readItems (source : Source) (origin : Origin) (block : Element)
    (scope : Constant.Scope)
    : BlockOutcome source block (readItems source origin scope block).1 where
  shared := by
    refine sharedBy_collect (fun item member scope => ?_) scope
    have allowed := (Bool.and_eq_true_iff.mp (List.mem_filter.mp member).2).2
    exact itemOutcome_readItem allowed origin scope
  lists := {
    enums := references_eq source block "enum"
    commands := references_eq source block "command"
    types := references_eq source block "type"
  }

theorem ifAllowed_readFeature (source : Source) (element : Element) (scope : Constant.Scope)
    : IfAllowed source (FeatureOutcome source) element (readFeature source scope element).1 := by
  refine ifAllowed_of (fun foreign => ?_) fun allowed => ?_
  · rw [readFeature_foreign foreign]
  · unfold readFeature
    rw [allowed]
    split
    · rename_i foreign
      cases foreign
    · split
      · rename_i api name text interface named numbered
        split
        · exact .refused _ _
        · refine .recorded _ named interface rfl rfl ?_
          exact sharedBy_collect (fun block _ scope => blockOutcome_readItems source _ block scope)
            scope
      · exact .refused _ _

theorem extensionOutcome_readExtension (source : Source) (element : Element)
    (scope : Constant.Scope)
    : ExtensionOutcome source element (readExtension source scope element).1 := by
  unfold readExtension
  split
  · exact .refused _ _
  · rename_i name named
    refine .recorded _ (attribute?_of_nonempty? named) rfl ?_
    exact sharedBy_collect (fun block _ scope => blockOutcome_readItems source _ block scope)
      scope

-----------------------------------------------------------------------------------------
-- Whole documents
-----------------------------------------------------------------------------------------

theorem sectionOutcome_readSection (source : Source) (element : Element) (scope : Constant.Scope)
    : SectionOutcome source element (readSection source scope element).1 := by
  unfold readSection
  split_ifs with types enums groups commands feature extensions
  · exact .types types (sharedBy_join_map fun item _ => ifAllowed_readType source item)
  · refine .enums enums _ ?_
    exact sharedBy_collect (fun item _ scope => ifAllowed_readEnumerant source _ _ item scope) scope
  · exact .groups groups (sharedBy_join_map fun item _ => groupOutcome_readGroup source item)
  · exact .commands commands (sharedBy_join_map fun item _ => ifAllowed_readCommand source item)
  · exact .feature feature (ifAllowed_readFeature source element scope)
  · refine .extensions extensions ?_
    exact sharedBy_collect (fun item _ scope => extensionOutcome_readExtension source item scope)
      scope
  · exact .other (by simp [*])

theorem ignoresOrigins_ifAllowed (source : Source) {outcome : Element → Findings → Prop}
    (ignores : IgnoresOrigins outcome)
    : IgnoresOrigins (IfAllowed source outcome) := by
  intro ofEnumerant ofCommand element found allowed
  unfold IfAllowed at allowed ⊢
  split
  · rename_i allows
    rw [if_pos allows] at allowed
    exact ignores ofEnumerant ofCommand element found allowed
  · rename_i foreign
    rw [if_neg foreign] at allowed
    rw [allowed]
    rfl

theorem ignoresOrigins_type (source : Source) : IgnoresOrigins (TypeOutcome source) := by
  rintro _ _ element found (⟨type, named, declaredBy⟩ | ⟨absent⟩)
  · exact .recorded type named declaredBy
  · exact .nameless absent

theorem ignoresOrigins_group (source : Source) : IgnoresOrigins (GroupOutcome source) := by
  rintro _ _ element found (⟨group, named, members, own⟩ | ⟨label, problem⟩)
  · exact .recorded group named members own
  · exact .refused label problem

theorem ignoresOrigins_definition (source : Source)
    : IgnoresOrigins (DefinitionOutcome source) := by
  rintro _ _ element found (⟨enumerant, named, declaredBy⟩ | ⟨label, problem⟩)
  · exact .recorded _ named declaredBy
  · exact .refused label problem

theorem ignoresOrigins_command (source : Source) : IgnoresOrigins (CommandOutcome source) := by
  rintro _ _ element found (⟨command, proto, inside, named, declaredBy⟩ | ⟨faults, some, own⟩)
  · exact .recorded _ proto inside named declaredBy
  · exact .refused faults some own

theorem ignoresOrigins_item (source : Source) : IgnoresOrigins (ItemOutcome source) := by
  intro ofEnumerant ofCommand item found outcome
  cases outcome with
  | nameless absent => exact .nameless absent
  | reference name named plain => exact .reference name named plain
  | definition name named inline outcome =>
      exact .definition name named inline
        (ignoresOrigins_definition source ofEnumerant ofCommand item found outcome)

theorem ignoresOrigins_block (source : Source) : IgnoresOrigins (BlockOutcome source) :=
  fun ofEnumerant ofCommand _ _ outcome => {
    shared := outcome.shared.withOrigins (ignoresOrigins_item source) ofEnumerant ofCommand
    lists := outcome.lists
  }

theorem ignoresOrigins_feature (source : Source) : IgnoresOrigins (FeatureOutcome source) := by
  intro ofEnumerant ofCommand element found outcome
  cases outcome with
  | recorded feature named interface requires removes shared =>
      rw [withOrigins_append]
      exact .recorded feature named interface requires removes
        (shared.withOrigins (ignoresOrigins_block source) ofEnumerant ofCommand)
  | refused label problem => exact .refused label problem

theorem ignoresOrigins_extension (source : Source)
    : IgnoresOrigins (ExtensionOutcome source) := by
  intro ofEnumerant ofCommand element found outcome
  cases outcome with
  | recorded extension named requires shared =>
      rw [withOrigins_append]
      exact .recorded extension named requires
        (shared.withOrigins (ignoresOrigins_block source) ofEnumerant ofCommand)
  | refused label problem => exact .refused label problem

/-- What a section is shared by does not depend on the origins of symbols. -/
theorem ignoresOrigins_section (source : Source) : IgnoresOrigins (SectionOutcome source) := by
  intro ofEnumerant ofCommand element found outcome
  cases outcome with
  | types about shared =>
      have ignores := ignoresOrigins_ifAllowed source (ignoresOrigins_type source)
      exact .types about (shared.withOrigins ignores ofEnumerant ofCommand)
  | enums about bitmaskGroups shared =>
      have ignores := ignoresOrigins_ifAllowed source (ignoresOrigins_definition source)
      rw [withOrigins_append]
      exact .enums about bitmaskGroups (shared.withOrigins ignores ofEnumerant ofCommand)
  | groups about shared =>
      have ignores := ignoresOrigins_group source
      exact .groups about (shared.withOrigins ignores ofEnumerant ofCommand)
  | commands about shared =>
      have ignores := ignoresOrigins_ifAllowed source (ignoresOrigins_command source)
      exact .commands about (shared.withOrigins ignores ofEnumerant ofCommand)
  | feature about outcome =>
      have ignores := ignoresOrigins_ifAllowed source (ignoresOrigins_feature source)
      exact .feature about (ignores ofEnumerant ofCommand element found outcome)
  | extensions about shared =>
      have ignores := ignoresOrigins_extension source
      exact .extensions about (shared.withOrigins ignores ofEnumerant ofCommand)
  | other about => exact .other about

/-- The records of a document with a registry are the outcomes of its sections, in their order,
behind the fault of the document itself if it has one.
-/
theorem records_sharedBy (source : Source) (fault : Option Nat) {document registry : Element}
    (within : document.child? "registry" = some registry)
    : ∃ found,
        SharedBy (SectionOutcome source) registry.elements found
        ∧ (records source fault document).toFindings = malformed source fault ++ found := by
  have shared
      : SharedBy (SectionOutcome source) registry.elements (readRegistry source registry) :=
    sharedBy_collect (fun element _ scope => sectionOutcome_readSection source element scope) _
  obtain ⟨ofEnumerant, ofCommand, whole⟩ := records_eq_withOrigins source fault document
  refine ⟨_, shared.withOrigins (ignoresOrigins_section source) ofEnumerant ofCommand, ?_⟩
  rw [whole, readTree, within]

/-- A registry that defines a bit, and whose extension defines another one without a name. -/
def unnamedBit : Element :=
  let bit : Tag := { name := "enum", attributes := [("name", "FIRST"), ("bitpos", "0")], line := 3 }
  let unnamed : Tag := { name := "enum", attributes := [("bitpos", "1")], line := 7 }
  {
    tag := { name := "registry", attributes := [], line := 1 }
    children := [
      .element { name := "enums", attributes := [], line := 2 } [.element bit []],
      .element { name := "extensions", attributes := [], line := 4 } [
        .element { name := "extension", attributes := [("name", "X")], line := 5 } [
          .element { name := "require", attributes := [], line := 6 } [.element unnamed []]
        ]
      ]
    ]
  }

/-- The document around the registry. -/
def unnamedBitDocument : Element where
  tag := { name := "#document", attributes := [], line := 0 }
  children := [.element unnamedBit.tag unnamedBit.children]

/-- The bit with a name is an enumerant, and the other one is a fault on its line. -/
theorem unnamedBit_sharedBy
    : let source : Source := { name := "gl.xml", api := none }
      unnamedBitDocument.child? "registry" = some unnamedBit
      ∧ (∃ found,
          SharedBy (SectionOutcome source) unnamedBit.elements found
          ∧ (records source none unnamedBitDocument).toFindings
            = malformed source none ++ found)
      ∧ (records source none unnamedBitDocument).enums.map Enumerant.name = ["FIRST"]
      ∧ (records source none unnamedBitDocument).faults
        = [{ input := "gl.xml", element := "enum", problem := .missingAttribute "name"
             line := some 7 }] := by
  intro source
  have within : unnamedBitDocument.child? "registry" = some unnamedBit := rfl
  exact ⟨within, records_sharedBy source none within, by decide, by decide⟩

/-- An extension that removes an enumerant without a name. -/
def removingExtension : Element :=
  let unnamed : Tag := { name := "enum", attributes := [], line := 3 }
  {
    tag := { name := "extension", attributes := [("name", "X")], line := 1 }
    children := [.element { name := "remove", attributes := [], line := 2 } [.element unnamed []]]
  }

/-- The document of the extension. -/
def removingDocument : Element where
  tag := { name := "#document", attributes := [], line := 0 }
  children := [
    .element { name := "registry", attributes := [], line := 1 } [
      .element { name := "extensions", attributes := [], line := 1 } [
        .element removingExtension.tag removingExtension.children
      ]
    ]
  ]

/-- Extensions have no blocks that remove, so the extension is recorded and its item is neither a
reference nor a fault.
-/
theorem removingExtension_unaccounted
    : let source : Source := { name := "gl.xml", api := none }
      let found := records source none removingDocument
      found.extensions.map Extension.name = ["X"]
      ∧ ¬ ∀ block ∈ blocks source removingExtension ["require", "remove"],
          ∀ item ∈ blockItems source block,
            (∃ extension ∈ found.extensions,
              ∃ listed ∈ extension.requires,
                (nonempty? item "name").any listed.enums.contains = true)
            ∨ ∃ fault ∈ found.faults, fault.line = some item.tag.line := by
  decide

end Document

end ApiBindings
