import ApiBindings.Artifact.LogMap
import ApiBindings.Proofs.Markup.Trees
import ApiBindings.Registry.Merge
import Mathlib.Data.List.Forall2

/-! What is read of a log map that was written.
Its root has an element for every active command, and this one has an element for every parameter
that needs flags, with the place of the parameter among all of them.
-/

namespace ApiBindings.Artifact

open ApiBindings.Markup

-----------------------------------------------------------------------------------------
-- Texts
-----------------------------------------------------------------------------------------

/-- A character of XML 1.0. -/
def isXmlChar (c : Char) : Bool :=
  let n := c.toNat
  n == 0x9 || n == 0xA || n == 0xD || (0x20 ≤ n && n ≤ 0xD7FF) || (0xE000 ≤ n && n ≤ 0xFFFD)
    || (0x10000 ≤ n && n ≤ 0x10FFFF)

/-- A text that consists of characters of XML 1.0. -/
def IsXmlText (text : String) : Prop :=
  ∀ c ∈ text.toList, isXmlChar c = true

instance (text : String) : Decidable (IsXmlText text) :=
  inferInstanceAs (Decidable (∀ c ∈ text.toList, isXmlChar c = true))

theorem isPlain_of_isXmlChar {c : Char} (isXml : isXmlChar c = true)
    : isPlain false c = true := by
  simp only [isXmlChar, Bool.or_eq_true, Bool.and_eq_true, beq_iff_eq, decide_eq_true_eq] at isXml
  have code (n : Nat) (d : Char) (same : c.toNat = n) (isCode : d.toNat = n) : c = d :=
    Char.toNat_inj.mp (same.trans isCode.symm)
  rcases isXml with ((((tab | feed) | ret) | low) | middle) | high
  · rw [code 0x9 '\t' tab rfl]
    decide
  · rw [code 0xA '\n' feed rfl]
    decide
  · rw [code 0xD '\r' ret rfl]
    decide
  all_goals
    simp only [isPlain, isAllowed, Bool.false_and, Bool.not_false, Bool.and_true]
    rw [if_neg (by omega), Bool.and_eq_true, bne_iff_ne, bne_iff_ne]
    omega

theorem isXmlText_toString (n : Nat) : IsXmlText (toString n) := by
  intro c member
  rw [Nat.toString_eq_ofList_toDigits, String.toList_ofList] at member
  have digit := Nat.isDigit_of_mem_toDigits (by decide) (by decide) member
  simp only [Char.isDigit, Bool.and_eq_true, decide_eq_true_eq, ge_iff_le,
    UInt32.le_iff_toNat_le] at digit
  simp only [isXmlChar, Bool.or_eq_true, Bool.and_eq_true, beq_iff_eq, decide_eq_true_eq]
  have least : '0'.val.toNat = 48 := rfl
  have most : '9'.val.toNat = 57 := rfl
  have code : c.toNat = c.val.toNat := rfl
  omega

theorem isXmlText_title (api : Api) : IsXmlText api.title := by
  cases api <;> decide +kernel

theorem isXmlText_paramFlags (isBitmaskGroup : String → Bool) (param : Param)
    : IsXmlText (paramFlags isBitmaskGroup param) := by
  unfold paramFlags
  dsimp only
  split
  · split <;> split <;> decide +kernel
  · split
    · split <;> split <;> decide +kernel
    · split <;> split <;> split <;> decide +kernel

theorem isXmlText_returnFlags (isBitmaskGroup : String → Bool) (command : Command)
    : IsXmlText (returnFlags isBitmaskGroup command) := by
  unfold returnFlags
  dsimp only
  split
  · decide
  · split
    · decide
    · split
      · decide
      · split <;> decide

/-- The names of commands, parameters and groups that a log map shows consist of characters of
XML 1.0.
-/
def HasXmlSymbols (resolution : Resolution) : Prop :=
  ∀ command ∈ resolution.activeCommands,
    IsXmlText command.name
    ∧ (∀ group ∈ command.returnGroup, IsXmlText group)
    ∧ ∀ param ∈ command.params,
        IsXmlText param.name ∧ ∀ group ∈ param.group, IsXmlText group

instance (resolution : Resolution) : Decidable (HasXmlSymbols resolution) :=
  inferInstanceAs (Decidable (∀ command ∈ resolution.activeCommands, _))

/-- The names that a log map shows, and what it is made for, consist of characters of XML 1.0. -/
structure HasXmlNames (context : Context) (resolution : Resolution) : Prop where
  outputClass : IsXmlText context.outputClass
  profile : IsXmlText resolution.profile.name
  symbols : HasXmlSymbols resolution

-----------------------------------------------------------------------------------------
-- Nodes
-----------------------------------------------------------------------------------------

/-- A node can be written if its attributes are some of those that its kind may have. -/
theorem isWritable_node {name : String} {attributes : List (String × String)}
    {children : List Node} (named : isLocalName name.toList = true) (names : List String)
    (among : (attributes.map Prod.fst).Sublist names)
    (allowed : names.Nodup ∧ ∀ name ∈ names, isLocalName name.toList = true ∧ name ≠ "xmlns")
    (values : ∀ attr ∈ attributes, IsXmlText attr.2)
    (areChildren : ∀ child ∈ children, child.IsWritable)
    : (node name attributes children).IsWritable := by
  refine .element ?_ areChildren
  refine {
    name := named
    attributes := fun attr member => ?_
    distinct := among.nodup allowed.1
    line := rfl
  }
  obtain ⟨isLocal, noSpace⟩ := allowed.2 attr.1 (among.subset (List.mem_map_of_mem member))
  exact ⟨isLocal, noSpace, fun c inside => isPlain_of_isXmlChar (values attr member c inside)⟩

theorem map_fst_optional_sublist (name : String) (value : Option String)
    : ((optional name value).map Prod.fst).Sublist [name] := by
  cases value with
  | none => exact List.nil_sublist _
  | some text => exact List.Sublist.refl _

theorem isXmlText_of_mem_optional {name : String} {value : Option String}
    (isXml : ∀ text ∈ value, IsXmlText text) {attr : String × String}
    (member : attr ∈ optional name value)
    : IsXmlText attr.2 := by
  obtain ⟨text, given, rfl⟩ := List.mem_map.mp member
  exact isXml text (Option.mem_toList.mp given)

variable {isBitmaskGroup : String → Bool}

/-- The element of a parameter that needs flags, at its place among all parameters. -/
def paramNode (isBitmaskGroup : String → Bool) (shown : Param × Nat) : Node :=
  node "param"
    ([("index", toString shown.2), ("name", shown.1.name),
        ("flags", paramFlags isBitmaskGroup shown.1)]
      ++ optional "group" shown.1.group)
    []

/-- The parameters that need flags, with their places among all parameters. -/
def shownParams (isBitmaskGroup : String → Bool) (command : Command) : List (Param × Nat) :=
  command.params.zipIdx.filter fun placed => paramFlags isBitmaskGroup placed.1 ≠ ""

theorem paramNodes_eq (command : Command)
    : (command.params.mapIdx (paramNode? isBitmaskGroup)).filterMap id
      = (shownParams isBitmaskGroup command).map (paramNode isBitmaskGroup) := by
  rw [List.mapIdx_eq_zipIdx_map, List.filterMap_map, shownParams, ← List.filterMap_eq_map',
    List.filterMap_filter]
  refine congrArg (List.filterMap · _) (funext fun placed => ?_)
  simp only [Function.comp_apply, id, paramNode?, decide_not, Bool.not_eq_true',
    decide_eq_false_iff_not]
  split <;> rfl

theorem isWritable_paramNode {shown : Param × Nat} (name : IsXmlText shown.1.name)
    (group : ∀ group ∈ shown.1.group, IsXmlText group)
    : (paramNode isBitmaskGroup shown).IsWritable := by
  refine isWritable_node (by decide +kernel) ["index", "name", "flags", "group"] ?_
    (by decide +kernel) ?_ (by simp)
  · rw [List.map_append]
    exact (List.Sublist.refl ["index", "name", "flags"]).append (map_fst_optional_sublist _ _)
  · intro attr member
    have flags := isXmlText_paramFlags isBitmaskGroup shown.1
    generalize paramFlags isBitmaskGroup shown.1 = text at flags member
    simp only [List.mem_append, List.mem_cons, List.not_mem_nil, or_false] at member
    rcases member with (rfl | rfl | rfl) | optional
    · exact isXmlText_toString shown.2
    · exact name
    · exact flags
    · exact isXmlText_of_mem_optional group optional

theorem isWritable_commandNode {command : Command} (name : IsXmlText command.name)
    (group : ∀ group ∈ command.returnGroup, IsXmlText group)
    (params
      : ∀ param ∈ command.params,
          IsXmlText param.name ∧ ∀ group ∈ param.group, IsXmlText group)
    : (commandNode isBitmaskGroup command).IsWritable := by
  refine isWritable_node (by decide +kernel) ["name", "return", "return-group"] ?_
    (by decide +kernel) ?_ ?_
  · have returns
        : ((if returnFlags isBitmaskGroup command = "" then []
            else [("return", returnFlags isBitmaskGroup command)]).map Prod.fst).Sublist
          ["return"] := by
      split
      · exact List.nil_sublist _
      · exact List.Sublist.refl _
    have whole :=
      ((List.Sublist.refl ["name"]).append returns).append
        (map_fst_optional_sublist "return-group" command.returnGroup)
    rw [List.map_append, List.map_append]
    exact whole
  · intro attr member
    have flags := isXmlText_returnFlags isBitmaskGroup command
    generalize returnFlags isBitmaskGroup command = text at flags member
    rcases List.mem_append.mp member with needed | optional
    · rcases List.mem_append.mp needed with isName | isReturn
      · obtain rfl := List.mem_singleton.mp isName
        exact name
      · split at isReturn
        · cases isReturn
        · obtain rfl := List.mem_singleton.mp isReturn
          exact flags
    · exact isXmlText_of_mem_optional group optional
  · rw [paramNodes_eq]
    intro child member
    obtain ⟨placed, shown, rfl⟩ := List.mem_map.mp member
    obtain ⟨isName, isGroup⟩ :=
      params placed.1 (List.fst_mem_of_mem_zipIdx (List.mem_filter.mp shown).1)
    exact isWritable_paramNode isName isGroup

theorem isWritable_logMapNode {context : Context} {resolution : Resolution}
    (names : HasXmlNames context resolution)
    : (logMapNode context resolution).IsWritable := by
  refine isWritable_node (by decide +kernel) ["api", "class", "profile"] (List.Sublist.refl _)
    (by decide +kernel) ?_ ?_
  · intro attr member
    simp only [List.mem_cons, List.not_mem_nil, or_false] at member
    rcases member with rfl | rfl | rfl
    · exact isXmlText_title context.api
    · exact names.outputClass
    · exact names.profile
  · intro child member
    obtain ⟨command, active, rfl⟩ := List.mem_map.mp member
    obtain ⟨name, group, params⟩ := names.symbols command active
    exact isWritable_commandNode name group params

-----------------------------------------------------------------------------------------
-- Reading
-----------------------------------------------------------------------------------------

/-- An element that is read tells of a parameter what a log map says of it. -/
structure ShowsParam (isBitmaskGroup : String → Bool) (shown : Param × Nat) (element : Element)
    : Prop where
  name : element.name = "param"
  attributes
    : element.tag.attributes
      = [("index", toString shown.2), ("name", shown.1.name),
          ("flags", paramFlags isBitmaskGroup shown.1)]
        ++ optional "group" shown.1.group
  elements : element.elements = []

/-- An element that is read tells of a command what a log map says of it. -/
structure ShowsCommand (isBitmaskGroup : String → Bool) (command : Command) (element : Element)
    : Prop where
  name : element.name = "command"
  attributes
    : element.tag.attributes
      = [("name", command.name)]
        ++ (if returnFlags isBitmaskGroup command = "" then []
          else [("return", returnFlags isBitmaskGroup command)])
        ++ optional "return-group" command.returnGroup
  params
    : List.Forall₂ (ShowsParam isBitmaskGroup) (shownParams isBitmaskGroup command)
        element.elements

/-- A log map is read without a fault, as a root with an element for each of the active commands in
their order.
-/
structure IsReadBack [Library] (context : Context) (resolution : Resolution) (text : String)
    : Prop where
  fault : (Library.read text.toList).fault = none
  root
    : ∃ root,
        (Element.ofEvents (Library.read text.toList).events).elements = [root]
        ∧ root.name = "khronos-log-map"
        ∧ root.tag.attributes
          = [("api", context.api.title), ("class", context.outputClass),
              ("profile", resolution.profile.name)]
        ∧ List.Forall₂ (ShowsCommand resolution.registry.isBitmaskGroup)
            resolution.activeCommands root.elements

/-- Elements that are made of things show these things one by one. -/
theorem forall₂_of_map_bare {α : Type} {shows : α → Element → Prop} {things : List α}
    {elements : List Element} {make : α → Node}
    (same : elements.map Element.bare = (things.map make).filterMap Element.ofNode?)
    (made : ∀ thing, ∃ tag children, make thing = .element tag children)
    (each
      : ∀ thing element tag children,
          make thing = .element tag children
          → element.bare = { tag, children }
          → shows thing element)
    : List.Forall₂ shows things elements := by
  induction things generalizing elements with
  | nil =>
      obtain rfl := List.map_eq_nil_iff.mp same
      exact .nil
  | cons thing things ih =>
      obtain ⟨tag, children, isNode⟩ := made thing
      have isElement : Element.ofNode? (make thing) = some { tag, children } := by
        rw [isNode]
        rfl
      rw [List.map_cons, List.filterMap_cons_some isElement] at same
      obtain ⟨element, rest, rfl, isFirst, others⟩ := List.map_eq_cons_iff.mp same
      exact .cons (each thing element tag children isNode isFirst) (ih others)

theorem showsParam_of_bare {shown : Param × Nat} {element : Element} {tag : Tag}
    {children : List Node} (isNode : paramNode isBitmaskGroup shown = .element tag children)
    (same : element.bare = { tag, children })
    : ShowsParam isBitmaskGroup shown element := by
  cases isNode
  have isTag := congrArg Element.tag same
  refine ⟨congrArg Tag.name isTag, congrArg Tag.attributes isTag, ?_⟩
  have none := congrArg Element.elements same
  rw [Element.elements_bare] at none
  exact List.map_eq_nil_iff.mp none

theorem showsCommand_of_bare {command : Command} {element : Element} {tag : Tag}
    {children : List Node} (isNode : commandNode isBitmaskGroup command = .element tag children)
    (same : element.bare = { tag, children })
    : ShowsCommand isBitmaskGroup command element := by
  cases isNode
  have isTag := congrArg Element.tag same
  refine ⟨congrArg Tag.name isTag, congrArg Tag.attributes isTag, ?_⟩
  have params := congrArg Element.elements same
  rw [Element.elements_bare, paramNodes_eq] at params
  exact forall₂_of_map_bare params (fun _ => ⟨_, _, rfl⟩) fun _ _ _ _ => showsParam_of_bare

/-- A log map is read back, if what it shows can stand in a document. -/
theorem logMap_isReadBack [Library] [LawfulWriting] {context : Context} {resolution : Resolution}
    (names : HasXmlNames context resolution)
    : IsReadBack context resolution (logMap context resolution) := by
  have writable := isWritable_logMapNode names
  refine ⟨LawfulWriting.fault_write writable, ?_⟩
  have tree := Element.bare_read_write writable
  have roots
      : ((Element.ofEvents
            (Library.read (logMap context resolution).toList).events).elements.map Element.bare)
        = [logMapNode context resolution].filterMap Element.ofNode? := by
    rw [← Element.elements_bare, Element.elements, logMap, tree]
  obtain ⟨root, rest, shape, isRoot, others⟩ := List.map_eq_cons_iff.mp roots
  obtain rfl := List.map_eq_nil_iff.mp others
  have isTag := congrArg Element.tag isRoot
  have commands := congrArg Element.elements isRoot
  rw [Element.elements_bare] at commands
  refine ⟨root, shape, congrArg Tag.name isTag, congrArg Tag.attributes isTag, ?_⟩
  exact forall₂_of_map_bare commands (fun _ => ⟨_, _, rfl⟩) fun _ _ _ _ => showsCommand_of_bare

/-- A command whose second parameter and result need flags. -/
def boundBuffers : Records :=
  let origin := Origin.extension "X"
  let params := [
    Param.declare "count" "GLsizei",
    { Param.declare "target" "GLenum" with group := some "BufferTarget<T>" }
  ]
  {
    source := "x"
    commands := [
      { Command.declare "glBind" "GLenum" params origin "x" with returnGroup := some "Error" }
    ]
    extensions := [{
      name := "X"
      supported := ["gl"]
      requires := [{ commands := ["glBind"] }]
    }]
  }

def boundContext : Context where
  api := .gl
  outputClass := "gl"
  registry := Registry.ofRecords .gl [boundBuffers]

def boundResolution : Resolution :=
  boundContext.registry.resolve .core

theorem boundBuffers_isReadBack
    : HasXmlNames boundContext boundResolution
      ∧ boundResolution.activeCommands.map Command.name = ["glBind"]
      ∧ IsReadBack boundContext boundResolution (logMap boundContext boundResolution) :=
  have names : HasXmlNames boundContext boundResolution :=
    ⟨by decide +kernel, by decide +kernel, by decide +kernel⟩
  ⟨names, by decide +kernel, logMap_isReadBack names⟩

/-- Artifacts without symbols that are named after a control character. -/
def controlContext : Context where
  api := .gl
  outputClass := "\x01"
  registry := Registry.ofRecords .gl []

/-- What artifacts are named after is written as it is, also where no document can hold it. -/
theorem controlClass_not_readBack
    : HasXmlSymbols (controlContext.registry.resolve .all)
      ∧ ¬IsReadBack controlContext (controlContext.registry.resolve .all)
          (logMap controlContext (controlContext.registry.resolve .all)) := by
  refine ⟨by decide +kernel, fun isBack => ?_⟩
  have broken
      : (Library.read
          (logMap controlContext (controlContext.registry.resolve .all)).toList).fault ≠ none := by
    decide +kernel
  exact broken isBack.fault

end ApiBindings.Artifact
