import ApiBindings.Document.Reader

/-! Documents without some of their elements.
Readers come to an element by the names of the elements around it. Its place says which elements
right below it they read, and which of these they pass over if they are for another interface.
A document from which the elements that are passed over are deleted has the same elements for the
readers to come to, in the same order.
-/

namespace ApiBindings.Document

open ApiBindings.Markup

-----------------------------------------------------------------------------------------
-- Places
-----------------------------------------------------------------------------------------

/-- Where an element of a document stands, as the readers see it. -/
inductive Place where
  | document
  /-- Anywhere below an element of the document that is no registry. -/
  | outside
  | registry
  | types
  | enums
  | groups
  | group
  | commands
  | command
  | feature
  | extensions
  | extension
  /-- In what a feature or an extension requires or removes. -/
  | block
  /-- Anywhere in an element that is read for its text. -/
  | text
  /-- Anywhere in a registry that no reader comes to. -/
  | unread
  deriving DecidableEq, Repr

/-- An element lists interfaces, and the given one is not among them. -/
def isForeign (interface : String) (tag : Tag) : Bool :=
  (tag.attribute? "api").any fun list => !lists list interface

namespace Place

/-- The place below an element of a name. -/
def below (place : Place) (name : String) : Place :=
  match place with
  | document => if name = "registry" then registry else outside
  | outside => outside
  | registry =>
      if name = "types" then types
      else if name = "enums" then enums
      else if name = "groups" then groups
      else if name = "commands" then commands
      else if name = "feature" then feature
      else if name = "extensions" then extensions
      else unread
  | types => if name = "type" then text else unread
  | groups => if name = "group" then group else unread
  | commands => if name = "command" then command else unread
  | command => if name = "proto" ∨ name = "param" then text else unread
  | feature => if name = "require" ∨ name = "remove" then block else unread
  | extensions => if name = "extension" then extension else unread
  | extension => if name = "require" then block else unread
  | text => text
  | enums | group | block | unread => unread

/-- The names of the elements that are read for their interfaces only. -/
def filtered : Place → List String
  | registry => ["feature"]
  | types => ["type"]
  | enums => ["enum"]
  | commands => ["command"]
  | command => ["param"]
  | feature => ["require", "remove"]
  | extension => ["require"]
  | block => ["enum", "command", "type"]
  | _ => []

/-- The names of the elements that are read for all interfaces. -/
def unfiltered : Place → List String
  | document => ["registry"]
  | registry => ["types", "enums", "groups", "commands", "extensions"]
  | groups => ["group"]
  | group => ["enum"]
  | command => ["proto", "alias"]
  | extensions => ["extension"]
  | _ => []

/-- Whether readers come to an element of a name. Text is all of the text below an element. -/
def reads (place : Place) (name : String) : Bool :=
  place.filtered.contains name || place.unfiltered.contains name || place == .text

/-- Whether the readers for an interface pass over an element. -/
def skips (interface : String) (place : Place) (tag : Tag) : Bool :=
  place.filtered.contains tag.name && isForeign interface tag

/-- Whether an element at the place is below a registry. -/
def isInRegistry (place : Place) : Bool :=
  place != .document && place != .outside

/-- Whether an element below a registry is for another interface. -/
def isForeign (interface : String) (place : Place) (tag : Tag) : Bool :=
  place.isInRegistry && Document.isForeign interface tag

end Place

-----------------------------------------------------------------------------------------
-- Pruned elements
-----------------------------------------------------------------------------------------

section

variable (deletes : Place → Tag → Bool)

mutual

/-- What is left of a node at a place when elements are deleted with all that is in them. -/
def prunedNode (place : Place) : Node → List Node
  | .text content => [.text content]
  | .element tag children =>
      if deletes place tag then
        []
      else
        [.element tag (prunedNodes (place.below tag.name) children)]

def prunedNodes (place : Place) : List Node → List Node
  | [] => []
  | node :: rest => prunedNode place node ++ prunedNodes place rest

end

/-- An element around a place, without what is deleted below it. -/
def pruned (place : Place) (element : Element) : Element where
  tag := element.tag
  children := prunedNodes deletes place element.children

end

mutual

/-- The elements that the readers for an interface come to, each with its place. -/
def visitedNode (interface : String) (place : Place) : Node → List (Place × Tag)
  | .text _ => []
  | .element tag children =>
      if place.reads tag.name then
        (place, tag) ::
          if place.skips interface tag then
            []
          else
            visitedNodes interface (place.below tag.name) children
      else
        []

def visitedNodes (interface : String) (place : Place) : List Node → List (Place × Tag)
  | [] => []
  | node :: rest => visitedNode interface place node ++ visitedNodes interface place rest

end

/-- The elements below an element that the readers for an interface come to. -/
def visited (interface : String) (place : Place) (element : Element) : List (Place × Tag) :=
  visitedNodes interface place element.children

/-- Of the elements that readers come to, just those are deleted that they pass over. -/
def Agrees (interface : String) (deletes : Place → Tag → Bool) (place : Place)
    (element : Element)
    : Prop :=
  ∀ visit ∈ visited interface place element,
    deletes visit.1 visit.2 = visit.1.skips interface visit.2

variable {interface : String} {deletes : Place → Tag → Bool} {place : Place} {element : Element}

/-- The elements below a pruned element are those that are not deleted, pruned in turn. By induction
on the nodes below it.
-/
theorem elements_pruned (deletes : Place → Tag → Bool) (place : Place) (element : Element)
    : (pruned deletes place element).elements
      = (element.elements.filter fun child => !deletes place child.tag).map fun child =>
          pruned deletes (place.below child.name) child := by
  unfold pruned Element.elements
  dsimp only
  induction element.children with
  | nil => rfl
  | cons node rest ih =>
      rw [prunedNodes, List.filterMap_append, ih]
      cases node with
      | text content => rfl
      | element tag children =>
          rw [prunedNode]
          cases deleted : deletes place tag with
          | true => simp [Element.ofNode?, deleted]
          | false => simp [Element.ofNode?, deleted, Element.name]

/-- The elements of one name below a pruned element. -/
theorem named_pruned (deletes : Place → Tag → Bool) (place : Place) (element : Element)
    (name : String)
    : (pruned deletes place element).named name
      = ((element.named name).filter fun child => !deletes place child.tag).map
          (pruned deletes (place.below name)) := by
  unfold Element.named
  rw [elements_pruned, List.filter_map, List.filter_filter, List.filter_filter]
  have same
      : (element.elements.filter fun child =>
            ((·.name == name) ∘ fun child => pruned deletes (place.below child.name) child) child
            && !deletes place child.tag)
        = element.elements.filter fun child => !deletes place child.tag && child.name == name := by
    refine List.filter_congr fun child _ => ?_
    exact Bool.and_comm _ _
  rw [same]
  refine List.map_congr_left fun child member => ?_
  have named := (Bool.and_eq_true_iff.mp (List.mem_filter.mp member).2).2
  rw [eq_of_beq named]

theorem mem_elements_iff {child : Element}
    : child ∈ element.elements ↔ .element child.tag child.children ∈ element.children := by
  unfold Element.elements
  rw [List.mem_filterMap]
  constructor
  · rintro ⟨node, member, found⟩
    cases node with
    | text content => cases found
    | element tag children =>
        obtain rfl := Option.some.inj found
        exact member
  · exact fun member => ⟨_, member, rfl⟩

theorem visitedNode_subset {node : Node} {nodes : List Node} (member : node ∈ nodes)
    : visitedNode interface place node ⊆ visitedNodes interface place nodes := by
  induction nodes with
  | nil => cases member
  | cons first rest ih =>
      rw [visitedNodes]
      rcases List.mem_cons.mp member with rfl | later
      · exact List.subset_append_left _ _
      · exact List.Subset.trans (ih later) (List.subset_append_right _ _)

/-- What is deleted of the elements that are read right below an element. -/
theorem Agrees.deletes_eq (agrees : Agrees interface deletes place element) {child : Element}
    (member : child ∈ element.elements) (reads : place.reads child.tag.name = true)
    : deletes place child.tag = place.skips interface child.tag := by
  refine agrees (place, child.tag) (visitedNode_subset (mem_elements_iff.mp member) ?_)
  rw [visitedNode, if_pos reads]
  exact List.mem_cons_self

/-- Below an element that is read, the same elements are deleted as are passed over. -/
theorem Agrees.child (agrees : Agrees interface deletes place element) {child : Element}
    (member : child ∈ element.elements) (reads : place.reads child.tag.name = true)
    (kept : place.skips interface child.tag = false)
    : Agrees interface deletes (place.below child.tag.name) child := by
  intro visit below
  refine agrees visit (visitedNode_subset (mem_elements_iff.mp member) ?_)
  rw [visitedNode, if_pos reads, kept]
  exact List.mem_cons_of_mem _ below

mutual

theorem prunedNode_text (node : Node)
    (agrees
      : ∀ visit ∈ visitedNode interface .text node,
          deletes visit.1 visit.2 = visit.1.skips interface visit.2)
    : prunedNode deletes .text node = [node] := by
  cases node with
  | text content => rfl
  | element tag children =>
      have visits
          : visitedNode interface .text (.element tag children)
            = (.text, tag) :: visitedNodes interface .text children := by
        have reads : Place.text.reads tag.name = true := rfl
        rw [visitedNode, if_pos reads]
        rfl
      rw [visits] at agrees
      obtain ⟨here, below⟩ := List.forall_mem_cons.mp agrees
      have kept : deletes .text tag = false := here
      rw [prunedNode, kept, Place.below, prunedNodes_text children below]
      rfl

theorem prunedNodes_text (nodes : List Node)
    (agrees
      : ∀ visit ∈ visitedNodes interface .text nodes,
          deletes visit.1 visit.2 = visit.1.skips interface visit.2)
    : prunedNodes deletes .text nodes = nodes := by
  cases nodes with
  | nil => rfl
  | cons first rest =>
      rw [visitedNodes] at agrees
      obtain ⟨here, later⟩ := List.forall_mem_append.mp agrees
      rw [prunedNodes, prunedNode_text first here, prunedNodes_text rest later]
      rfl

end

/-- Text is never passed over, so an element that is read for its text stays as it is. -/
theorem Agrees.pruned_text (agrees : Agrees interface deletes .text element)
    : pruned deletes .text element = element := by
  rw [pruned, prunedNodes_text element.children agrees]

end ApiBindings.Document
