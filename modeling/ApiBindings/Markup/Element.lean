import ApiBindings.Markup.Event
import ApiBindings.Text.Blank

/-! The element tree of a document.
The tree is built from the events in their order. Elements that a document leaves open are closed
at its end, so everything that was read before an error is in the tree.
-/

namespace ApiBindings.Markup

inductive Node where
  | text (content : String)
  | element (tag : Tag) (children : List Node)
  deriving Repr

structure Element where
  tag : Tag
  children : List Node
  deriving Repr

mutual

/-- The text below a node, except for what stands in elements named `skip`. -/
def Node.textOutside (skip : Option String) : Node → List Char
  | .text content => content.toList
  | .element tag children =>
      if skip = some tag.name then [] else textOfNodes skip children

def textOfNodes (skip : Option String) : List Node → List Char
  | [] => []
  | node :: rest => node.textOutside skip ++ textOfNodes skip rest

end

namespace Element

def name (element : Element) : String :=
  element.tag.name

def attribute? (element : Element) (name : String) : Option String :=
  element.tag.attribute? name

def ofNode? : Node → Option Element
  | .element tag children => some { tag, children }
  | .text _ => none

/-- The elements right below an element. -/
def elements (element : Element) : List Element :=
  element.children.filterMap ofNode?

/-- The elements of a name right below an element. -/
def named (element : Element) (name : String) : List Element :=
  element.elements.filter fun child => child.name == name

def child? (element : Element) (name : String) : Option Element :=
  element.elements.find? fun child => child.name == name

/-- The words below an element, except for what stands in elements named `skip`. -/
def textOutside (element : Element) (skip : Option String) : String :=
  String.ofList (Text.collapse (textOfNodes skip element.children))

def text (element : Element) : String :=
  element.textOutside none

/-- An element that is still open, its children in reverse. -/
structure Open where
  tag : Tag
  children : List Node

def Open.add (element : Open) (node : Node) : Open :=
  { element with children := node :: element.children }

def Open.close (element : Open) : Node :=
  .element element.tag element.children.reverse

/-- The innermost open element and those around it, from the inside out. -/
structure Path where
  inner : Open
  outer : List Open

namespace Path

/-- The path at the start: nothing but the document itself, which is on no line. -/
def root : Path where
  inner := { tag := { name := "#document", attributes := [], line := 0 }, children := [] }
  outer := []

/-- Takes one event. The document itself is never closed. -/
def step (path : Path) : Event → Path
  | .opened tag => { inner := { tag, children := [] }, outer := path.inner :: path.outer }
  | .closed =>
      match path.outer with
      | [] => path
      | parent :: outer => { inner := parent.add path.inner.close, outer }
  | .text content => { path with inner := path.inner.add (.text content) }
  | .instruction => path

/-- Closes every element that is still open. -/
def finish (path : Path) : Element :=
  let document := path.outer.foldl (fun inner parent => parent.add inner.close) path.inner
  { tag := document.tag, children := document.children.reverse }

end Path

/-- The tree of a document, as an element that stands for the document itself. -/
def ofEvents (events : List Event) : Element :=
  (events.foldl Path.step Path.root).finish

end Element

end ApiBindings.Markup
