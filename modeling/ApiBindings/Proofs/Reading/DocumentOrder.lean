import ApiBindings.Proofs.Markup.Truncation
import ApiBindings.Proofs.Reading.SyntaxErrors

/-! The tree of a document as an image of its pieces.
Listed in document order, the tree gives back the pieces it was built from, but for instructions,
and an end for each element that was left open. No other tree is listed like that.
-/

namespace ApiBindings

namespace Markup

-----------------------------------------------------------------------------------------
-- Listings
-----------------------------------------------------------------------------------------

mutual

/-- The starts, texts and ends that a node stands for, in document order. -/
def Node.listing : Node → List Event
  | .text content => [.text content]
  | .element tag children => .opened tag :: (listingOfNodes children ++ [.closed])

def listingOfNodes : List Node → List Event
  | [] => []
  | node :: rest => node.listing ++ listingOfNodes rest

end

theorem listingOfNodes_append (front back : List Node)
    : listingOfNodes (front ++ back) = listingOfNodes front ++ listingOfNodes back := by
  induction front with
  | nil => rfl
  | cons node front ih =>
      rw [List.cons_append, listingOfNodes, ih, listingOfNodes, List.append_assoc]

theorem listingOfNodes_singleton (node : Node) : listingOfNodes [node] = node.listing := by
  simp [listingOfNodes]

/-- Whether a piece is a part of an element. -/
def Event.isListed : Event → Bool
  | .instruction => false
  | _ => true

/-- How many elements are open behind a piece. An end needs one that it closes. -/
def Event.depth? (opened : Nat) : Event → Option Nat
  | .opened _ => some (opened + 1)
  | .closed => if opened = 0 then none else some (opened - 1)
  | .text _ | .instruction => some opened

/-- How many elements are open behind pieces that are properly nested. -/
def depthBehind? (opened : Nat) (events : List Event) : Option Nat :=
  events.foldlM Event.depth? opened

namespace Element

-----------------------------------------------------------------------------------------
-- The listing of a path
-----------------------------------------------------------------------------------------

namespace Path

/-- What a path has so far, in document order, without the ends of what is open. -/
def listingIn (inner : Open) : List Open → List Event
  | [] => listingOfNodes inner.nodes
  | parent :: outer => listingIn parent outer ++ .opened inner.tag :: listingOfNodes inner.nodes

def listing (path : Path) : List Event :=
  listingIn path.inner path.outer

/-- One more child stands behind all else that there is so far. -/
theorem listingIn_add (inner : Open) (node : Node) (outer : List Open)
    : listingIn (inner.add node) outer = listingIn inner outer ++ node.listing := by
  have nodes
      : listingOfNodes (inner.add node).nodes = listingOfNodes inner.nodes ++ node.listing := by
    rw [Open.nodes_add, listingOfNodes_append, listingOfNodes_singleton]
  cases outer with
  | nil => exact nodes
  | cons parent outer =>
      rw [listingIn, listingIn, nodes, List.append_assoc, List.cons_append]
      rfl

theorem listingIn_add_close (inner parent : Open) (outer : List Open)
    : listingIn (parent.add inner.close) outer
      = listingIn inner (parent :: outer) ++ [.closed] := by
  rw [listingIn_add, listingIn, Open.close, Node.listing, List.append_assoc, List.cons_append]
  rfl

/-- A piece that is properly nested stands behind what there is so far. -/
theorem listing_step {path : Path} {event : Event} {opened : Nat}
    (nested : event.depth? path.outer.length = some opened)
    : (path.step event).listing = path.listing ++ [event].filter Event.isListed
      ∧ (path.step event).outer.length = opened := by
  obtain ⟨inner, outer⟩ := path
  cases event with
  | opened tag =>
      cases nested
      exact ⟨rfl, rfl⟩
  | text content =>
      cases nested
      exact ⟨listingIn_add inner (.text content) outer, rfl⟩
  | instruction =>
      cases nested
      exact ⟨(List.append_nil _).symm, rfl⟩
  | closed =>
      cases outer with
      | nil => cases nested
      | cons parent outer =>
          cases nested
          exact ⟨listingIn_add_close inner parent outer, rfl⟩

/-- By induction on the pieces, each of which is one step. -/
theorem listing_foldl_step (path : Path) {events : List Event} {opened : Nat}
    (nested : depthBehind? path.outer.length events = some opened)
    : (events.foldl step path).listing = path.listing ++ events.filter Event.isListed
      ∧ (events.foldl step path).outer.length = opened := by
  induction events generalizing path with
  | nil =>
      cases nested
      exact ⟨(List.append_nil _).symm, rfl⟩
  | cons event events ih =>
      rw [depthBehind?, List.foldlM_cons, Option.bind_eq_bind, Option.bind_eq_some_iff] at nested
      obtain ⟨between, first, later⟩ := nested
      obtain ⟨listed, length⟩ := listing_step first
      obtain ⟨allListed, allLength⟩ := ih (path.step event) (length ▸ later)
      refine ⟨?_, allLength⟩
      calc
        _ = (path.step event).listing ++ events.filter Event.isListed := allListed
        _ = path.listing ++ ([event].filter Event.isListed ++ events.filter Event.isListed) := by
          rw [listed, List.append_assoc]
        _ = path.listing ++ (event :: events).filter Event.isListed := by
          rw [← List.filter_append]
          rfl

/-- At the end of the document every element that is open gets its end. By induction on what stands
around the innermost one.
-/
theorem listing_finish (path : Path)
    : listingOfNodes path.finish.children
      = path.listing ++ List.replicate path.outer.length .closed := by
  obtain ⟨inner, outer⟩ := path
  induction outer generalizing inner with
  | nil => exact (List.append_nil _).symm
  | cons parent outer ih =>
      calc
        _ = listingIn (parent.add inner.close) outer ++ List.replicate outer.length .closed :=
          ih (parent.add inner.close)
        _ = listingIn inner (parent :: outer) ++ List.replicate (outer.length + 1) .closed := by
          rw [listingIn_add_close, List.append_assoc, List.replicate_succ]
          rfl

end Path

-----------------------------------------------------------------------------------------
-- Reading a listing
-----------------------------------------------------------------------------------------

/-- An open element behind further children. -/
def Open.addAll (element : Open) (nodes : List Node) : Open :=
  nodes.foldl Open.add element

theorem Open.addAll_eq (element : Open) (nodes : List Node)
    : element.addAll nodes = { element with children := nodes.reverse ++ element.children } := by
  induction nodes generalizing element with
  | nil => rfl
  | cons node nodes ih =>
      rw [addAll, List.foldl_cons, ← addAll, ih, add, List.reverse_cons, List.append_assoc]
      rfl

mutual

/-- The pieces of a node make the node. By induction on the node and its children. -/
theorem foldl_step_listing (path : Path) (node : Node)
    : node.listing.foldl Path.step path = { path with inner := path.inner.add node } := by
  cases node with
  | text content => rfl
  | element tag children =>
      rw [Node.listing, List.foldl_cons, List.foldl_append, foldl_step_listingOfNodes]
      simp [Path.step, Open.addAll_eq, Open.close]

theorem foldl_step_listingOfNodes (path : Path) (nodes : List Node)
    : (listingOfNodes nodes).foldl Path.step path
      = { path with inner := path.inner.addAll nodes } := by
  cases nodes with
  | nil => rfl
  | cons node nodes =>
      rw [listingOfNodes, List.foldl_append, foldl_step_listing, foldl_step_listingOfNodes]
      rfl

end

theorem children_ofEvents_listingOfNodes (nodes : List Node)
    : (ofEvents (listingOfNodes nodes)).children = nodes := by
  rw [ofEvents, foldl_step_listingOfNodes, Open.addAll_eq]
  simp [Path.finish, Path.root]

/-- Nodes are known by their listing. -/
theorem listingOfNodes_inj {nodes others : List Node}
    : listingOfNodes nodes = listingOfNodes others ↔ nodes = others := by
  constructor
  · intro same
    rw [← children_ofEvents_listingOfNodes nodes, same, children_ofEvents_listingOfNodes]
  · exact congrArg listingOfNodes

/-- The children of the document are the only nodes with this listing. -/
theorem eq_children_ofEvents_iff {events : List Event} {opened : Nat}
    (nested : depthBehind? 0 events = some opened) (children : List Node)
    : children = (ofEvents events).children
      ↔ listingOfNodes children
        = events.filter Event.isListed ++ List.replicate opened .closed := by
  obtain ⟨listed, length⟩ := Path.listing_foldl_step Path.root nested
  have whole
      : listingOfNodes (ofEvents events).children
        = events.filter Event.isListed ++ List.replicate opened .closed := by
    rw [ofEvents, Path.listing_finish, listed, length]
    rfl
  rw [← whole, listingOfNodes_inj]

end Element

end Markup

-----------------------------------------------------------------------------------------
-- Documents
-----------------------------------------------------------------------------------------

namespace Document

open ApiBindings.Markup

/-- The tree of a document whose pieces are properly nested is the one whose listing is that of the
elements and texts among the pieces, with an end for each element that is still open. There is a
syntax error exactly if the pieces end in one.
-/
theorem ofEvents_nested (source : Source) (reading : Reading) {opened : Nat}
    (nested : depthBehind? 0 reading.events = some opened)
    : (∀ children,
          children = (Element.ofEvents reading.events).children
          ↔ listingOfNodes children
            = reading.events.filter Event.isListed ++ List.replicate opened .closed)
      ∧ (records source reading.fault (Element.ofEvents reading.events)).syntaxErrors
        = reading.fault.toList.map fun line => {
            input := source.name
            element := "document"
            problem := .malformed
            line := some line
          } :=
  ⟨Element.eq_children_ofEvents_iff nested, syntaxErrors_records source reading.fault _⟩

/-- A document that breaks off inside of the second element. -/
def brokenOff : Reading where
  events :=
    [
      .instruction,
      .opened { name := "registry", attributes := [], line := 2 },
      .opened { name := "enum", attributes := [("name", "GL_ONE")], line := 3 },
      .closed,
      .text " and ",
      .opened { name := "enum", attributes := [], line := 3 },
      .text "more"
    ]
  fault := some 4

theorem brokenOff_nested
    : depthBehind? 0 brokenOff.events = some 2
      ∧ (Element.ofEvents brokenOff.events).children
        = [
          .element { name := "registry", attributes := [], line := 2 } [
            .element { name := "enum", attributes := [("name", "GL_ONE")], line := 3 } [],
            .text " and ",
            .element { name := "enum", attributes := [], line := 3 } [.text "more"]
          ]
        ]
      ∧ (records { name := "gl.xml", api := none } (some 4)
            (Element.ofEvents brokenOff.events)).syntaxErrors.length
        = 1 := by
  obtain ⟨image, syntaxError⟩ :=
    ofEvents_nested { name := "gl.xml", api := none } brokenOff
      (show depthBehind? 0 brokenOff.events = some 2 from rfl)
  exact ⟨rfl, ((image _).mpr rfl).symm, congrArg List.length syntaxError⟩

end Document

end ApiBindings
