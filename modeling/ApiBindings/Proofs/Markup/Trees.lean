import ApiBindings.Proofs.Markup.Library

/-! The tree of a document that is written and read again.
Without lines and texts, the tree that is built from pieces of a document is that of the starts and
ends of elements among them, and the starts and ends of the elements of a tree lead back to it.
-/

namespace ApiBindings.Markup

-----------------------------------------------------------------------------------------
-- Trees without lines and texts
-----------------------------------------------------------------------------------------

mutual

/-- A node without lines and texts, if it is an element. -/
def Node.bare? : Node → Option Node
  | .text _ => none
  | .element tag children => some (.element { tag with line := 0 } (bareNodes children))

def bareNodes : List Node → List Node
  | [] => []
  | node :: rest => node.bare?.toList ++ bareNodes rest

end

theorem bareNodes_eq (nodes : List Node) : bareNodes nodes = nodes.filterMap Node.bare? := by
  induction nodes with
  | nil => rfl
  | cons node rest ih =>
      rw [bareNodes, ih]
      cases bare : node.bare? with
      | none => rw [List.filterMap_cons_none bare]; rfl
      | some kept => rw [List.filterMap_cons_some bare]; rfl

namespace Element

/-- An element without lines and texts. -/
def bare (element : Element) : Element where
  tag := { element.tag with line := 0 }
  children := bareNodes element.children

/-- The elements below an element stay, without lines and texts of their own. By induction on the
children.
-/
theorem elements_bare (element : Element) : element.bare.elements = element.elements.map bare := by
  obtain ⟨tag, children⟩ := element
  unfold elements
  dsimp only [bare]
  induction children with
  | nil => rfl
  | cons node rest ih =>
      rw [bareNodes, List.filterMap_append, ih]
      cases node with
      | text content => rfl
      | element tag children => rfl

def Open.bare (element : Open) : Open where
  tag := { element.tag with line := 0 }
  children := bareNodes element.children

theorem Open.bare_add (element : Open) (node : Node)
    : (element.add node).bare
      = { element.bare with children := node.bare?.toList ++ element.bare.children } :=
  rfl

theorem Open.bare?_close (element : Open) : element.close.bare? = some element.bare.close := by
  simp [close, bare, Node.bare?, bareNodes_eq]

def Path.bare (path : Path) : Path where
  inner := path.inner.bare
  outer := path.outer.map Open.bare

/-- Lines and texts make no difference to the way through a tree. -/
theorem Path.bare_step (path : Path) (event : Event)
    : (path.step event).bare = event.bare?.elim path.bare path.bare.step := by
  obtain ⟨inner, outer⟩ := path
  cases event with
  | opened tag => rfl
  | text content => rfl
  | instruction => rfl
  | closed =>
      cases outer with
      | nil => rfl
      | cons parent outer =>
          rw [Event.bare?, Option.elim_some, step, step, bare, Open.bare_add, Open.bare?_close]
          rfl

/-- By induction on the pieces, from any path. -/
theorem Path.bare_foldl_step (path : Path) (events : List Event)
    : (events.foldl step path).bare = (events.filterMap Event.bare?).foldl step path.bare := by
  induction events generalizing path with
  | nil => rfl
  | cons event events ih =>
      rw [List.foldl_cons, ih, bare_step]
      cases kept : event.bare? with
      | none => rw [List.filterMap_cons_none kept]; rfl
      | some bare => rw [List.filterMap_cons_some kept]; rfl

theorem Path.bare_finish (path : Path) : path.finish.bare = path.bare.finish := by
  obtain ⟨inner, outer⟩ := path
  have closed
      : (outer.foldl (fun inner parent => parent.add inner.close) inner).bare
        = (outer.map Open.bare).foldl (fun inner parent => parent.add inner.close)
            inner.bare := by
    induction outer generalizing inner with
    | nil => rfl
    | cons parent outer ih =>
        rw [List.foldl_cons, ih, Open.bare_add, Open.bare?_close]
        rfl
  unfold finish
  dsimp only [bare]
  rw [← closed]
  simp [Element.bare, Open.bare, bareNodes_eq]

/-- Without lines and texts, a tree is that of the pieces that are neither. -/
theorem bare_ofEvents (events : List Event)
    : (ofEvents events).bare = ofEvents (events.filterMap Event.bare?) := by
  rw [ofEvents, Path.bare_finish, Path.bare_foldl_step]
  rfl

-----------------------------------------------------------------------------------------
-- Trees that are written
-----------------------------------------------------------------------------------------

/-- The starts and ends of a node lead around it. By induction on the node. -/
theorem Path.foldl_step_events {node : Node} (writable : node.IsWritable) (path : Path)
    : node.events.foldl step path = { path with inner := path.inner.add node } := by
  induction writable generalizing path with
  | @element tag children _ _ ih =>
      have inside (nodes : List Node) (among : ∀ node ∈ nodes, node ∈ children) (path : Path)
          : (nodes.flatMap Node.events).foldl step path
            = { path with
                inner := { path.inner with
                  children := nodes.reverse ++ path.inner.children } } := by
        induction nodes generalizing path with
        | nil => rfl
        | cons node rest later =>
            obtain ⟨first, others⟩ := List.forall_mem_cons.mp among
            rw [List.flatMap_cons, List.foldl_append, ih node first, later others,
              List.reverse_cons, List.append_assoc]
            rfl
      rw [Node.events, List.foldl_cons, List.foldl_append, eventsOfNodes_eq,
        inside children fun _ => id]
      simp [step, Open.add, Open.close]

/-- A document that is written is read as the tree that it was written from. -/
theorem bare_read_write [Library] [LawfulWriting] {root : Node} (writable : root.IsWritable)
    : (ofEvents (Library.read (Library.write root).toList).events).bare.children = [root] := by
  rw [bare_ofEvents, LawfulWriting.events_write writable, ofEvents,
    Path.foldl_step_events writable]
  rfl

end Element

end ApiBindings.Markup
