import ApiBindings.Markup.Element

/-! The tree of a document that is cut short, and the tree of the whole.
What stands before the elements that are open at the cut is the same in both. Of an open element the
whole may have more children, and more may follow behind it.
-/

namespace ApiBindings.Markup

-----------------------------------------------------------------------------------------
-- Cut trees
-----------------------------------------------------------------------------------------

/-- Nodes that are cut short and the whole ones. The elements that the cut leaves open are given as
they are at the cut, the outermost first.
-/
inductive Truncates : List Element → List Node → List Node → Prop where
  | complete (nodes later : List Node) : Truncates [] nodes (nodes ++ later)
  | inside {opened : List Element} {cut whole : List Node} (front : List Node) (tag : Tag)
      (later : List Node) (truncates : Truncates opened cut whole)
    : Truncates ({ tag, children := cut } :: opened) (front ++ [.element tag cut])
        (front ++ .element tag whole :: later)

namespace Truncates

variable {opened : List Element} {cut whole : List Node}

theorem self (nodes : List Node) : Truncates [] nodes nodes := by
  simpa using complete nodes []

theorem exists_of_complete (truncates : Truncates [] cut whole)
    : ∃ later, whole = cut ++ later := by
  cases truncates with
  | complete _ later => exact ⟨later, rfl⟩

theorem of_complete {more : List Node} (truncates : Truncates [] (cut ++ more) whole)
    : Truncates [] cut whole := by
  obtain ⟨later, rfl⟩ := truncates.exists_of_complete
  rw [List.append_assoc]
  exact .complete cut (more ++ later)

/-- The node behind which the cut comes goes on in the whole, as far as it is open. -/
theorem exists_of_concat {front : List Node} {tag : Tag}
    (truncates : Truncates ({ tag, children := cut } :: opened) (front ++ [.element tag cut]) whole)
    : ∃ inner later,
        whole = front ++ .element tag inner :: later ∧ Truncates opened cut inner := by
  generalize shape : front ++ [.element tag cut] = nodes at truncates
  cases truncates with
  | inside front' _ later truncates =>
      obtain ⟨rfl, -⟩ := List.append_inj' shape rfl
      exact ⟨_, later, rfl, truncates⟩

end Truncates

/-- Elements side by side that are cut short and the whole ones: either all are complete, or the
last one is open and goes on in the whole.
-/
inductive TruncatesElements : List Element → List Element → List Element → Prop where
  | complete (elements later : List Element) : TruncatesElements [] elements (elements ++ later)
  | inside {opened : List Element} (front : List Element) (short long : Element)
      (later : List Element) (same : long.tag = short.tag)
      (truncates : Truncates opened short.children long.children)
    : TruncatesElements (short :: opened) (front ++ [short]) (front ++ long :: later)

theorem Truncates.elements {opened : List Element} {short long : Element}
    (truncates : Truncates opened short.children long.children)
    : TruncatesElements opened short.elements long.elements := by
  unfold Element.elements
  generalize short.children = cut, long.children = whole at truncates
  cases truncates with
  | complete nodes later =>
      rw [List.filterMap_append]
      exact .complete _ _
  | @inside inner cut whole front tag later truncates =>
      rw [List.filterMap_append, List.filterMap_append]
      exact .inside _ _ { tag, children := whole } _ rfl truncates

/-- What is told by tags is told of an open element as of the whole one. -/
theorem TruncatesElements.filter {opened cut whole : List Element}
    (truncates : TruncatesElements opened cut whole) (keeps : Element → Bool)
    (byTag : ∀ one other : Element, one.tag = other.tag → keeps one = keeps other)
    : TruncatesElements (if opened.head?.any keeps then opened else []) (cut.filter keeps)
        (whole.filter keeps) := by
  cases truncates with
  | complete elements later =>
      rw [List.filter_append]
      exact .complete _ _
  | inside front short long later same truncates =>
      have alike := byTag long short same
      rw [List.filter_append, List.filter_append, List.head?_cons, Option.any_some]
      cases kept : keeps short with
      | true =>
          rw [kept] at alike
          rw [List.filter_cons_of_pos kept, List.filter_cons_of_pos alike, List.filter_nil,
            if_pos rfl]
          exact .inside _ short long _ same truncates
      | false =>
          rw [kept] at alike
          rw [List.filter_cons_of_neg (by simp [kept]), List.filter_cons_of_neg (by simp [alike]),
            List.filter_nil, List.append_nil, if_neg (by decide)]
          exact .complete _ _

-----------------------------------------------------------------------------------------
-- Paths
-----------------------------------------------------------------------------------------

namespace Element

/-- The children of an open element in their order. -/
def Open.nodes (element : Open) : List Node :=
  element.children.reverse

theorem Open.nodes_add_close (parent inner : Open)
    : (parent.add inner.close).nodes = parent.nodes ++ [.element inner.tag inner.nodes] := by
  simp [nodes, add, close]

theorem Open.nodes_add (element : Open) (node : Node)
    : (element.add node).nodes = element.nodes ++ [node] := by
  simp [nodes, add]

namespace Path

/-- The elements that are open, the outermost first, with what they have so far. -/
def openedIn (inner : Open) : List Open → List Element
  | [] => []
  | parent :: outer =>
      openedIn (parent.add inner.close) outer ++ [{ tag := inner.tag, children := inner.nodes }]

def opened (path : Path) : List Element :=
  openedIn path.inner path.outer

/-- The children of the document if all that is open is closed. -/
def nodes (path : Path) : List Node :=
  path.finish.children

theorem nodes_cons (inner parent : Open) (outer : List Open)
    : nodes { inner, outer := parent :: outer }
      = nodes { inner := parent.add inner.close, outer } :=
  rfl

/-- What truncates the innermost element truncates the document. By induction on the elements
around it.
-/
theorem truncates_outwards (small large : Open) (same : small.tag = large.tag)
    {opened longer : List Element}
    (inside : ∀ whole, Truncates longer large.nodes whole → Truncates opened small.nodes whole)
    (outer : List Open) {whole : List Node}
    (truncates
      : Truncates (openedIn large outer ++ longer) (nodes { inner := large, outer }) whole)
    : Truncates (openedIn small outer ++ opened) (nodes { inner := small, outer }) whole := by
  induction outer generalizing small large opened longer with
  | nil => exact inside whole truncates
  | cons parent outer ih =>
      rw [openedIn, List.append_assoc, List.singleton_append, nodes_cons] at truncates ⊢
      refine ih (parent.add small.close) (parent.add large.close) rfl (fun whole truncates => ?_)
        truncates
      rw [Open.nodes_add_close] at truncates ⊢
      obtain ⟨inner, later, rfl, within⟩ := truncates.exists_of_concat
      rw [← same]
      exact .inside _ _ later (inside inner within)

/-- What is complete when an element is closed is truncated while it is open. -/
theorem truncates_of_close {inner parent : Open} {outer : List Open} {whole : List Node}
    (truncates
      : Truncates (openedIn (parent.add inner.close) outer)
          (nodes { inner := parent.add inner.close, outer }) whole)
    : Truncates (openedIn inner (parent :: outer)) (nodes { inner, outer := parent :: outer })
        whole := by
  rw [← List.append_nil (openedIn _ _)] at truncates
  refine truncates_outwards (parent.add inner.close) (parent.add inner.close) rfl
    (fun whole truncates => ?_) outer truncates
  rw [Open.nodes_add_close] at truncates ⊢
  obtain ⟨later, rfl⟩ := truncates.exists_of_complete
  rw [List.append_assoc, List.singleton_append]
  exact .inside parent.nodes inner.tag later (.self inner.nodes)

/-- A path that goes one event further has what was there before, as far as it was complete. -/
theorem truncates_step {path : Path} (event : Event) {whole : List Node}
    (truncates : Truncates (path.step event).opened (path.step event).nodes whole)
    : Truncates path.opened path.nodes whole := by
  obtain ⟨inner, outer⟩ := path
  cases event with
  | instruction => exact truncates
  | text content =>
      rw [← List.append_nil (opened _)] at truncates ⊢
      refine truncates_outwards inner (inner.add (.text content)) rfl (fun whole truncates => ?_)
        outer truncates
      rw [Open.nodes_add] at truncates
      exact truncates.of_complete
  | opened tag =>
      rw [← List.append_nil (opened _)]
      refine truncates_outwards inner (inner.add (.element tag [])) rfl (fun whole truncates => ?_)
        outer truncates
      rw [Open.nodes_add] at truncates
      obtain ⟨children, later, rfl, -⟩ := truncates.exists_of_concat
      exact .complete inner.nodes _
  | closed =>
      cases outer with
      | nil => exact truncates
      | cons parent outer => exact truncates_of_close truncates

theorem truncates_self (path : Path) : Truncates path.opened path.nodes path.nodes := by
  obtain ⟨inner, outer⟩ := path
  induction outer generalizing inner with
  | nil => exact .self inner.nodes
  | cons parent outer ih => exact truncates_of_close (ih (parent.add inner.close))

/-- Whatever events follow, what is there so far is the tree of all of them cut short. By induction
on the events.
-/
theorem truncates_foldl_step (path : Path) (events : List Event)
    : Truncates path.opened path.nodes (events.foldl step path).nodes := by
  induction events generalizing path with
  | nil => exact truncates_self path
  | cons event events ih => exact truncates_step event (ih (path.step event))

end Path

end Element

end ApiBindings.Markup
