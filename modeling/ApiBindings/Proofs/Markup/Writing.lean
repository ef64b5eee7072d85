import ApiBindings.Proofs.Markup.Tags

/-! Documents as they are written and read again.
Every element that is written is read as its start and its end, with what is inside of it between
them. The blanks that lay out a document are read as text, which says nothing about elements.
-/

namespace ApiBindings.Markup

-----------------------------------------------------------------------------------------
-- Between tags
-----------------------------------------------------------------------------------------

/-- Text is noted and kept, but the stage stays the same. -/
theorem Reader.At.push {stage : Stage} {reader : Reader} (isAt : reader.At stage) (text : List Char)
    : (reader.noteRun.push text).At stage := by
  unfold Reader.noteRun
  split
  · exact { isAt with }
  · exact { isAt with }

/-- The text before a tag is yielded. -/
theorem Reader.At.beginMarkup {stage : Stage} {reader : Reader} (isAt : reader.At stage)
    : reader.beginMarkup.At stage ∧ reader.beginMarkup.scanner = reader.scanner := by
  unfold Reader.beginMarkup
  dsimp only
  split
  · exact ⟨{ isAt with }, rfl⟩
  · exact ⟨{ isAt with reference := rfl, events := isAt.events }, rfl⟩

namespace Stage

variable (stage : Stage)

theorem takes_space {c : Char} (space : isSpace c = true)
    : { stage with mode := .content : Stage }.Takes (.char c)
        { stage with mode := .content } := by
  intro reader isAt
  have plain : isPlain false c = true := by
    simp only [isSpace, Bool.or_eq_true, beq_iff_eq] at space
    rcases space with ((rfl | rfl) | rfl) | rfl <;> decide
  have reads : reader.read (.char c) = reader.readContent (.char c) := by
    rw [Reader.read, isAt.mode]
    dsimp only
    rw [isAt.reference]
  have shown
      : reader.readContent (.char c)
        = if reader.isOutside then (if isSpace c then .ok reader else reader.fail)
          else if isPlain reader.isVersion11 c then .ok (reader.noteRun.push [c])
          else reader.fail :=
    rfl
  rw [reads, shown, isAt.version, space, plain]
  cases reader.isOutside with
  | true => exact ⟨reader, rfl, isAt, rfl⟩
  | false =>
      refine ⟨_, rfl, isAt.push [c], ?_⟩
      unfold Reader.noteRun
      split <;> rfl

theorem goes_spaces {text : List Char} (spaces : ∀ c ∈ text, c = ' ' ∨ c = '\n')
    : { stage with mode := .content : Stage }.Goes text { stage with mode := .content } := by
  induction text with
  | nil => exact goes_nil _
  | cons c text ih =>
      obtain ⟨first, others⟩ := List.forall_mem_cons.mp spaces
      have here
          : { stage with mode := .content : Stage }.Goes [c]
              { stage with mode := .content } := by
        rcases first with rfl | rfl
        · exact goes_of_scan? rfl (takes_space stage rfl).all
        · exact goes_of_scan? rfl (takes_space stage rfl).all
      exact here.append (ih others)

theorem goes_indentation (depth : Nat)
    : { stage with mode := .content : Stage }.Goes (indentation depth).toList
        { stage with mode := .content } := by
  refine goes_spaces stage fun c member => .inl ?_
  rw [indentation, String.toList_ofList] at member
  exact List.eq_of_mem_replicate member

theorem goes_break
    : { stage with mode := .content : Stage }.Goes ['\n'] { stage with mode := .content } :=
  goes_spaces stage (by simp)

theorem takes_tagStart
    : { stage with mode := .content : Stage }.Takes .tagStart
        { stage with prolog := .rooted, mode := .elementName [] } := by
  intro reader isAt
  obtain ⟨begun, kept⟩ := isAt.beginMarkup
  refine ⟨{ reader.beginMarkup with prolog := .rooted, mode := .elementName [] }, ?_,
    { begun with prolog := rfl, mode := rfl }, kept⟩
  rw [Reader.read, isAt.mode]
  dsimp only
  rw [isAt.reference]
  rfl

theorem takes_endTagStart {name : Name} {outer : List Name}
    : { stage with mode := .content, opened := name :: outer : Stage }.Takes .endTagStart
        { stage with mode := .endTag [], opened := name :: outer } := by
  intro reader isAt
  obtain ⟨begun, kept⟩ := isAt.beginMarkup
  have inside : reader.isOutside = false := by
    cases opened : reader.opened with
    | nil =>
        have same := isAt.opened
        rw [opened] at same
        cases same
    | cons => rw [Reader.isOutside, opened]; rfl
  refine ⟨{ reader.beginMarkup with mode := .endTag [] }, ?_, { begun with mode := rfl }, kept⟩
  have reads : reader.read .endTagStart = reader.readMarkup .endTagStart := by
    rw [Reader.read, isAt.mode]
    dsimp only
    rw [isAt.reference]
    rfl
  rw [reads, Reader.readMarkup, inside]
  rfl

/-- The end of an end tag yields the end of the innermost element. -/
theorem takes_closing {chars : List Char} {name : Name}
    (isName : Reader.elementName? chars = some name) (outer : List Name)
    : { stage with mode := .endTag chars, opened := name :: outer : Stage }.Takes .tagEnd
        { stage with
          mode := .content
          opened := outer
          events := .closed :: stage.events } := by
  intro reader isAt
  obtain ⟨element, others, shape, isElement, areOthers⟩ := List.map_eq_cons_iff.mp isAt.opened
  refine ⟨{ reader.takeNote.yield .closed with opened := others, mode := .content }, ?_,
    { isAt with mode := rfl, opened := areOthers, events := ?_ }, rfl⟩
  · rw [Reader.read, isAt.mode]
    dsimp only
    rw [Reader.readEndTag, Reader.readName_of_sign (fun _ => Token.noConfusion) isName]
    dsimp only
    rw [Reader.closeElement, shape]
    exact if_pos isElement
  · exact congrArg (.closed :: ·) isAt.events

end Stage

-----------------------------------------------------------------------------------------
-- Nodes
-----------------------------------------------------------------------------------------

/-- A tag that a document can have: its names are in no namespace, each attribute is given once, and
all characters of the values may stand in a document.
-/
structure Tag.IsWritable (tag : Tag) : Prop where
  name : isLocalName tag.name.toList = true
  attributes
    : ∀ attr ∈ tag.attributes,
        isLocalName attr.1.toList = true
        ∧ attr.1 ≠ "xmlns"
        ∧ ∀ c ∈ attr.2.toList, isPlain false c = true
  distinct : (tag.attributes.map Prod.fst).Nodup
  line : tag.line = 0

/-- An element of elements, all of which can be written. -/
inductive Node.IsWritable : Node → Prop where
  | element {tag : Tag} {children : List Node} (isTag : tag.IsWritable)
      (areChildren : ∀ child ∈ children, child.IsWritable)
    : IsWritable (.element tag children)

mutual

/-- The starts and ends of the elements of a node. -/
def Node.events : Node → List Event
  | .text _ => []
  | .element tag children => .opened tag :: (eventsOfNodes children ++ [.closed])

def eventsOfNodes : List Node → List Event
  | [] => []
  | node :: rest => node.events ++ eventsOfNodes rest

end

theorem eventsOfNodes_eq (nodes : List Node) : eventsOfNodes nodes = nodes.flatMap Node.events := by
  induction nodes with
  | nil => rfl
  | cons node rest ih => rw [eventsOfNodes, ih, List.flatMap_cons]

/-- What is read of a tag that is written. -/
def startTagOf (tag : Tag) : StartTag where
  name := Name.ofLocal tag.name
  attributes := (tag.attributes.map fun attr => (Name.ofLocal attr.1, attr.2)).reverse

theorem element_startTagOf {tag : Tag} (writable : tag.IsWritable)
    : (startTagOf tag).element = tag := by
  obtain ⟨name, attributes, line⟩ := tag
  obtain rfl : line = 0 := writable.line
  simp [StartTag.element, startTagOf, Name.ofLocal, Function.comp_def]

theorem isUnspaced_startTagOf (tag : Tag) : (startTagOf tag).IsUnspaced := by
  refine ⟨rfl, fun entry member => ?_⟩
  obtain ⟨attr, -, rfl⟩ := List.mem_map.mp (List.mem_reverse.mp member)
  rfl

theorem toList_inside (tag : Tag)
    : tag.inside.toList
      = tag.name.toList ++ tag.attributes.flatMap fun attr => ' ' :: attributeText attr := by
  have one (attr : String × String)
      : (Tag.writeAttribute attr).toList = ' ' :: attributeText attr := by
    simp [Tag.writeAttribute, attributeText, escaped]
  rw [Tag.inside, String.toList_append, String.toList_join, List.flatMap_map]
  exact congrArg _ (congrArg (List.flatMap · _) (funext one))

namespace Stage

variable (stage : Stage)

/-- A start tag is read up to its end. -/
theorem goes_startTag {tag : Tag} (writable : tag.IsWritable)
    : ∃ mode,
        Tagged mode (startTagOf tag)
        ∧ { stage with mode := .content : Stage }.Goes ('<' :: tag.inside.toList)
            { stage with prolog := .rooted, mode } := by
  have named
      : { stage with mode := .content : Stage }.Goes ('<' :: tag.name.toList)
          { stage with
            prolog := .rooted
            mode := .elementName tag.name.toList.reverse } := by
    have letters :=
      takesAll_name { stage with prolog := .rooted } .elementName
        (takes_elementName { stage with prolog := .rooted })
        (takes_elementName { stage with prolog := .rooted }) writable.name
    exact goes_of_scan? (scan?_tagStart writable.name) (.cons (takes_tagStart stage) letters)
  obtain ⟨mode, tagged, goes⟩ :=
    goes_attributes { stage with prolog := .rooted } writable.attributes writable.distinct
      (.named (elementName?_local writable.name)) fun _ _ => rfl
  refine ⟨mode, ?_, ?_⟩
  · rw [List.append_nil] at tagged
    exact tagged
  · rw [toList_inside]
    exact named.append goes

/-- An empty tag is an element with nothing inside of it. -/
theorem goes_emptyTagEnd {mode : Mode} {tag : StartTag} (tagged : Tagged mode tag)
    (unspaced : tag.IsUnspaced)
    : { stage with mode : Stage }.Goes [' ', '/', '>', '\n']
        { stage with
          mode := .content
          events := .closed :: .opened tag.element :: stage.events } := by
  have ends
      : { stage with mode : Stage }.Goes [' ', '/', '>']
          { stage with
            mode := .content
            events := .closed :: .opened tag.element :: stage.events } :=
    goes_of_scan? rfl (.cons (takes_blank stage tagged) (takes_emptyTagEnd stage unspaced).all)
  exact ends.append
    (goes_break { stage with events := .closed :: .opened tag.element :: stage.events })

theorem goes_tagEnd {mode : Mode} {tag : StartTag} (tagged : Tagged mode tag)
    (unspaced : tag.IsUnspaced)
    : { stage with mode : Stage }.Goes ['>', '\n']
        { stage with
          mode := .content
          opened := tag.name :: stage.opened
          events := .opened tag.element :: stage.events } := by
  have ends
      : { stage with mode : Stage }.Goes ['>']
          { stage with
            mode := .content
            opened := tag.name :: stage.opened
            events := .opened tag.element :: stage.events } :=
    goes_of_scan? rfl (takes_tagEnd stage tagged unspaced).all
  exact ends.append
    (goes_break { stage with
      opened := tag.name :: stage.opened, events := .opened tag.element :: stage.events })

/-- An end tag closes the innermost element, which has its name. -/
theorem goes_endTag {name : String} (isLocal : isLocalName name.toList = true)
    (outer : List Name)
    : { stage with mode := .content, opened := Name.ofLocal name :: outer : Stage }.Goes
        ('<' :: '/' :: (name.toList ++ ['>', '\n']))
        { stage with
          mode := .content
          opened := outer
          events := .closed :: stage.events } := by
  let inner : Stage := { stage with opened := Name.ofLocal name :: outer }
  have scans
      : scan? .plain ('<' :: '/' :: (name.toList ++ ['>']))
        = some (.endTagStart :: (name.toList.map .char ++ [.tagEnd]), .plain) := by
    have starts : Scanner.cut? false .plain '<' = some _ := rfl
    have slash : Scanner.cut? false .angle '/' = some _ := rfl
    have named := scan?_local (isLocalChar_of_mem isLocal)
    exact scan?_cons starts (scan?_cons slash (scan?_append named rfl))
  have letters := takesAll_name inner .endTag (takes_endTag inner) (takes_endTag inner) isLocal
  have closes := takes_closing stage (elementName?_local isLocal) outer
  have ends := goes_of_scan? scans (.cons (takes_endTagStart stage) (letters.append closes.all))
  have whole :=
    ends.append (goes_break { stage with opened := outer, events := .closed :: stage.events })
  simpa using whole

/-- Lines of nodes follow each other like the nodes. By induction on the nodes. -/
theorem goes_writeNodes (nodes : List Node) (depth : Nat)
    (each
      : ∀ node ∈ nodes, ∀ stage : Stage,
          { stage with prolog := .rooted, mode := .content : Stage }.Goes
            (node.write depth).toList
            { stage with
              prolog := .rooted
              mode := .content
              events := node.events.reverse ++ stage.events })
    : { stage with prolog := .rooted, mode := .content : Stage }.Goes
        (writeNodes depth nodes).toList
        { stage with
          prolog := .rooted
          mode := .content
          events := (nodes.flatMap Node.events).reverse ++ stage.events } := by
  induction nodes generalizing stage with
  | nil => exact goes_nil _
  | cons node rest ih =>
      obtain ⟨first, others⟩ := List.forall_mem_cons.mp each
      have here := first stage
      have later := ih { stage with events := node.events.reverse ++ stage.events } others
      rw [writeNodes, String.toList_append, List.flatMap_cons, List.reverse_append,
        List.append_assoc]
      exact here.append later

/-- The lines of a node are read as its starts and ends of elements. By induction on the node. -/
theorem goes_node {node : Node} (writable : node.IsWritable) (depth : Nat)
    : { stage with mode := .content : Stage }.Goes (node.write depth).toList
        { stage with
          prolog := .rooted
          mode := .content
          events := node.events.reverse ++ stage.events } := by
  induction writable generalizing stage depth with
  | @element tag children isTag areChildren ih =>
      obtain ⟨mode, tagged, starts⟩ := goes_startTag stage isTag
      have begun := (goes_indentation stage depth).append starts
      have unspaced := isUnspaced_startTagOf tag
      let rooted : Stage := { stage with prolog := .rooted }
      cases children with
      | nil =>
          have whole := begun.append (goes_emptyTagEnd rooted tagged unspaced)
          rw [element_startTagOf isTag] at whole
          simpa [Node.write, Node.events, eventsOfNodes] using whole
      | cons child rest =>
          have opens := goes_tagEnd rooted tagged unspaced
          rw [element_startTagOf isTag] at opens
          let inner : Stage := { rooted with
            opened := Name.ofLocal tag.name :: stage.opened
            events := .opened tag :: stage.events }
          have inside :=
            goes_writeNodes inner (child :: rest) (depth + 1) fun node member stage =>
              ih node member { stage with prolog := .rooted } (depth + 1)
          let behind : Stage := { inner with
            events := ((child :: rest).flatMap Node.events).reverse ++ inner.events }
          have closes :=
            (goes_indentation behind depth).append
              (goes_endTag behind isTag.name stage.opened)
          have whole := ((begun.append opens).append inside).append closes
          simpa [behind, inner, rooted, Node.write, Node.events, eventsOfNodes_eq, writeNodes]
            using whole

end Stage

-----------------------------------------------------------------------------------------
-- Documents
-----------------------------------------------------------------------------------------

/-- The stage behind the declaration. -/
def Stage.begun : Stage where
  prolog := .begun
  opened := []
  mode := .content
  events := []

/-- The line of the declaration. -/
def declarationLine : List Char :=
  "<?xml version=\"1.0\" encoding=\"utf-8\"?>\n".toList

/-- The reader behind the line of the declaration. -/
def Reader.declared : Reader where
  scanner := { line := 2, start := 2 }
  prolog := .begun
  mode := .content
  events := [.instruction]

theorem foldlM_step_declarationLine
    : declarationLine.foldlM Reader.step {} = (.ok Reader.declared : Reader.Outcome) := by
  decide +kernel

theorem toList_document (root : Node)
    : (document root).toList = declarationLine ++ (root.write 0).toList :=
  String.toList_append ..

/-- What is written begins with no byte order mark. -/
theorem start_document (root : Node)
    : Reader.start (document root).toList = ({}, (document root).toList) := by
  rw [toList_document]
  rfl

/-- A document that is written is read without a fault, and what is read of it are the starts and
ends of its elements.
-/
theorem ofText_document {root : Node} (writable : root.IsWritable)
    : (Reading.ofText (document root).toList).fault = none
      ∧ (Reading.ofText (document root).toList).events.filterMap Event.bare? = root.events := by
  have declared : Reader.declared.At .begun := by
    constructor <;> rfl
  obtain ⟨last, reads, isLast, plain, -⟩ :=
    Stage.goes_node .begun writable 0 Reader.declared declared rfl rfl
  have whole : (document root).toList.foldlM Reader.step {} = (.ok last : Reader.Outcome) := by
    rw [toList_document, List.foldlM_append, foldlM_step_declarationLine]
    exact reads
  have same : Reading.ofText (document root).toList = last.finish := by
    rw [Reading.ofText, start_document]
    dsimp only
    rw [whole]
  have outside : last.isOutside = true := by
    rw [Reader.isOutside, List.isEmpty_iff]
    exact List.map_eq_nil_iff.mp isLast.opened
  rw [same]
  constructor
  · exact if_pos ⟨plain, isLast.mode, isLast.reference, outside, isLast.prolog⟩
  · rw [Reader.finish, List.filterMap_reverse, isLast.events]
    simp [Stage.begun]

end ApiBindings.Markup
