import ApiBindings.Markup.Element
import ApiBindings.Markup.Reader

/-! What the reader of a document yields on its way.
Every token leads to at most one piece, or to an empty element, and what has been yielded stays.
The elements that the reader has open are those that its pieces leave open, and once it is past the
first start tag, an element has been opened.
-/

namespace ApiBindings.Markup

/-- Whether a start tag is being read. -/
def Mode.isTag : Mode → Bool
  | .elementName _ | .startTag _ _ => true
  | _ => false

/-- The path to which pieces lead. -/
def Element.Path.ofEvents (events : List Event) : Element.Path :=
  events.foldl Element.Path.step Element.Path.root

namespace Reader

-----------------------------------------------------------------------------------------
-- Steps
-----------------------------------------------------------------------------------------

/-- The pieces that one token leads to, the latest first, with the open elements before and behind
it.
-/
inductive Yields : List OpenElement → List Event → List OpenElement → Prop where
  | nothing (opened : List OpenElement) : Yields opened [] opened
  | text (opened : List OpenElement) (content : String) : Yields opened [.text content] opened
  | instruction (opened : List OpenElement) : Yields opened [.instruction] opened
  | start (opened : List OpenElement) (tag : Tag) (element : OpenElement)
    : Yields opened [.opened tag] (element :: opened)
  | empty (opened : List OpenElement) (tag : Tag) : Yields opened [.closed, .opened tag] opened
  | stop (element : OpenElement) (opened : List OpenElement)
    : Yields (element :: opened) [.closed] opened

/-- A step of the reader. Behind a start tag there is the element that it opens. -/
structure Advances (reader next : Reader) : Prop where
  yields : ∃ events, next.events = events ++ reader.events
    ∧ Yields reader.opened events next.opened
  rooted
    : next.prolog = .rooted → next.mode.isTag = false
      → (reader.prolog = .rooted ∧ reader.mode.isTag = false) ∨ ∃ tag, .opened tag ∈ next.events

/-- Every outcome but an error is a step, and an error has its line. -/
def Leads (reader : Reader) : Outcome → Prop
  | .ok next => Advances reader next
  | .error reading => reading.fault.isSome

/-- A reader that differs in nothing that has to do with pieces. -/
structure Keeps (reader other : Reader) : Prop where
  events : other.events = reader.events
  opened : other.opened = reader.opened
  rooted : other.prolog = .rooted → reader.prolog = .rooted

section

variable {reader other : Reader}

theorem leads_failAt (line : Nat) : Leads reader (other.failAt line) :=
  rfl

theorem leads_fail : Leads reader other.fail :=
  leads_failAt other.line

/-- Without a piece the reader stays outside of tags or goes into one. -/
theorem Keeps.leads (keeps : Keeps reader other)
    (tag : reader.mode.isTag = false ∨ other.mode.isTag = true)
    : Leads reader (.ok other) := by
  refine ⟨⟨[], keeps.events, keeps.opened ▸ .nothing reader.opened⟩, fun rooted outside => ?_⟩
  rcases tag with before | inside
  · exact .inl ⟨keeps.rooted rooted, before⟩
  · rw [inside] at outside
    cases outside

theorem Keeps.leads_goto (keeps : Keeps reader other) {mode : Mode}
    (tag : reader.mode.isTag = false ∨ mode.isTag = true)
    : Leads reader (other.goto mode) := by
  have moved : Keeps reader { other with mode } := ⟨keeps.events, keeps.opened, keeps.rooted⟩
  exact moved.leads tag

theorem leads_self (outside : reader.mode.isTag = false) : Leads reader (.ok reader) :=
  Keeps.leads ⟨rfl, rfl, id⟩ (.inl outside)

theorem Keeps.note (keeps : Keeps reader other) : Keeps reader other.note :=
  ⟨keeps.events, keeps.opened, keeps.rooted⟩

theorem Keeps.takeNote (keeps : Keeps reader other) : Keeps reader other.takeNote :=
  ⟨keeps.events, keeps.opened, keeps.rooted⟩

theorem Keeps.push (keeps : Keeps reader other) (text : List Char)
    : Keeps reader (other.push text) :=
  ⟨keeps.events, keeps.opened, keeps.rooted⟩

theorem keeps_self (reader : Reader) : Keeps reader reader :=
  ⟨rfl, rfl, id⟩

theorem keeps_begin (reader : Reader) : Keeps reader reader.begin := by
  unfold begin
  split
  · exact ⟨rfl, rfl, fun rooted => by cases rooted⟩
  · exact keeps_self reader

theorem keeps_noteRun (reader : Reader) : Keeps reader reader.noteRun := by
  unfold noteRun
  split
  · exact (keeps_self reader).note
  · exact keeps_self reader

-----------------------------------------------------------------------------------------
-- Modes outside of tags
-----------------------------------------------------------------------------------------

/-- Outside of tags, a piece that is neither the start nor the end of an element may be yielded. -/
theorem leads_of_yields (outside : reader.mode.isTag = false) {events : List Event}
    (shape : other.events = events ++ reader.events)
    (yields : Yields reader.opened events other.opened)
    (rooted : other.prolog = .rooted → reader.prolog = .rooted ∨ other.mode.isTag = true)
    : Leads reader (.ok other) := by
  refine ⟨⟨events, shape, yields⟩, fun isRooted notTag => .inl ⟨?_, outside⟩⟩
  refine (rooted isRooted).resolve_right fun isTag => ?_
  rw [isTag] at notTag
  cases notTag

theorem leads_of_silent (outside : reader.mode.isTag = false)
    (events : other.events = reader.events) (opened : other.opened = reader.opened)
    (rooted : other.prolog = .rooted → reader.prolog = .rooted ∨ other.mode.isTag = true)
    : Leads reader (.ok other) :=
  leads_of_yields outside (List.nil_append reader.events ▸ events) (opened ▸ .nothing reader.opened)
    rooted

theorem leads_readStart (outside : reader.mode.isTag = false) (token : Token)
    : Leads reader (reader.readStart token) := by
  have begun := keeps_begin reader
  unfold readStart
  cases token with
  | char c =>
      dsimp only
      split
      · exact begun.leads_goto (.inl outside)
      · exact leads_fail
  | commentStart => exact begun.leads_goto (.inl outside)
  | tagStart => exact leads_of_silent outside begun.events begun.opened fun _ => .inr rfl
  | typeStart =>
      exact leads_of_silent outside begun.events begun.opened fun rooted => by cases rooted
  | instructionStart => exact (keeps_self reader).note.leads_goto (.inl outside)
  | _ => exact leads_fail

/-- Markup ends the run of text before it. -/
theorem exists_beginMarkup (reader : Reader)
    : ∃ events, reader.beginMarkup.events = events ++ reader.events
        ∧ Yields reader.opened events reader.opened
        ∧ reader.beginMarkup.opened = reader.opened
        ∧ reader.beginMarkup.prolog = reader.prolog := by
  unfold beginMarkup
  dsimp only
  split
  · exact ⟨[], rfl, .nothing _, rfl, rfl⟩
  · exact ⟨[_], rfl, .text _ _, rfl, rfl⟩

theorem leads_readMarkup (outside : reader.mode.isTag = false) (token : Token)
    : Leads reader (reader.readMarkup token) := by
  obtain ⟨events, shape, yields, opened, prolog⟩ := exists_beginMarkup reader
  have yields : Yields reader.opened events reader.beginMarkup.opened := opened ▸ yields
  unfold readMarkup
  dsimp only
  split
  · exact leads_of_yields outside shape yields fun _ => .inr rfl
  · split
    · exact leads_fail
    · exact leads_of_yields outside shape yields fun rooted => .inl (prolog ▸ rooted)
  · exact leads_of_yields outside shape yields fun rooted => .inl (prolog ▸ rooted)
  · split
    · exact leads_of_yields outside shape yields fun rooted => by cases rooted
    · exact leads_fail
  · exact leads_fail

/-- A piece of text is kept for later, where there may be text. -/
theorem leads_text (outside : reader.mode.isTag = false) (keeps : Keeps reader other)
    (isOutside : Bool)
    : Leads reader (if isOutside then reader.fail else .ok other) := by
  cases isOutside with
  | true => exact leads_fail
  | false => exact keeps.leads (.inl outside)

theorem leads_readContent (outside : reader.mode.isTag = false) (token : Token)
    : Leads reader (reader.readContent token) := by
  have pushed (text : List Char) : Keeps reader (reader.noteRun.push text) :=
    (keeps_noteRun reader).push text
  unfold readContent
  cases token with
  | char c =>
      dsimp only
      split
      · split
        · exact leads_self outside
        · exact leads_fail
      · split
        · exact (pushed _).leads (.inl outside)
        · exact leads_fail
  | tagEnd | emptyTagEnd | instructionEnd | commentEnd | equals | quote | apostrophe =>
      exact leads_text outside (pushed _) _
  | semicolon => exact leads_text outside ((keeps_self reader).push _) _
  | ampersand =>
      refine leads_text outside ?_ _
      exact ⟨rfl, rfl, id⟩
  | commentStart => exact (keeps_begin reader).leads_goto (.inl outside)
  | dataStart =>
      dsimp only
      split
      · exact leads_fail
      · exact (keeps_noteRun reader).leads_goto (.inl outside)
  | _ => exact leads_readMarkup outside _

theorem leads_readReference (outside : reader.mode.isTag = false) (name : List Char) (token : Token)
    : Leads reader (reader.readReference name token) := by
  unfold readReference
  dsimp only
  split
  · exact leads_fail
  · exact Keeps.leads ⟨rfl, rfl, id⟩ (.inl outside)
  · split
    · exact leads_fail
    · exact Keeps.leads ⟨rfl, rfl, id⟩ (.inl outside)
    · exact Keeps.leads ⟨rfl, rfl, id⟩ (.inl outside)

theorem leads_readComment (outside : reader.mode.isTag = false) (token : Token)
    : Leads reader (reader.readComment token) := by
  unfold readComment
  split
  · exact (keeps_self reader).leads_goto (.inl outside)
  · split
    · exact leads_self outside
    · exact leads_fail
  · exact leads_self outside

theorem leads_readData (outside : reader.mode.isTag = false) (token : Token)
    : Leads reader (reader.readData token) := by
  unfold readData
  split
  · split
    · exact (keeps_self reader).takeNote.leads_goto (.inl outside)
    · exact (keeps_self reader).leads_goto (.inl outside)
  · split
    · exact ((keeps_self reader).push _).leads (.inl outside)
    · exact leads_fail
  · exact ((keeps_self reader).push _).leads (.inl outside)

/-- A declaration or an instruction that is complete is a piece. -/
theorem leads_instruction (outside : reader.mode.isTag = false) (keeps : Keeps reader other)
    : Leads reader ((other.yield .instruction).goto .content) := by
  have yields : Yields reader.opened [.instruction] other.opened :=
    keeps.opened ▸ .instruction reader.opened
  have shape : (other.yield .instruction).events = [.instruction] ++ reader.events := by
    simp [yield, keeps.events]
  exact leads_of_yields outside shape yields fun rooted => .inl (keeps.rooted rooted)

theorem leads_finishDeclaration (outside : reader.mode.isTag = false) (declared : Declared)
    : Leads reader (reader.finishDeclaration declared) := by
  unfold finishDeclaration
  split
  · split
    · exact leads_of_yields outside rfl (.instruction reader.opened) fun rooted => by cases rooted
    · exact leads_fail
  · exact leads_fail

theorem leads_readDeclaration (outside : reader.mode.isTag = false) (declared : Declared)
    (place : Place) (token : Token)
    : Leads reader (reader.readDeclaration declared place token) := by
  unfold readDeclaration
  split
  · exact leads_finishDeclaration outside declared
  · split
    · exact leads_fail
    · exact (keeps_self reader).leads_goto (.inl outside)
    · split
      · refine Keeps.leads_goto ?_ (.inl outside)
        exact ⟨rfl, rfl, id⟩
      · exact leads_fail

theorem leads_readTarget (outside : reader.mode.isTag = false) (chars : List Char) (token : Token)
    : Leads reader (reader.readTarget chars token) := by
  unfold readTarget
  dsimp only
  split
  · split
    · exact leads_fail
    · split
      · exact leads_instruction outside (keeps_begin reader)
      · exact leads_instruction outside (keeps_self reader).takeNote
  · split
    · split
      · exact (keeps_self reader).leads_goto (.inl outside)
      · split
        · exact leads_fail
        · exact (keeps_begin reader).leads_goto (.inl outside)
    · -- The first character of a name is told apart from the others.
      generalize (if chars.isEmpty then isNameStart _ else isNameChar _) = isNamed
      split
      · exact (keeps_self reader).leads_goto (.inl outside)
      · exact leads_fail
  · exact leads_fail

theorem leads_readInstruction (outside : reader.mode.isTag = false) (token : Token)
    : Leads reader (reader.readInstruction token) := by
  unfold readInstruction
  split
  · exact leads_instruction outside (keeps_self reader).takeNote
  · split
    · exact leads_self outside
    · exact leads_fail
  · exact leads_self outside

theorem leads_readDocumentType (outside : reader.mode.isTag = false) (place : TypePlace)
    (token : Token)
    : Leads reader (reader.readDocumentType place token) := by
  unfold readDocumentType
  split
  · exact leads_fail
  · exact (keeps_self reader).leads_goto (.inl outside)
  · refine Keeps.leads_goto ?_ (.inl outside)
    exact ⟨rfl, rfl, id⟩
  · refine Keeps.leads_goto ?_ (.inl outside)
    exact ⟨rfl, rfl, id⟩
  · exact (keeps_self reader).leads_goto (.inl outside)

-----------------------------------------------------------------------------------------
-- Tags
-----------------------------------------------------------------------------------------

/-- The end of a start tag is the start of its element, which may end there too. -/
theorem leads_openElement (tag : StartTag) (isEmpty : Bool)
    : Leads reader (reader.openElement tag isEmpty) := by
  unfold openElement
  dsimp only
  split
  · split
    · exact ⟨⟨[_, _], rfl, .empty reader.opened _⟩,
        fun _ _ => .inr ⟨_, List.mem_cons_of_mem _ List.mem_cons_self⟩⟩
    · exact ⟨⟨[_], rfl, .start reader.opened _ _⟩, fun _ _ => .inr ⟨_, List.mem_cons_self⟩⟩
  · exact leads_fail

theorem leads_closeElement (outside : reader.mode.isTag = false) (name : Name)
    : Leads reader (reader.closeElement name) := by
  unfold closeElement
  split
  · rename_i element outer shape
    split
    · have yields : Yields reader.opened [.closed] outer := shape ▸ .stop element outer
      exact leads_of_yields outside rfl yields .inl
    · exact leads_fail
  · exact leads_fail

/-- A name goes on or is finished. -/
theorem leads_readName {more : List Char → Mode} {finish : Name → Outcome}
    (tag : reader.mode.isTag = false ∨ ∀ chars, (more chars).isTag = true)
    (finishes : ∀ name, Leads reader (finish name)) (chars : List Char) (token : Token)
    : Leads reader (reader.readName chars token more finish) := by
  unfold readName
  split
  · split
    · split
      · exact finishes _
      · exact leads_fail
    · split
      · exact (keeps_self reader).leads_goto (tag.imp_right fun isTag => isTag _)
      · exact leads_fail
  · split
    · exact finishes _
    · exact leads_fail

theorem leads_readElementName (chars : List Char) (token : Token)
    : Leads reader (reader.readElementName chars token) := by
  refine leads_readName (.inr fun _ => rfl) (fun name => ?_) chars token
  dsimp only
  split
  · exact leads_openElement _ false
  · exact leads_openElement _ true
  · exact (keeps_self reader).leads_goto (.inr rfl)
  · exact leads_fail

theorem leads_readStartTag (tag : StartTag) (place : Place) (token : Token)
    : Leads reader (reader.readStartTag tag place token) := by
  unfold readStartTag
  split
  · exact leads_openElement tag false
  · split
    · exact leads_openElement tag true
    · split
      · exact leads_fail
      · exact (keeps_self reader).leads_goto (.inr rfl)
      · split
        · exact (keeps_self reader).leads_goto (.inr rfl)
        · exact leads_fail

theorem leads_readEndTag (outside : reader.mode.isTag = false) (chars : List Char) (token : Token)
    : Leads reader (reader.readEndTag chars token) := by
  refine leads_readName (.inl outside) (fun name => ?_) chars token
  split
  · exact leads_closeElement outside name
  · exact (keeps_self reader).leads_goto (.inl outside)
  · exact leads_fail

theorem leads_readEndTagBlank (outside : reader.mode.isTag = false) (name : Name) (token : Token)
    : Leads reader (reader.readEndTagBlank name token) := by
  unfold readEndTagBlank
  split
  · exact leads_closeElement outside name
  · split
    · exact leads_self outside
    · exact leads_fail

/-- Every token leads to at most one piece or to an empty element. By cases on the mode. -/
theorem leads_read (reader : Reader) (token : Token) : Leads reader (reader.read token) := by
  have outside {mode : Mode} (same : reader.mode = mode) (plain : mode.isTag = false)
      : reader.mode.isTag = false := by
    rw [same, plain]
  unfold read
  split
  · rename_i same
    exact leads_readStart (outside same rfl) token
  · rename_i same
    split
    · exact leads_readReference (outside same rfl) _ token
    · exact leads_readContent (outside same rfl) token
  · rename_i same
    exact leads_readComment (outside same rfl) token
  · rename_i same
    exact leads_readData (outside same rfl) token
  · exact leads_readElementName _ token
  · exact leads_readStartTag _ _ token
  · rename_i same
    exact leads_readEndTag (outside same rfl) _ token
  · rename_i same
    exact leads_readEndTagBlank (outside same rfl) _ token
  · rename_i same
    exact leads_readTarget (outside same rfl) _ token
  · rename_i same
    exact leads_readInstruction (outside same rfl) token
  · rename_i same
    exact leads_readDeclaration (outside same rfl) _ _ token
  · rename_i same
    exact leads_readDocumentType (outside same rfl) _ token

end

end Reader

end ApiBindings.Markup
