import ApiBindings.Proofs.Markup.Values
import ApiBindings.Proofs.Text.Layout

/-! Tags as they are written and read again.
Names and values lead from stage to stage within a tag, and the end of a tag is the start or the end
of its element.
-/

namespace ApiBindings.Markup

-----------------------------------------------------------------------------------------
-- Names
-----------------------------------------------------------------------------------------

/-- A character of a name that is in no namespace. -/
def isLocalChar (c : Char) : Bool :=
  isNameChar c && c != ':'

/-- A name that is in no namespace. -/
def isLocalName : List Char → Bool
  | [] => false
  | first :: rest => isNameStart first && first != ':' && rest.all isLocalChar

/-- What a text names that is in no namespace. -/
def Name.ofLocal (text : String) : Name :=
  { space := none, base := text }

theorem isLocalChar_of_mem {text : List Char} (isLocal : isLocalName text = true)
    : ∀ c ∈ text, isLocalChar c = true := by
  cases text with
  | nil => cases isLocal
  | cons first rest =>
      simp only [isLocalName, Bool.and_eq_true] at isLocal
      obtain ⟨⟨starts, noColon⟩, others⟩ := isLocal
      refine List.forall_mem_cons.mpr ⟨?_, List.all_eq_true.mp others⟩
      rw [isLocalChar, isNameChar, starts, noColon]
      rfl

/-- Names have no character that means something in a tag. -/
theorem ne_of_isLocalChar {c d : Char} (isLocal : isLocalChar c = true)
    (foreign : isLocalChar d = false)
    : c ≠ d := by
  rintro rfl
  rw [isLocal] at foreign
  cases foreign

theorem isSpace_of_isLocalChar {c : Char} (isLocal : isLocalChar c = true)
    : isSpace c = false := by
  have no (d : Char) (foreign : isLocalChar d = false) : (c == d) = false :=
    beq_eq_false_iff_ne.mpr (ne_of_isLocalChar isLocal foreign)
  rw [isSpace, no ' ' (by decide), no '\t' (by decide), no '\n' (by decide), no '\r' (by decide)]
  rfl

theorem cutPlain_of_isLocalChar {c : Char} (isLocal : isLocalChar c = true)
    : Scanner.cutPlain false c = { tokens := [.char c], mode := .plain, isTyped := false } := by
  have no (d : Char) (foreign : isLocalChar d = false) : c ≠ d :=
    ne_of_isLocalChar isLocal foreign
  rw [Scanner.cutPlain, if_neg (no '<' (by decide)), if_neg (no '/' (by decide)),
    if_neg (no ']' (by decide)), if_neg (no '>' (by decide)), if_neg (no '=' (by decide)),
    if_neg (no '"' (by decide)), if_neg (no '\x27' (by decide)), if_neg (no '&' (by decide)),
    if_neg (no ';' (by decide))]

theorem scan?_local {text : List Char} (isLocal : ∀ c ∈ text, isLocalChar c = true)
    : scan? .plain text = some (text.map .char, .plain) := by
  induction text with
  | nil => rfl
  | cons c text ih =>
      obtain ⟨first, others⟩ := List.forall_mem_cons.mp isLocal
      have cuts : Scanner.cut? false .plain c = some _ :=
        congrArg some (cutPlain_of_isLocalChar first)
      exact scan?_cons cuts (ih others)

/-- The sign of a start tag is known by the name behind it. -/
theorem scan?_tagStart {text : List Char} (isLocal : isLocalName text = true)
    : scan? .plain ('<' :: text) = some (.tagStart :: text.map .char, .plain) := by
  have letters := isLocalChar_of_mem isLocal
  cases text with
  | nil => cases isLocal
  | cons c text =>
      obtain ⟨first, others⟩ := List.forall_mem_cons.mp letters
      have no (d : Char) (foreign : isLocalChar d = false) : c ≠ d :=
        ne_of_isLocalChar first foreign
      have isName : isNameChar c = true := (Bool.and_eq_true_iff.mp first).1
      have cuts
          : Scanner.cut? false .angle c
            = some { tokens := [.tagStart, .char c], mode := .plain, isTyped := false } := by
        rw [Scanner.cut?, Scanner.cutAngle, if_neg (no '?' (by decide)),
          if_neg (no '/' (by decide)), if_neg (no '!' (by decide)), isName, Bool.or_true,
          if_pos rfl, Scanner.cutHome, if_neg (by decide), cutPlain_of_isLocalChar first]
        rfl
      have opens : Scanner.cut? false .plain '<' = some _ := rfl
      exact scan?_cons opens (scan?_cons cuts (scan?_local others))

/-- A letter goes on with a name that has begun. -/
theorem extend?_of_isLocalChar {c : Char} (isLocal : isLocalChar c = true) {chars : List Char}
    (begun : chars ≠ [])
    : Name.extend? chars c = some (c :: chars) := by
  obtain ⟨isName, noColon⟩ := Bool.and_eq_true_iff.mp isLocal
  rw [Name.extend?, if_neg (bne_iff_ne.mp noColon), List.isEmpty_eq_false_iff.mpr begun]
  exact if_pos isName

theorem extend?_first {c : Char} {text : List Char} (isLocal : isLocalName (c :: text) = true)
    : Name.extend? [] c = some [c] := by
  simp only [isLocalName, Bool.and_eq_true] at isLocal
  obtain ⟨⟨starts, noColon⟩, -⟩ := isLocal
  rw [Name.extend?, if_neg (bne_iff_ne.mp noColon)]
  exact if_pos starts

theorem parse?_local {name : String} (isLocal : isLocalName name.toList = true)
    : Name.parse? name.toList = some (Name.ofLocal name) := by
  have noColon : ∀ c ∈ name.toList, (c == ':') = false := by
    intro c member
    have letter := isLocalChar_of_mem isLocal c member
    exact beq_eq_false_iff_ne.mpr (ne_of_isLocalChar letter (by decide))
  have nonempty : name.toList.isEmpty = false := by
    cases text : name.toList with
    | nil =>
        rw [text] at isLocal
        cases isLocal
    | cons => rfl
  rw [Name.parse?, Text.cut_of_solid noColon]
  dsimp only
  rw [nonempty, if_neg (by decide), String.ofList_toList]
  rfl

theorem elementName?_local {name : String} (isLocal : isLocalName name.toList = true)
    : Reader.elementName? name.toList.reverse = some (Name.ofLocal name) := by
  rw [Reader.elementName?, List.reverse_reverse, parse?_local isLocal]
  rfl

/-- The text of an attribute without the blank before it. -/
def attributeText (attr : String × String) : List Char :=
  attr.1.toList ++ '=' :: '"' :: (attr.2.toList.flatMap escape ++ ['"'])

/-- A start tag is being read that may end here or go on with a blank. -/
inductive Tagged : Mode → StartTag → Prop where
  | named {chars : List Char} {name : Name} (isName : Reader.elementName? chars = some name)
    : Tagged (.elementName chars) { name }
  | given (tag : StartTag) : Tagged (.startTag tag .afterValue) tag

/-- The element that a start tag opens, without its line. -/
def StartTag.element (tag : StartTag) : Tag where
  name := tag.name.base
  attributes := tag.attributes.reverse.map fun entry => (entry.1.base, entry.2)
  line := 0

/-- No name of a tag is in a namespace. -/
def StartTag.IsUnspaced (tag : StartTag) : Prop :=
  tag.name.space = none ∧ ∀ entry ∈ tag.attributes, entry.1.space = none

theorem StartTag.isBound_of_isUnspaced {tag : StartTag} (unspaced : tag.IsUnspaced) (spaces : List String)
    : (Reader.isBound spaces tag.name
        && tag.attributes.reverse.all fun entry => Reader.isBound spaces entry.1)
      = true := by
  obtain ⟨name, attributes⟩ := unspaced
  simp only [Reader.isBound, name, Option.all_none, Bool.true_and, List.all_eq_true,
    List.mem_reverse]
  intro entry member
  rw [attributes entry member]
  rfl

/-- A sign ends the name of a tag. -/
theorem Reader.readName_of_sign {reader : Reader} {chars : List Char} {token : Token}
    {more : List Char → Mode} {finish : Name → Outcome} {name : Name}
    (sign : ∀ c, token ≠ .char c) (isName : elementName? chars = some name)
    : reader.readName chars token more finish = finish name := by
  rw [readName.eq_def]
  split
  · rename_i c
    exact absurd rfl (sign c)
  · rw [isName]

theorem Reader.At.goto {stage : Stage} {reader : Reader} (isAt : reader.At stage) (mode : Mode)
    : Reader.At { reader with mode } { stage with mode } :=
  { isAt with mode := rfl }

namespace Stage

variable (stage : Stage)

/-- A step that only changes what is being read. -/
theorem takes_of_goto {token : Token} {mode : Mode}
    (goes : ∀ reader : Reader, reader.At stage → reader.read token = reader.goto mode)
    : stage.Takes token { stage with mode } :=
  fun reader isAt => ⟨_, goes reader isAt, isAt.goto mode, rfl⟩

/-- A name is read letter by letter, once it has begun. By induction on the letters. -/
theorem takesAll_letters (more : List Char → Mode)
    (letter
      : ∀ {chars : List Char} {c : Char},
          isSpace c = false
          → Name.extend? chars c = some (c :: chars)
          → { stage with mode := more chars : Stage }.Takes (.char c)
              { stage with mode := more (c :: chars) })
    {text : List Char} (isLocal : ∀ c ∈ text, isLocalChar c = true) {chars : List Char}
    (begun : chars ≠ [])
    : { stage with mode := more chars : Stage }.TakesAll (text.map .char)
        { stage with mode := more (text.reverse ++ chars) } := by
  induction text generalizing chars with
  | nil => exact .nil _
  | cons c text ih =>
      obtain ⟨first, others⟩ := List.forall_mem_cons.mp isLocal
      have extends? := extend?_of_isLocalChar first begun
      rw [List.reverse_cons, List.append_assoc]
      exact .cons (letter (isSpace_of_isLocalChar first) extends?)
        (ih others (List.cons_ne_nil c chars))

/-- A name is read from its first letter on. -/
theorem takesAll_name {mode : Mode} (more : List Char → Mode)
    (first
      : ∀ {c : Char},
          isSpace c = false
          → Name.extend? [] c = some [c]
          → { stage with mode : Stage }.Takes (.char c) { stage with mode := more [c] })
    (letter
      : ∀ {chars : List Char} {c : Char},
          isSpace c = false
          → Name.extend? chars c = some (c :: chars)
          → { stage with mode := more chars : Stage }.Takes (.char c)
              { stage with mode := more (c :: chars) })
    {text : List Char} (isLocal : isLocalName text = true)
    : { stage with mode : Stage }.TakesAll (text.map .char)
        { stage with mode := more text.reverse } := by
  have letters := isLocalChar_of_mem isLocal
  cases text with
  | nil => cases isLocal
  | cons c text =>
      obtain ⟨isFirst, others⟩ := List.forall_mem_cons.mp letters
      rw [List.reverse_cons]
      exact .cons (first (isSpace_of_isLocalChar isFirst) (extend?_first isLocal))
        (takesAll_letters stage more letter others (List.cons_ne_nil c []))

theorem takes_elementName {chars : List Char} {c : Char} (noSpace : isSpace c = false)
    (extends? : Name.extend? chars c = some (c :: chars))
    : { stage with mode := .elementName chars : Stage }.Takes (.char c)
        { stage with mode := .elementName (c :: chars) } := by
  refine takes_of_goto _ fun _ isAt => ?_
  rw [Reader.read, isAt.mode]
  simp [Reader.readElementName, Reader.readName, noSpace, extends?]

theorem takes_endTag {chars : List Char} {c : Char} (noSpace : isSpace c = false)
    (extends? : Name.extend? chars c = some (c :: chars))
    : { stage with mode := .endTag chars : Stage }.Takes (.char c)
        { stage with mode := .endTag (c :: chars) } := by
  refine takes_of_goto _ fun _ isAt => ?_
  rw [Reader.read, isAt.mode]
  simp [Reader.readEndTag, Reader.readName, noSpace, extends?]

-----------------------------------------------------------------------------------------
-- Attributes
-----------------------------------------------------------------------------------------

/-- Within a tag, the place goes on without the tag changing. -/
theorem takes_place {tag : StartTag} {place next : Place} {token : Token}
    (goesOn : place.mayEnd = true → token ≠ .tagEnd ∧ token ≠ .emptyTagEnd)
    (reads : place.read? [] false tag.accepts token = some (.to next))
    : { stage with mode := .startTag tag place : Stage }.Takes token
        { stage with mode := .startTag tag next } := by
  refine takes_of_goto _ fun _ isAt => ?_
  have noEnd : ¬(place.mayEnd = true ∧ token = .tagEnd) := fun ends => (goesOn ends.1).1 ends.2
  have noEmptyEnd : ¬(place.mayEnd = true ∧ token = .emptyTagEnd) := fun ends =>
    (goesOn ends.1).2 ends.2
  rw [Reader.read, isAt.mode]
  dsimp only
  rw [Reader.readStartTag, if_neg noEnd, if_neg noEmptyEnd, isAt.entities, isAt.version, reads]

/-- The quote behind a value gives the attribute to the tag. -/
theorem takes_given {tag next : StartTag} {name : Name} {run : Run}
    (complete : run.reference = none) (takes : tag.take? name run.content = some next)
    : { stage with mode := .startTag tag (.inValue name .quote run) : Stage }.Takes .quote
        { stage with mode := .startTag next .afterValue } := by
  refine takes_of_goto _ fun _ isAt => ?_
  rw [Reader.read, isAt.mode]
  simp [Reader.readStartTag, Place.read?, complete, takes]

theorem valueToken_ne_quote (c : Char) : valueToken c ≠ .quote := by
  unfold valueToken
  split
  · decide
  · split
    · decide
    · split
      · decide
      · exact Token.noConfusion

/-- The tokens of a value go on with it, none of them being the quote that ends it. By induction on
the tokens.
-/
theorem takesAll_value (tag : StartTag) (name : Name) {text : List Char} {run next : Run}
    (extends? : run.extendAll? (text.map valueToken) = some next)
    : { stage with mode := .startTag tag (.inValue name .quote run) : Stage }.TakesAll
        (text.map valueToken)
        { stage with mode := .startTag tag (.inValue name .quote next) } := by
  induction text generalizing run with
  | nil =>
      obtain rfl := Option.some.inj extends?
      exact .nil _
  | cons c text ih =>
      rw [Run.extendAll?, List.map_cons, List.foldlM_cons] at extends?
      obtain ⟨between, first, others⟩ := Option.bind_eq_some_iff.mp extends?
      refine .cons (takes_place stage (fun ends => by cases ends) ?_) (ih others)
      have goesOn : ¬(valueToken c = .quote ∧ run.reference = none) := fun ends =>
        valueToken_ne_quote c ends.1
      rw [Place.read?, if_neg goesOn, first]
      rfl

/-- An attribute is read into its tag as it was before it was written. -/
theorem goes_attribute {tag : StartTag} {attr : String × String}
    (isLocal : isLocalName attr.1.toList = true) (noSpace : attr.1 ≠ "xmlns")
    (plain : ∀ c ∈ attr.2.toList, isPlain false c = true)
    (accepts : tag.accepts (Name.ofLocal attr.1) = true)
    : { stage with mode := .startTag tag .between : Stage }.Goes (attributeText attr)
        { stage with
          mode :=
            .startTag
              { tag with attributes := (Name.ofLocal attr.1, attr.2) :: tag.attributes }
              .afterValue } := by
  obtain ⟨name, value⟩ := attr
  dsimp only at isLocal noSpace plain accepts ⊢
  -- The name, the sign behind it and the quote, as tokens and as steps.
  have quotable : ∀ c ∈ value.toList.flatMap escape, isQuotable c = true := by
    intro c member
    obtain ⟨d, -, inside⟩ := List.mem_flatMap.mp member
    exact isQuotable_of_mem_escape d c inside
  have scans
      : scan? .plain (attributeText (name, value))
        = some
          (name.toList.map .char
            ++ .equals :: .quote :: ((value.toList.flatMap escape).map valueToken ++ [.quote]),
          .plain) := by
    have equals : Scanner.cut? false .plain '=' = some _ := rfl
    have quote : Scanner.cut? false .plain '"' = some _ := rfl
    exact scan?_append (scan?_local (isLocalChar_of_mem isLocal))
      (scan?_cons equals (scan?_cons quote (scan?_quotable quotable .nothing)))
  have named
      : { stage with mode := .startTag tag .between : Stage }.TakesAll (name.toList.map .char)
          { stage with mode := .startTag tag (.naming name.toList.reverse) } := by
    refine takesAll_name stage (fun chars => .startTag tag (.naming chars)) ?_ ?_ isLocal
    · intro c notSpace begins
      refine takes_place stage (fun _ => ⟨Token.noConfusion, Token.noConfusion⟩) ?_
      simp [Place.read?, notSpace, begins]
    · intro chars c notSpace goesOn
      refine takes_place stage (fun ends => by cases ends) ?_
      simp [Place.read?, notSpace, goesOn]
  have equals
      : { stage with mode := .startTag tag (.naming name.toList.reverse) : Stage }.Takes .equals
          { stage with mode := .startTag tag (.beforeValue (Name.ofLocal name)) } := by
    refine takes_place stage (fun ends => by cases ends) ?_
    simp [Place.read?, parse?_local isLocal, accepts]
  have quote
      : { stage with mode := .startTag tag (.beforeValue (Name.ofLocal name)) : Stage }.Takes
          .quote
          { stage with mode := .startTag tag (.inValue (Name.ofLocal name) .quote {}) } :=
    takes_place stage (fun ends => by cases ends) rfl
  have read := takesAll_value stage tag (Name.ofLocal name) (extendAll?_escaped plain [])
  have given
      : { stage with
          mode :=
            .startTag tag
              (.inValue (Name.ofLocal name) .quote { chars := value.toList.reverse ++ [] })
          : Stage }.Takes .quote
          { stage with
            mode :=
              .startTag { tag with attributes := (Name.ofLocal name, value) :: tag.attributes }
                .afterValue } := by
    refine takes_given stage rfl ?_
    simp [StartTag.take?, Name.ofLocal, noSpace, Run.content]
  exact goes_of_scan? scans (named.append (.cons equals (.cons quote (read.append given.all))))

-----------------------------------------------------------------------------------------
-- Start tags
-----------------------------------------------------------------------------------------

theorem takes_blank {mode : Mode} {tag : StartTag} (tagged : Tagged mode tag)
    : { stage with mode : Stage }.Takes (.char ' ')
        { stage with mode := .startTag tag .between } := by
  cases tagged with
  | @named chars name isName =>
      refine takes_of_goto _ fun _ isAt => ?_
      rw [Reader.read, isAt.mode]
      dsimp only
      rw [Reader.readElementName, Reader.readName]
      dsimp only
      rw [if_pos (by decide), isName]
  | given =>
      exact takes_place stage (fun _ => ⟨Token.noConfusion, Token.noConfusion⟩) rfl

/-- Attributes are read into a tag one after the other. By induction on the attributes. -/
theorem goes_attributes {attributes : List (String × String)}
    (writable
      : ∀ attr ∈ attributes,
          isLocalName attr.1.toList = true
          ∧ attr.1 ≠ "xmlns"
          ∧ ∀ c ∈ attr.2.toList, isPlain false c = true)
    (distinct : (attributes.map Prod.fst).Nodup) {mode : Mode} {tag : StartTag}
    (tagged : Tagged mode tag)
    (accepts : ∀ attr ∈ attributes, tag.accepts (Name.ofLocal attr.1) = true)
    : ∃ next,
        Tagged next
            { tag with
              attributes :=
                (attributes.map fun attr => (Name.ofLocal attr.1, attr.2)).reverse
                  ++ tag.attributes }
        ∧ { stage with mode : Stage }.Goes
            (attributes.flatMap fun attr => ' ' :: attributeText attr)
            { stage with mode := next } := by
  induction attributes generalizing mode tag with
  | nil => exact ⟨mode, tagged, goes_nil _⟩
  | cons attr attributes ih =>
      obtain ⟨⟨isLocal, noSpace, plain⟩, laterWritable⟩ := List.forall_mem_cons.mp writable
      obtain ⟨first, others⟩ := List.forall_mem_cons.mp accepts
      obtain ⟨new, laterDistinct⟩ := List.nodup_cons.mp distinct
      have blank
          : { stage with mode : Stage }.Goes [' '] { stage with mode := .startTag tag .between } :=
        goes_of_scan? rfl (takes_blank stage tagged).all
      have here := goes_attribute stage isLocal noSpace plain first
      obtain ⟨next, isTagged, goes⟩ := ih laterWritable laterDistinct
        (.given { tag with attributes := (Name.ofLocal attr.1, attr.2) :: tag.attributes })
        (fun later member => by
          have differs : attr.1 ≠ later.1 := fun same =>
            new (same ▸ List.mem_map_of_mem member)
          have accepted := others later member
          simp only [StartTag.accepts, List.all_cons, Bool.and_eq_true] at accepted ⊢
          refine ⟨bne_iff_ne.mpr fun same => differs ?_, accepted⟩
          exact congrArg Name.base same)
      refine ⟨next, ?_, ?_⟩
      · rw [List.map_cons, List.reverse_cons, List.append_assoc]
        exact isTagged
      · rw [List.flatMap_cons, List.cons_append]
        exact blank.append (here.append goes)

/-- The end of a start tag yields the start of its element. -/
theorem exists_openElement {stage : Stage} {reader : Reader} (isAt : reader.At stage)
    {tag : StartTag} (unspaced : tag.IsUnspaced)
    : ∃ after,
        reader.openElement tag false = .ok after
        ∧ after.At { stage with
            mode := .content
            opened := tag.name :: stage.opened
            events := .opened tag.element :: stage.events }
        ∧ after.scanner = reader.scanner := by
  rw [Reader.openElement]
  dsimp only
  rw [StartTag.isBound_of_isUnspaced unspaced, if_pos rfl, if_neg (by decide)]
  refine ⟨_, rfl, ?_, rfl⟩
  refine { isAt with opened := ?_, mode := rfl, events := ?_ }
  · exact congrArg (tag.name :: ·) isAt.opened
  · exact congrArg (.opened tag.element :: ·) isAt.events

/-- The end of an empty tag yields the start and the end of its element. -/
theorem exists_openElement_empty {stage : Stage} {reader : Reader} (isAt : reader.At stage)
    {tag : StartTag} (unspaced : tag.IsUnspaced)
    : ∃ after,
        reader.openElement tag true = .ok after
        ∧ after.At { stage with
            mode := .content
            events := .closed :: .opened tag.element :: stage.events }
        ∧ after.scanner = reader.scanner := by
  rw [Reader.openElement]
  dsimp only
  rw [StartTag.isBound_of_isUnspaced unspaced, if_pos rfl, if_pos rfl]
  refine ⟨_, rfl, ?_, rfl⟩
  refine { isAt with mode := rfl, events := ?_ }
  exact congrArg (fun events => .closed :: .opened tag.element :: events) isAt.events

theorem takes_tagEnd {mode : Mode} {tag : StartTag} (tagged : Tagged mode tag)
    (unspaced : tag.IsUnspaced)
    : { stage with mode : Stage }.Takes .tagEnd
        { stage with
          mode := .content
          opened := tag.name :: stage.opened
          events := .opened tag.element :: stage.events } := by
  intro reader isAt
  obtain ⟨after, opens, isAfter, kept⟩ := exists_openElement isAt unspaced
  refine ⟨after, opens ▸ ?_, isAfter, kept⟩
  rw [Reader.read, isAt.mode]
  cases tagged with
  | @named chars name isName =>
      exact Reader.readName_of_sign (fun _ => Token.noConfusion) isName
  | given => exact if_pos ⟨rfl, rfl⟩

theorem takes_emptyTagEnd {tag : StartTag} (unspaced : tag.IsUnspaced)
    : { stage with mode := .startTag tag .between : Stage }.Takes .emptyTagEnd
        { stage with
          mode := .content
          events := .closed :: .opened tag.element :: stage.events } := by
  intro reader isAt
  obtain ⟨after, opens, isAfter, kept⟩ := exists_openElement_empty isAt unspaced
  refine ⟨after, opens ▸ ?_, isAfter, kept⟩
  rw [Reader.read, isAt.mode]
  dsimp only
  rw [Reader.readStartTag, if_neg (by simp), if_pos ⟨rfl, rfl⟩]

end Stage

end ApiBindings.Markup
