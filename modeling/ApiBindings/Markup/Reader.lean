import ApiBindings.Markup.Attribute
import ApiBindings.Markup.DocumentType
import ApiBindings.Markup.Encoding
import ApiBindings.Markup.Event
import ApiBindings.Markup.Scanner

/-! Reading an XML document, one character at a time.
The reader is a machine whose state says what is being read, so reading a text in two parts is
the same as reading it at once, and whatever was yielded before an error stays yielded. Nothing
is yielded for a tag or a run of text that an error cuts short. The line of an error is the one
on which the token begins that it was found at.
-/

namespace ApiBindings.Markup

/-- What has gone by at the outermost level. -/
inductive Prolog where
  | untouched
  | begun
  | typed
  | rooted
  deriving DecidableEq, Repr

/-- An element that has been opened, with the namespaces that are declared inside of it. -/
structure OpenElement where
  name : Name
  spaces : List String
  deriving DecidableEq, Repr

/-- What is being read. Characters of names are kept with the last one first. -/
inductive Mode where
  /-- At the very start of the document. -/
  | start
  /-- Between two pieces of markup. -/
  | content
  | comment
  | data
  | elementName (chars : List Char)
  | startTag (tag : StartTag) (place : Place)
  | endTag (chars : List Char)
  | endTagBlank (name : Name)
  /-- Inside of the name of an instruction. -/
  | target (chars : List Char)
  | instruction
  | declaration (declared : Declared) (place : Place)
  | documentType (place : TypePlace)
  deriving DecidableEq, Repr

structure Reader where
  scanner : Scanner := {}
  isMarked : Bool := false
  encoding : Encoding := .unicode
  isVersion11 : Bool := false
  prolog : Prolog := .untouched
  entities : Entities := []
  /-- The elements that are open, the innermost first. -/
  opened : List OpenElement := []
  run : Run := {}
  mode : Mode := .start
  /-- The text of an entity that has to be read before the document goes on. -/
  expansion : List Char := []
  marks : Marks := {}
  /-- The line on which the latest token begins. -/
  line : Nat := 1
  /-- What has been yielded, the latest first. -/
  events : List Event := []
  deriving DecidableEq, Repr

namespace Reader

/-- The outcome of a step: the next state, or what was read before an error and its line. -/
abbrev Outcome : Type :=
  Except Reading Reader

def failAt (reader : Reader) (line : Nat) : Outcome :=
  .error { events := reader.events.reverse, fault := some line }

def fail (reader : Reader) : Outcome :=
  reader.failAt reader.line

def goto (reader : Reader) (mode : Mode) : Outcome :=
  .ok { reader with mode }

/-- Notes that a piece begins with the token at hand. -/
def note (reader : Reader) : Reader :=
  { reader with marks := reader.marks.note reader.line }

/-- Takes the note of a piece that is yielded. -/
def takeNote (reader : Reader) : Reader :=
  { reader with marks := reader.marks.take reader.line }

def yield (reader : Reader) (event : Event) : Reader :=
  { reader with events := event :: reader.events }

def isOutside (reader : Reader) : Bool :=
  reader.opened.isEmpty

/-- Notes a piece that the run of text is to be part of, unless the run has begun already. -/
def noteRun (reader : Reader) : Reader :=
  if reader.run.chars.isEmpty then reader.note else reader

def push (reader : Reader) (text : List Char) : Reader :=
  { reader with run := reader.run.push text }

/-- Begins a piece of markup. The run of text before it is yielded, if there is any. -/
def beginMarkup (reader : Reader) : Reader :=
  let noted := reader.note
  if reader.run.chars.isEmpty then
    noted
  else
    { noted.takeNote.yield (.text reader.run.content) with run := {} }

/-- The namespaces that are declared where the reader is. -/
def spaces (reader : Reader) : List String :=
  match reader.opened with
  | element :: _ => element.spaces
  | [] => ["xml", "xmlns"]

/-- Whether a name is in no namespace or in a declared one. -/
def isBound (spaces : List String) (name : Name) : Bool :=
  name.space.all fun space => spaces.contains space

/-- Something other than the declaration comes first. The start of the document is a piece of its
own then, which nothing is yielded for. -/
def begin (reader : Reader) : Reader :=
  if reader.prolog = .untouched then { reader.note.takeNote with prolog := .begun } else reader

/-- Reads the first token of a document, after a byte order mark. -/
def readStart (reader : Reader) (token : Token) : Outcome :=
  match token with
  | .char c => if isSpace c then reader.begin.goto .content else reader.fail
  | .commentStart => reader.begin.goto .comment
  | .tagStart => { reader.begin with prolog := .rooted }.goto (.elementName [])
  | .typeStart => { reader.begin with prolog := .typed }.goto (.documentType .between)
  | .instructionStart => reader.note.goto (.target [])
  | _ => reader.fail

/-- Reads a token that ends a run of text, which is lost if the token may not stand there. -/
def readMarkup (reader : Reader) (token : Token) : Outcome :=
  let begun := reader.beginMarkup
  match token with
  | .tagStart => { begun with prolog := .rooted }.goto (.elementName [])
  | .endTagStart => if reader.isOutside then reader.fail else begun.goto (.endTag [])
  | .instructionStart => begun.goto (.target [])
  | .typeStart =>
      if reader.prolog = .untouched ∨ reader.prolog = .begun then
        { begun.takeNote with prolog := .typed }.goto (.documentType .between)
      else
        reader.fail
  | _ => reader.fail

/-- Reads a token between two pieces of markup. Outside of all elements there may only be
blanks. -/
def readContent (reader : Reader) (token : Token) : Outcome :=
  match token with
  | .char c =>
      if reader.isOutside then
        if isSpace c then .ok reader else reader.fail
      else if isPlain reader.isVersion11 c then
        .ok (reader.noteRun.push [c])
      else
        reader.fail
  | .tagEnd | .emptyTagEnd | .instructionEnd | .commentEnd | .equals | .quote | .apostrophe =>
      if reader.isOutside then reader.fail else .ok (reader.noteRun.push token.text)
  | .semicolon => if reader.isOutside then reader.fail else .ok (reader.push token.text)
  | .ampersand =>
      if reader.isOutside then
        reader.fail
      else
        .ok { reader with run := { reader.run with reference := some [] } }
  | .commentStart => reader.begin.goto .comment
  | .dataStart => if reader.isOutside then reader.fail else reader.noteRun.goto .data
  | _ => reader.readMarkup token

/-- Reads a token of a reference in text. The text of an entity may hold markup, so it is read as
a part of the document. -/
def readReference (reader : Reader) (name : List Char) (token : Token) : Outcome :=
  let back := { reader with run := { reader.run with reference := none } }
  match Reference.read? name token with
  | none => reader.fail
  | some (.more name) => .ok { reader with run := { reader.run with reference := some name } }
  | some (.complete name) =>
      match Reference.resolve? reader.entities reader.isVersion11 name with
      | none => reader.fail
      | some (.char c) => .ok (back.push [c])
      | some (.text text) => .ok { back with expansion := text }

def readComment (reader : Reader) (token : Token) : Outcome :=
  match token with
  | .commentEnd => reader.goto .content
  | .char c => if isAllowed reader.isVersion11 c then .ok reader else reader.fail
  | _ => .ok reader

/-- Reads character data that is taken as it is. If there is no text by its end, it takes a note as
a piece that is yielded does. -/
def readData (reader : Reader) (token : Token) : Outcome :=
  match token with
  | .dataEnd =>
      (if reader.run.chars.isEmpty then reader.takeNote else reader).goto .content
  | .char c =>
      if isAllowed reader.isVersion11 c then .ok (reader.push [c]) else reader.fail
  | other => .ok (reader.push other.text)

/-- Ends a start tag. The namespaces it uses have to be declared by then. -/
def openElement (reader : Reader) (tag : StartTag) (isEmpty : Bool) : Outcome :=
  let spaces := tag.spaces ++ reader.spaces
  let attributes := tag.attributes.reverse
  if isBound spaces tag.name && attributes.all (fun entry => isBound spaces entry.1) then
    let noted := reader.takeNote
    let opened := noted.yield <| .opened {
      name := tag.name.base
      attributes := attributes.map fun entry => (entry.1.base, entry.2)
      line := noted.marks.current
    }
    if isEmpty then
      (opened.yield .closed).goto .content
    else
      { opened with opened := { name := tag.name, spaces } :: reader.opened }.goto .content
  else
    reader.fail

/-- Ends an end tag, which has to name the innermost open element. -/
def closeElement (reader : Reader) (name : Name) : Outcome :=
  match reader.opened with
  | element :: outer =>
      if element.name = name then
        { reader.takeNote.yield .closed with opened := outer }.goto .content
      else
        reader.fail
  | [] => reader.fail

/-- The name that has been read for an element or an end tag, if it may be one. -/
def elementName? (chars : List Char) : Option Name :=
  match Name.parse? chars.reverse with
  | some name => if name.isReserved then none else some name
  | none => none

/-- Reads a token of the name of a tag. `finish` is reached at the first token behind it. -/
def readName (reader : Reader) (chars : List Char) (token : Token)
    (more : List Char → Mode) (finish : Name → Outcome)
    : Outcome :=
  match token with
  | .char c =>
      if isSpace c then
        match elementName? chars with
        | some name => finish name
        | none => reader.fail
      else
        match Name.extend? chars c with
        | some chars => reader.goto (more chars)
        | none => reader.fail
  | _ =>
      match elementName? chars with
      | some name => finish name
      | none => reader.fail

def readElementName (reader : Reader) (chars : List Char) (token : Token) : Outcome :=
  reader.readName chars token .elementName fun name =>
    let tag : StartTag := { name }
    match token with
    | .tagEnd => reader.openElement tag false
    | .emptyTagEnd => reader.openElement tag true
    | .char _ => reader.goto (.startTag tag .between)
    | _ => reader.fail

def readStartTag (reader : Reader) (tag : StartTag) (place : Place) (token : Token) : Outcome :=
  if place.mayEnd ∧ token = .tagEnd then reader.openElement tag false
  else if place.mayEnd ∧ token = .emptyTagEnd then reader.openElement tag true
  else
    match place.read? reader.entities reader.isVersion11 tag.accepts token with
    | none => reader.fail
    | some (.to place) => reader.goto (.startTag tag place)
    | some (.given name value) =>
        match tag.take? name value with
        | some tag => reader.goto (.startTag tag .afterValue)
        | none => reader.fail

def readEndTag (reader : Reader) (chars : List Char) (token : Token) : Outcome :=
  reader.readName chars token .endTag fun name =>
    match token with
    | .tagEnd => reader.closeElement name
    | .char _ => reader.goto (.endTagBlank name)
    | _ => reader.fail

def readEndTagBlank (reader : Reader) (name : Name) (token : Token) : Outcome :=
  if token = .tagEnd then reader.closeElement name
  else if Place.isBlank token then .ok reader
  else reader.fail

/-- Ends the declaration. -/
def finishDeclaration (reader : Reader) (declared : Declared) : Outcome :=
  if declared.version.isSome then
    match Encoding.named? reader.isMarked (declared.encoding.getD "utf-8") with
    | some encoding =>
        { reader.takeNote.yield .instruction with encoding, prolog := .begun }.goto .content
    | none => reader.fail
  else
    reader.fail

def readDeclaration (reader : Reader) (declared : Declared) (place : Place) (token : Token)
    : Outcome :=
  if place.mayEnd ∧ token = .instructionEnd then
    reader.finishDeclaration declared
  else
    match place.read? [] reader.isVersion11 declared.accepts token with
    | none => reader.fail
    | some (.to place) => reader.goto (.declaration declared place)
    | some (.given name value) =>
        match declared.take? name value with
        | some declared =>
            { reader with isVersion11 := declared.isVersion11 }.goto
              (.declaration declared .afterValue)
        | none => reader.fail

/-- Reads a token of the name of a processing instruction. The name `xml` is kept for the
declaration, which may only stand at the very start. An instruction of a name alone at the very
start leaves a note behind. -/
def readTarget (reader : Reader) (chars : List Char) (token : Token) : Outcome :=
  let isLanguage := chars.reverse.map Char.toLower == "xml".toList
  match token with
  | .instructionEnd =>
      if isLanguage || chars.isEmpty then reader.fail
      else if reader.prolog = .untouched then (reader.begin.yield .instruction).goto .content
      else (reader.takeNote.yield .instruction).goto .content
  | .char c =>
      if isSpace c then
        if chars.reverse = "xml".toList ∧ reader.prolog = .untouched then
          reader.goto (.declaration {} .between)
        else if isLanguage then
          reader.fail
        else
          reader.begin.goto .instruction
      else if (if chars.isEmpty then isNameStart c else isNameChar c) then
        reader.goto (.target (c :: chars))
      else
        reader.fail
  | _ => reader.fail

def readInstruction (reader : Reader) (token : Token) : Outcome :=
  match token with
  | .instructionEnd => (reader.takeNote.yield .instruction).goto .content
  | .char c => if isAllowed reader.isVersion11 c then .ok reader else reader.fail
  | _ => .ok reader

def readDocumentType (reader : Reader) (place : TypePlace) (token : Token) : Outcome :=
  match place.read? reader.entities reader.isVersion11 token with
  | none => reader.fail
  | some (.to place) => reader.goto (.documentType place)
  | some (.declared name text) =>
      { reader with entities := reader.entities.declare name text }.goto
        (.documentType .skipped)
  | some (.expand text) => { reader with expansion := text }.goto (.documentType .between)
  | some .finished => reader.goto .content

/-- Reads one token in the mode that the reader is in. -/
def read (reader : Reader) (token : Token) : Outcome :=
  match reader.mode with
  | .start => reader.readStart token
  | .content =>
      match reader.run.reference with
      | some name => reader.readReference name token
      | none => reader.readContent token
  | .comment => reader.readComment token
  | .data => reader.readData token
  | .elementName chars => reader.readElementName chars token
  | .startTag tag place => reader.readStartTag tag place token
  | .endTag chars => reader.readEndTag chars token
  | .endTagBlank name => reader.readEndTagBlank name token
  | .target chars => reader.readTarget chars token
  | .instruction => reader.readInstruction token
  | .declaration declared place => reader.readDeclaration declared place token
  | .documentType place => reader.readDocumentType place token

/-- Reads tokens, each with the line on which it begins. -/
def readTokens (reader : Reader) (tokens : List (Nat × Token)) : Outcome :=
  tokens.foldlM (fun reader (line, token) => { reader with line }.read token) reader

/-- Reads one character of the document or of the text of an entity. -/
def readChar (reader : Reader) (counts : Bool) (c : Char) : Outcome :=
  match reader.scanner.step? counts c with
  | none => reader.failAt reader.scanner.tokenLine
  | some (scanner, tokens) => { reader with scanner }.readTokens tokens

/-- How much text of entities may wait to be read when another one is expanded. -/
def waitingBound : Nat :=
  1000000

/-- Reads the texts of entities, in which others may be expanded `left` times. -/
def readExpansion (reader : Reader) (left : Nat) (waiting : List Char) : Outcome :=
  match waiting with
  | [] => .ok reader
  | c :: rest =>
      match reader.readChar false c with
      | .error reading => .error reading
      | .ok next =>
          if next.expansion.isEmpty then
            next.readExpansion left rest
          else
            match left with
            | 0 => next.fail
            | left + 1 =>
                if rest.length ≤ waitingBound then
                  { next with expansion := [] }.readExpansion left (next.expansion ++ rest)
                else
                  next.fail
termination_by (left, waiting.length)

/-- How many entities may be expanded before the document itself goes on. -/
def expansionBound : Nat :=
  10

/-- Reads one character of the document, and the text of the entity that it completes a reference
to. -/
def readCounting (reader : Reader) (c : Char) : Outcome :=
  match reader.readChar true c with
  | .error reading => .error reading
  | .ok next =>
      if next.expansion.isEmpty then
        .ok next
      else
        { next with expansion := [] }.readExpansion (expansionBound - 1) next.expansion

/-- Reads one character in the encoding of the document. No line is known of one that is not in
it. -/
def step (reader : Reader) (c : Char) : Outcome :=
  match reader.encoding.decode? c with
  | some decoded => decoded.foldlM readCounting reader
  | none => reader.failAt 1

/-- Ends the reading. The document has to be complete by then, with at least one element. -/
def finish (reader : Reader) : Reading where
  events := reader.events.reverse
  fault :=
    if reader.scanner.mode = .plain ∧ reader.mode = .content ∧ reader.run.reference = none
        ∧ reader.isOutside ∧ reader.prolog = .rooted then
      none
    else
      some reader.scanner.line

/-- The reader at the start of a document; a byte order mark is no part of it. -/
def start : List Char → Reader × List Char
  | '\ufeff' :: rest => ({ isMarked := true }, rest)
  | cs => ({}, cs)

end Reader

/-- Reads a whole document. -/
def Reading.ofText (text : List Char) : Reading :=
  let (reader, rest) := Reader.start text
  match rest.foldlM Reader.step reader with
  | .ok reader => reader.finish
  | .error reading => reading

end ApiBindings.Markup
