import ApiBindings.Markup.Name
import ApiBindings.Markup.Entity

/-! What is between the name of a tag and its end: attributes, and namespaces declared by them.
The declaration at the start of a document is read the same way.
-/

namespace ApiBindings.Markup

/-- A start tag that is being read, its attributes in reverse. -/
structure StartTag where
  name : Name
  attributes : List (Name × String) := []
  /-- The namespaces that the tag declares. -/
  spaces : List String := []
  deriving DecidableEq, Repr

/-- Takes the value of an attribute. An attribute of the namespace `xmlns`, or of that name,
declares a namespace and is no attribute of the element. -/
def StartTag.take? (tag : StartTag) (name : Name) (value : String) : Option StartTag :=
  let language := ["http://www.w3.org/XML/1998/namespace", "http://www.w3.org/2000/xmlns/"]
  if name.space = some "xmlns" then
    if name.base = "xmlns" ∨ (name.base = "xml" ∧ some value ≠ language.head?) ∨ value = "" then
      none
    else
      some { tag with spaces := name.base :: tag.spaces }
  else if name = { space := none, base := "xmlns" } then
    if value = "xml" ∨ value = "xmlns" ∨ value ∈ language then none else some tag
  else
    some { tag with attributes := (name, value) :: tag.attributes }

/-- Whether an attribute of a name may follow: every name stands once. -/
def StartTag.accepts (tag : StartTag) (name : Name) : Bool :=
  tag.attributes.all fun entry => entry.1 != name

/-- What the declaration at the start of a document has given so far. -/
structure Declared where
  version : Option String := none
  encoding : Option String := none
  standalone : Option String := none
  deriving DecidableEq, Repr

namespace Declared

/-- Whether a name is that of one of the declaration's attributes. A namespace is passed over if
the letter that the attribute starts with stands in front of it. -/
def isNamed (name : Name) (letter : Char) (rest : String) : Bool :=
  match name.space with
  | none => name.base == String.singleton letter ++ rest
  | some space =>
      name.base == rest &&
        match space.toList with
        | first :: second :: _ => first == letter && isNameStart second
        | _ => false

def isVersion (name : Name) : Bool :=
  isNamed name 'v' "ersion"

def isEncoding (name : Name) : Bool :=
  isNamed name 'e' "ncoding"

def isStandalone (name : Name) : Bool :=
  isNamed name 's' "tandalone"

/-- Takes the value of one of the three attributes. -/
def take? (declared : Declared) (name : Name) (value : String) : Option Declared :=
  if isVersion name then
    if value = "1.0" ∨ value = "1.1" then some { declared with version := some value } else none
  else if isEncoding name then
    some { declared with encoding := some value }
  else if value = "yes" ∨ value = "no" then
    some { declared with standalone := some value }
  else
    none

/-- Whether an attribute may follow now: the version comes first, and then the encoding before
the word on standing alone. -/
def accepts (declared : Declared) (name : Name) : Bool :=
  match declared.version, declared.encoding, declared.standalone with
  | none, _, _ => isVersion name
  | some _, none, none => isEncoding name || isStandalone name
  | some _, some _, none => isStandalone name
  | some _, _, some _ => false

def isVersion11 (declared : Declared) : Bool :=
  declared.version == some "1.1"

end Declared

/-- A place among attributes. -/
inductive Place where
  /-- After a blank: an attribute or the end may follow. -/
  | between
  /-- Inside of a name, the last character first. -/
  | naming (chars : List Char)
  | afterName (name : Name)
  | beforeValue (name : Name)
  | inValue (name : Name) (mark : Token) (run : Run)
  /-- Right behind a value: a blank or the end has to follow. -/
  | afterValue
  deriving DecidableEq, Repr

/-- Where a token leads to. -/
inductive Advance where
  | to (place : Place)
  /-- A value is complete. -/
  | given (name : Name) (value : String)
  deriving DecidableEq, Repr

namespace Place

/-- Whether the tag or the declaration may end at a place. -/
def mayEnd : Place → Bool
  | .between | .afterValue => true
  | _ => false

def isBlank : Token → Bool
  | .char c => isSpace c
  | _ => false

/-- Reads a token that does not end the tag. `accepts` tells whether an attribute of a name may
stand there. -/
def read? (place : Place) (entities : Entities) (isVersion11 : Bool) (accepts : Name → Bool)
    (token : Token)
    : Option Advance :=
  match place with
  | .between =>
      match token with
      | .char c =>
          if isSpace c then some (.to .between)
          else (Name.extend? [] c).map fun chars => .to (.naming chars)
      | _ => none
  | .naming chars =>
      match token with
      | .equals =>
          ((Name.parse? chars.reverse).filter accepts).map fun name => .to (.beforeValue name)
      | .char c =>
          if isSpace c then
            ((Name.parse? chars.reverse).filter accepts).map fun name => .to (.afterName name)
          else
            (Name.extend? chars c).map fun chars => .to (.naming chars)
      | _ => none
  | .afterName name =>
      if token = .equals then some (.to (.beforeValue name))
      else if isBlank token then some (.to (.afterName name))
      else none
  | .beforeValue name =>
      if token = .quote ∨ token = .apostrophe then some (.to (.inValue name token {}))
      else if isBlank token then some (.to (.beforeValue name))
      else none
  | .inValue name mark run =>
      if token = mark ∧ run.reference = none then some (.given name run.content)
      else (run.extend? entities isVersion11 token).map fun run => .to (.inValue name mark run)
  | .afterValue => if isBlank token then some (.to .between) else none

end Place

end ApiBindings.Markup
