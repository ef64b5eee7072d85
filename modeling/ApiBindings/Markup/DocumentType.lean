import ApiBindings.Markup.Entity

/-! Document types: of all their declarations only those of entities are taken. -/

namespace ApiBindings.Markup

/-- A text in quotes that an entity is to stand for, the last character first. -/
structure EntityValue where
  name : String
  mark : Token
  chars : List Char := []
  deriving DecidableEq, Repr

def EntityValue.push (value : EntityValue) (text : List Char) : EntityValue :=
  { value with chars := text.reverse ++ value.chars }

/-- A place inside of a document type. Names and keywords are kept with the last character
first. -/
inductive TypePlace where
  | between
  | literal (mark : Token)
  | comment
  | keyword (chars : List Char)
  | beforeName
  | naming (chars : List Char)
  /-- After the percent sign of an entity for use in the document type. -/
  | beforeParameter
  | namingParameter (chars : List Char)
  | beforeValue (name : String)
  | inValue (value : EntityValue)
  /-- After `&` in a value. -/
  | ampersand (value : EntityValue)
  | number (value : EntityValue) (digits : List Char)
  | parameterInValue (value : EntityValue) (chars : List Char)
  | parameterReference (chars : List Char)
  /-- Inside of a declaration, or of the rest of one, that says nothing. -/
  | skipped
  deriving DecidableEq, Repr

/-- Where a token leads to. -/
inductive TypeAdvance where
  | to (place : TypePlace)
  /-- An entity is declared. -/
  | declared (name text : String)
  /-- A text is to be read as if it stood here. -/
  | expand (text : List Char)
  | finished
  deriving DecidableEq, Repr

namespace TypePlace

def readBetween : Token → Option TypeAdvance
  | .tagEnd => some .finished
  | .declarationStart => some (.to (.keyword []))
  | .char c => some (.to (if c = '%' then .parameterReference [] else .between))
  | .commentStart => some (.to .comment)
  | .quote => some (.to (.literal .quote))
  | .apostrophe => some (.to (.literal .apostrophe))
  | .dataStart | .dataEnd => none
  | _ => some (.to .between)

def afterKeyword? (word : String) : Option TypePlace :=
  if word = "ENTITY" then some .beforeName
  else if word ∈ ["NOTATION", "ELEMENT", "ATTLIST"] then some .skipped
  else none

/-- Reads a token in front of the value of an entity. The text of an entity that stands elsewhere
is not fetched and counts as empty. -/
def readBeforeValue (name : String) : Token → Option TypeAdvance
  | .quote => some (.to (.inValue { name, mark := .quote }))
  | .apostrophe => some (.to (.inValue { name, mark := .apostrophe }))
  | .char c =>
      if isSpace c then some (.to (.beforeValue name))
      else if c = 'S' ∨ c = 'P' then some (.declared name "")
      else none
  | _ => none

/-- Reads a token of a value. Only numeric references are replaced in it, and those to entities
for use in the document type. -/
def readValue (isVersion11 : Bool) (value : EntityValue) (token : Token)
    : Option TypeAdvance :=
  if token = value.mark then
    some (.declared value.name (String.ofList value.chars.reverse))
  else
    match token with
    | .quote | .apostrophe => some (.to (.inValue (value.push token.text)))
    | .ampersand => some (.to (.ampersand value))
    | .char c =>
        if c = '&' then some (.to (.ampersand value))
        else if c = '%' then some (.to (.parameterInValue value []))
        else if isAllowed isVersion11 c then some (.to (.inValue (value.push [c])))
        else none
    | _ => none

/-- The text of a reference to an entity for use in the document type. -/
def parameter? (entities : Entities) (chars : List Char) : Option (List Char) :=
  (entities.lookup (String.ofList ('%' :: chars.reverse))).map String.toList

/-- Whether a token is a semicolon, no matter where it stands. -/
def isSemicolon (token : Token) : Bool :=
  token == .semicolon || token == .char ';'

def read? (place : TypePlace) (entities : Entities) (isVersion11 : Bool) (token : Token)
    : Option TypeAdvance :=
  match place with
  | .between => readBetween token
  | .literal mark => some (.to (if token = mark then .between else .literal mark))
  | .comment => some (.to (if token = .commentEnd then .between else .comment))
  | .keyword chars =>
      match token with
      | .char c =>
          if c.isUpper then some (.to (.keyword (c :: chars)))
          else if isSpace c then (afterKeyword? (String.ofList chars.reverse)).map .to
          else none
      | _ => none
  | .beforeName =>
      match token with
      | .char c =>
          if isSpace c then some (.to .beforeName)
          else if c = '%' then some (.to .beforeParameter)
          else if isNameStart c then some (.to (.naming [c]))
          else none
      | _ => none
  | .naming chars =>
      match token with
      | .char c =>
          if isSpace c then some (.to (.beforeValue (String.ofList chars.reverse)))
          else if isNameChar c then some (.to (.naming (c :: chars)))
          else none
      | _ => none
  | .beforeParameter =>
      match token with
      | .char c =>
          if isSpace c then some (.to .beforeParameter)
          else if isNameStart c then some (.to (.namingParameter [c]))
          else none
      | _ => none
  | .namingParameter chars =>
      match token with
      | .char c =>
          if isNameChar c then some (.to (.namingParameter (c :: chars)))
          else if isSpace c then
            some (.to (.beforeValue (String.ofList ('%' :: chars.reverse))))
          else none
      | _ => none
  | .beforeValue name => readBeforeValue name token
  | .inValue value => readValue isVersion11 value token
  | .ampersand value =>
      match token with
      | .char c =>
          if c = '#' then some (.to (.number value []))
          else if isAllowed isVersion11 c then some (.to (.inValue (value.push ['&', c])))
          else none
      | _ => none
  | .number value digits =>
      if isSemicolon token then
        (Reference.numbered? isVersion11 digits.reverse).map fun c =>
          .to (.inValue (value.push [c]))
      else
        match token with
        | .char c =>
            if isAllowed isVersion11 c then some (.to (.number value (c :: digits))) else none
        | _ => none
  | .parameterInValue value chars =>
      if isSemicolon token then
        (parameter? entities chars).map fun text => .to (.inValue (value.push text))
      else
        match token with
        | .char c =>
            if isNameChar c then some (.to (.parameterInValue value (c :: chars))) else none
        | _ => none
  | .parameterReference chars =>
      if isSemicolon token then
        (parameter? entities chars).map .expand
      else
        match token with
        | .char c =>
            if isNameChar c then some (.to (.parameterReference (c :: chars))) else none
        | _ => none
  | .skipped => some (if token = .tagEnd then .to .between else .to .skipped)

end TypePlace

end ApiBindings.Markup
