import ApiBindings.Markup.Token
import ApiBindings.Markup.Char
import ApiBindings.Text.Number

/-! References: the names between an ampersand and a semicolon, and what they stand for. In runs of
character data they are replaced as they are completed.
-/

namespace ApiBindings.Markup

/-- The entities that a document declares, with the texts they stand for. The names of those for
use in the document type start with a percent sign. -/
abbrev Entities : Type :=
  List (String × String)

/-- Declares an entity; the first declaration of a name counts. -/
def Entities.declare (entities : Entities) (name text : String) : Entities :=
  if (entities.lookup name).isSome then entities else entities ++ [(name, text)]

/-- What a reference stands for. -/
inductive Replacement where
  | char (c : Char)
  | text (text : List Char)
  deriving DecidableEq, Repr

def Replacement.chars : Replacement → List Char
  | char c => [c]
  | text cs => cs

namespace Reference

/-- The character of a numeric reference, given what stands between `#` and the semicolon. -/
def numbered? (isVersion11 : Bool) (digits : List Char) : Option Char := do
  let unsigned (digits : List Char) := match digits with
    | '+' :: rest => rest
    | _ => digits
  let n ← match digits with
    | 'x' :: rest => Text.numeral? 16 (unsigned rest)
    | _ => Text.numeral? 10 (unsigned digits)
  if n.isValidChar ∧ isAllowed isVersion11 (Char.ofNat n) then
    some (Char.ofNat n)
  else
    none

/-- The entities of every document. -/
def predefined : List (String × Char) :=
  [("lt", '<'), ("gt", '>'), ("amp", '&'), ("apos", '\x27'), ("quot", '"')]

/-- What a name stands for, which is nothing if no entity has it. -/
def resolve? (entities : Entities) (isVersion11 : Bool) (name : List Char)
    : Option Replacement :=
  match name with
  | '#' :: digits => (numbered? isVersion11 digits).map .char
  | _ =>
      match predefined.lookup (String.ofList name) with
      | some c => some (.char c)
      | none =>
          (entities.lookup (String.ofList name)).map fun text => .text text.toList

/-- A reference after one more token. -/
inductive Progress where
  /-- The name so far, the last character first. -/
  | more (name : List Char)
  | complete (name : List Char)
  deriving DecidableEq, Repr

/-- Reads one more token of a reference. -/
def read? (name : List Char) : Token → Option Progress
  | .char c =>
      if (if name.isEmpty then isNameStart c || c == '#' else isNameChar c) then
        some (.more (c :: name))
      else
        none
  | .semicolon => if name.isEmpty then none else some (.complete name.reverse)
  | _ => none

end Reference

/-- Character data read so far, the last character first. While a reference is being read, its
name so far stands apart from the data. -/
structure Run where
  chars : List Char := []
  reference : Option (List Char) := none
  deriving DecidableEq, Repr

namespace Run

def push (run : Run) (text : List Char) : Run :=
  { run with chars := text.reverse ++ run.chars }

def content (run : Run) : String :=
  String.ofList run.chars.reverse

/-- Reads one more token of the value of an attribute. There is no next run if the value may not
hold the token or if it completes a reference to nothing. -/
def extend? (run : Run) (entities : Entities) (isVersion11 : Bool) (token : Token)
    : Option Run :=
  match run.reference with
  | some name => do
      match ← Reference.read? name token with
      | .more name => some { run with reference := some name }
      | .complete name =>
          let found ← Reference.resolve? entities isVersion11 name
          some ({ chars := run.chars : Run }.push found.chars)
  | none =>
      match token with
      | .ampersand => some { run with reference := some [] }
      | .tagStart | .instructionStart => none
      | .char c => if isPlain isVersion11 c then some (run.push [c]) else none
      | other => some (run.push other.text)

end Run

end ApiBindings.Markup
