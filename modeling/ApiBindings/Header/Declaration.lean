import ApiBindings.Declarator
import ApiBindings.Diagnostic

/-! What single C declarations of a header say: which name a type definition introduces, what the
enumerators of a body are, and how a prototype divides into return type, name and parameters.
Declarations are taken with one blank between any two words.
-/

namespace ApiBindings.Header

open ApiBindings.Declarator
open ApiBindings.Text

/-- The words that C types are made of; none of them is taken for the name of a parameter. -/
def typeWords : List String :=
  ["void", "char", "short", "int", "long", "float", "double", "signed", "unsigned", "const",
    "struct", "enum", "union", "volatile"]

/-- The type words that name no type by themselves. -/
def qualifyingWords : List String :=
  ["signed", "unsigned", "const", "struct", "enum", "union", "volatile"]

/-- A named function pointer in parentheses at the front of a text. -/
def functionPointer? (cs : List Char) : Option (List Char × List Char) := do
  let inner ← strip? ['('] cs
  starredName? (trimStart inner)

/-- The first named function pointer of a text: what stands before it, its name, and what stands
behind it. -/
def findFunctionPointer? (cs : List Char) : Option (List Char × List Char × List Char) :=
  find? (fun _ rest => functionPointer? rest) none cs

/-- The number of opening brackets in a text that consists of array lengths only. -/
def arrays? (cs : List Char) : Option Nat :=
  match cs with
  | [] => some 0
  | '[' :: rest =>
      match _h : rest.dropWhile (· != ']') with
      | _ :: after =>
          (arrays? (trimStart after)).map fun n =>
            n + 1 + (rest.takeWhile (· != ']')).count '['
      | [] => none
  | _ => none
termination_by cs.length
decreasing_by
  have hl := length_dropWhile_le (· != ']') rest
  have ht : (trimStart after).length ≤ after.length := length_dropWhile_le isBlank after
  rw [_h] at hl
  simp only [List.length_cons] at hl ⊢
  omega

/-- A name that only array lengths follow, with the number of their brackets. -/
def nameBeforeArrays? (cs : List Char) : Option (List Char × Nat) := do
  let (name, rest) ← identifier? cs
  let arrays ← arrays? (trimStart rest)
  some (name, arrays)

/-- Whether a text in front of a name can be a type: it has a word that is no mere qualifier. -/
def isType (base : List Char) : Bool :=
  (words base).any fun word => !qualifyingWords.contains (String.ofList word)

/-- Reads a parameter whose position counts from zero. A parameter without a recognisable name is
given one by its position, and its whole text is its type. -/
def readParam (position : Nat) (text : List Char) : Except Problem Param :=
  if text.isEmpty then
    .error (.emptyParameter (position + 1))
  else if text = "...".toList then
    .error .variadic
  else
    match findFunctionPointer? text with
    | some (before, name, after) =>
        let type := collapse (before ++ "(*)".toList ++ after)
        .ok (Param.declare (String.ofList name) (String.ofList type))
    | none =>
        let unnamed := Param.declare ("arg" ++ toString position) (String.ofList text)
        match find? (fun _ rest => nameBeforeArrays? rest) none text with
        | none => .ok unnamed
        | some (before, name, arrays) =>
            if isType before && !typeWords.contains (String.ofList name) then
              let stars := (List.replicate arrays " *".toList).flatten
              let type := collapse (trim before ++ stars)
              .ok (Param.declare (String.ofList name) (String.ofList type))
            else
              .ok unnamed

/-- Reads parameters up to the first one that cannot be read. -/
def readParamsFrom (position : Nat) : List (List Char) → Except Problem (List Param)
  | [] => .ok []
  | text :: rest => do
      let param ← readParam position (trim text)
      let later ← readParamsFrom (position + 1) rest
      .ok (param :: later)

/-- Reads what stands between the parentheses of a prototype. -/
def readParams (text : List Char) : Except Problem (List Param) :=
  let text := trim text
  if text.isEmpty || text == "void".toList then
    .ok []
  else
    readParamsFrom 0 (cutOutside ',' 0 text)

/-- A name and the parenthesis behind it that encloses the rest of a text. -/
def callAt? (before : Option Char) (cs : List Char) : Option (List Char × List Char) :=
  if isBoundary before cs.head? then do
    let (name, rest) ← identifier? cs
    let inner ← strip? ['('] (trimStart rest)
    if inner.getLast? = some ')' then some (name, inner.dropLast) else none
  else
    none

/-- A prototype taken apart. -/
structure Prototype where
  returns : List Char
  name : List Char
  params : List Char
  deriving DecidableEq, Repr

/-- Takes a prototype apart at its first name that a parenthesis follows. -/
def prototype? (cs : List Char) : Option Prototype :=
  (find? callAt? none cs).map fun (before, name, params) =>
    { returns := trim before, name, params }

/-- The tag of an `enum` with a body, at a place in a declaration. -/
def enumTagAt? (before : Option Char) (cs : List Char) : Option (List Char) :=
  if isBoundary before cs.head? then do
    let rest ← strip? "enum".toList cs
    let (tag, after) ← if rest.head?.any isBlank then identifier? (trimStart rest) else none
    let _ ← strip? ['\x7b'] (trimStart after)
    some tag
  else
    none

def enumTag? (cs : List Char) : Option String :=
  (find? enumTagAt? none cs).map fun (_, tag) => String.ofList tag

/-- What stands before the first brace, between it and the last one, and behind that. -/
structure Braces where
  before : List Char
  inner : List Char
  after : List Char
  deriving DecidableEq, Repr

/-- Cuts a declaration at its first opening and its last closing brace, when they stand in this
order. -/
def braces? (cs : List Char) : Option Braces :=
  let rest := (cs.dropWhile (· != '\x7b')).drop 1
  if rest.contains '\x7d' then
    some {
      before := cs.takeWhile (· != '\x7b')
      inner := ((rest.reverse.dropWhile (· != '\x7d')).drop 1).reverse
      after := (rest.reverse.takeWhile (· != '\x7d')).reverse
    }
  else
    none

def lastName? (cs : List Char) : Option String :=
  (identifiers cs).getLast?.map String.ofList

/-- The name that a type definition without a body introduces. -/
def definedName? (cs : List Char) : Option String :=
  match findFunctionPointer? cs with
  | some (_, name, _) => some (String.ofList name)
  | none => lastName? (cs.takeWhile (· != '['))

/-- One item of an enum's body: its name, the expression for its value if there is one, and the
text of both. -/
structure Enumerator where
  name : List Char
  value : Option (List Char)
  text : List Char
  deriving DecidableEq, Repr

def enumerator (text : List Char) : Enumerator where
  name := trim (text.takeWhile (· != '='))
  value :=
    if text.contains '=' then some (trim ((text.dropWhile (· != '=')).drop 1)) else none
  text

/-- The items of an enum's body; there may be nothing between two commas. -/
def enumerators (body : List Char) : List Enumerator :=
  (((cutOutside ',' 0 body).map trim).filter (fun text => !text.isEmpty)).map enumerator

end ApiBindings.Header
