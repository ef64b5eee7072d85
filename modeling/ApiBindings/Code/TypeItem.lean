import ApiBindings.Declarator
import ApiBindings.Code.Ident
import ApiBindings.Code.Spelling
import ApiBindings.Symbol

/-! Rust items for the type declarations of a registry.
A declaration is told by its last `typedef`. Structures become opaque, function pointers become
untyped pointers, and everything else is spelled as an alias of its C type.
-/

namespace ApiBindings.Code

open ApiBindings.Declarator
open ApiBindings.Text

/-- What follows a word and at least one blank behind it, without the blanks. -/
def afterKeyword? (keyword : String) (cs : List Char) : Option (List Char) :=
  match strip? keyword.toList cs with
  | some (c :: rest) => if isBlank c then some (trimStart rest) else none
  | _ => none

theorem length_of_afterKeyword? {keyword : String} {cs rest : List Char}
    (h : afterKeyword? keyword cs = some rest)
    : rest.length < cs.length := by
  unfold afterKeyword? at h
  split at h
  · rename_i c later hs
    split at h
    · cases h
      have hc := congrArg List.length (eq_append_of_strip? hs)
      have hl : (trimStart later).length ≤ later.length := length_dropWhile_le isBlank later
      simp only [List.length_append, List.length_cons] at hc
      omega
    · cases h
  · cases h

/-- The texts between each `typedef` and the semicolon that ends it. -/
def typedefBodies (cs : List Char) : List (List Char) :=
  match cs with
  | [] => []
  | c :: rest =>
      match _h : afterKeyword? "typedef" (c :: rest) with
      | some body =>
          if body.contains ';' then
            body.takeWhile (· != ';') :: typedefBodies ((body.dropWhile (· != ';')).drop 1)
          else
            []
      | none => typedefBodies rest
termination_by cs.length
decreasing_by
  · have hl := length_dropWhile_le (· != ';') body
    have hb := length_of_afterKeyword? _h
    rw [List.length_drop]
    omega
  · exact Nat.lt_succ_self _

/-- The tag that a declaration such as `struct tag;` announces. -/
def announcedTag? (cs : List Char) : Option String := do
  let named ← afterKeyword? "struct" cs <|> afterKeyword? "union" cs
  let (tag, rest) ← identifier? named
  if trimStart rest = [';'] then some (String.ofList tag) else none

/-- A word such as a calling convention, with the blanks behind it, which there has to be one of. -/
def afterWord? (cs : List Char) : Option (List Char) := do
  let (_, rest) ← identifier? cs
  match rest with
  | c :: _ => if isBlank c then some (trimStart rest) else none
  | [] => none

/-- A named pointer in parentheses, as in `(*name)` or `(CALLBACK *name)`, at the front of a text,
with what follows it. -/
def pointerName? (cs : List Char) : Option (List Char × List Char) := do
  let inner ← strip? ['('] cs
  starredName? (trimStart inner) <|> ((afterWord? (trimStart inner)).bind starredName?)

/-- The length between brackets at the end of a declarator, when there are brackets. -/
def lengthAtEnd? (cs : List Char) : Option (Option (List Char)) :=
  match cs with
  | [] => some none
  | '[' :: rest =>
      let inner := trimStart rest
      match trimStart (inner.dropWhile isWordChar) with
      | [']'] => some (some (inner.takeWhile isWordChar))
      | _ => none
  | _ => none

/-- The declared name at the end of a declarator, with its length between brackets. -/
def nameAtEnd? (before : Option Char) (cs : List Char)
    : Option (List Char × Option (List Char)) := do
  let (name, rest) ← identifier? cs
  if isBoundary before cs.head? then
    let length ← lengthAtEnd? (trimStart rest)
    some (name, length)
  else
    none

def opaqueItem (name : String) : String :=
  "#[repr(C)] pub struct " ++ ident name ++ " \x7b _opaque: [u8; 0] \x7d"

def aliasItem (name type : String) : String :=
  "pub type " ++ ident name ++ " = " ++ type ++ ";"

/-- Everything from the last closing brace on, or the whole text if there is none. -/
def fromLastBrace (cs : List Char) : List Char :=
  if cs.contains '\x7d' then
    '\x7d' :: (cs.reverse.takeWhile (· != '\x7d')).reverse
  else
    cs

/-- The item for a type definition, given the text between `typedef` and its semicolon. -/
def definitionItem? (name : String) (body : List Char) : Option String :=
  if body.contains '\x7b' || (strip? "struct ".toList body).isSome
      || (strip? "union ".toList body).isSome then
    if (fromLastBrace body).contains '*' then some (aliasItem name "*mut raw::c_void")
    else if (strip? "enum".toList body).isSome then some (aliasItem name "raw::c_int")
    else some (opaqueItem name)
  else if (find? (fun _ rest => pointerName? rest) none body).isSome then
    some (aliasItem name "*const raw::c_void")
  else do
    let (type, declared, length) ← find? nameAtEnd? none body
    if String.ofList declared = name then
      let spelled := spell "" (CType.parse (String.ofList type))
      match length with
      | none => some (aliasItem name spelled)
      | some [] => some (aliasItem name ("*mut " ++ spelled))
      | some length =>
          some (aliasItem name ("[" ++ spelled ++ "; " ++ String.ofList length ++ "]"))
    else
      none

/-- The item for a declaration, or nothing if it declares no type under its own name. -/
def typeItem? (decl : TypeDecl) : Option String :=
  match (typedefBodies decl.c.toList).getLast? with
  | some body => definitionItem? decl.name (collapse body)
  | none =>
      if announcedTag? (trim decl.c.toList) = some decl.name then
        some (opaqueItem decl.name)
      else
        none

end ApiBindings.Code
