import ApiBindings.Markup.Char
import ApiBindings.Text.Blank

/-! Names in XML: a name may be put into a namespace by a short name and a colon before it. -/

namespace ApiBindings.Markup

structure Name where
  space : Option String
  base : String
  deriving DecidableEq, Repr

namespace Name

/-- One more character for a name that is being read, the last character first. A colon may stand
once, and not in front. -/
def extend? (chars : List Char) (c : Char) : Option (List Char) :=
  if c = ':' then
    if chars.isEmpty || chars.contains ':' then none else some (c :: chars)
  else if (if chars.isEmpty then isNameStart c else isNameChar c) then
    some (c :: chars)
  else
    none

/-- The name that a text spells: one part, or two parts around a colon, neither of them empty. -/
def parse? (text : List Char) : Option Name :=
  match Text.cut (· == ':') text with
  | [base] =>
      if base.isEmpty then none else some { space := none, base := String.ofList base }
  | [space, base] =>
      if space.isEmpty || base.isEmpty then
        none
      else
        some { space := some (String.ofList space), base := String.ofList base }
  | _ => none

/-- Whether a name is in a namespace that belongs to the language itself. -/
def isReserved (name : Name) : Bool :=
  name.space == some "xml" || name.space == some "xmlns"

end Name

end ApiBindings.Markup
