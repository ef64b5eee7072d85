import ApiBindings.Text.Blank
import ApiBindings.Text.Word

/-! The parts of C declarations that more than one reader looks for. -/

namespace ApiBindings.Declarator

open ApiBindings.Text

/-- The end of a named pointer in parentheses: a star, the name and the closing parenthesis, with
what follows it. -/
def starredName? (cs : List Char) : Option (List Char × List Char) := do
  let star ← strip? ['*'] cs
  let (name, rest) ← identifier? (trimStart star)
  let after ← strip? [')'] (trimStart rest)
  some (name, after)

end ApiBindings.Declarator
