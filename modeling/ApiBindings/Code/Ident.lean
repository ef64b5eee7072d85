import ApiBindings.Text.Blank

/-! Names of generated Rust items, made from the names of a registry. -/

namespace ApiBindings.Code

/-- The reserved words that a generated name is kept apart from. -/
def keywords : List String :=
  ["as", "async", "await", "box", "break", "const", "continue", "crate", "dyn", "else", "enum",
    "extern", "false", "fn", "for", "if", "impl", "in", "let", "loop", "match", "mod", "move",
    "mut", "priv", "pub", "ref", "return", "self", "Self", "static", "struct", "super", "trait",
    "true", "try", "type", "typeof", "unsafe", "use", "where", "while", "yield"]

def identChar (c : Char) : Char :=
  if c.isAlphanum || c == '_' then c else '_'

/-- Puts an underscore in front of a text that is empty or starts with a digit. -/
def guardStart (cs : List Char) : List Char :=
  match cs with
  | [] => ['_']
  | c :: _ => if c.isDigit then '_' :: cs else cs

/-- Puts an underscore behind a reserved word. -/
def guardKeyword (name : String) : String :=
  if keywords.contains name then name.push '_' else name

/-- An identifier for any name: foreign characters become underscores, a digit or nothing at the
front gets an underscore before it, and a reserved word gets one behind it. -/
def ident (name : String) : String :=
  guardKeyword (String.ofList (guardStart (name.toList.map identChar)))

def capitalize : List Char → List Char
  | [] => []
  | c :: cs => c.toUpper :: cs

/-- The type name of a group: its runs of letters and digits, each with a capital, in a row. -/
def groupName (group : String) : String :=
  let parts := Text.cut (fun c => !c.isAlphanum) group.toList
  ident (String.ofList (parts.flatMap capitalize))

end ApiBindings.Code
