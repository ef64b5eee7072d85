import ApiBindings.Markup.Element

/-! Writing XML: one element on a line, indented by two blanks for each level. -/

namespace ApiBindings.Markup

/-- How a character is written inside the quotes of an attribute. -/
def escape (c : Char) : List Char :=
  match c with
  | '&' => "&amp;".toList
  | '<' => "&lt;".toList
  | '>' => "&gt;".toList
  | '"' => "&quot;".toList
  | '\x27' => "&apos;".toList
  | '\n' => "&#xA;".toList
  | '\r' => "&#xD;".toList
  | _ => [c]

def escaped (text : String) : String :=
  String.ofList (text.toList.flatMap escape)

namespace Tag

def writeAttribute (attr : String × String) : String :=
  " " ++ attr.1 ++ "=\"" ++ escaped attr.2 ++ "\""

/-- A tag without the sign that starts it and those that end it. -/
def inside (tag : Tag) : String :=
  tag.name ++ String.join (tag.attributes.map writeAttribute)

end Tag

def indentation (depth : Nat) : String :=
  String.ofList (List.replicate (2 * depth) ' ')

mutual

/-- The lines of a node. An element without children is written as one empty tag. -/
def Node.write (depth : Nat) : Node → String
  | .text content => indentation depth ++ escaped content ++ "\n"
  | .element tag [] => indentation depth ++ "<" ++ tag.inside ++ " />\n"
  | .element tag (child :: rest) =>
      indentation depth ++ "<" ++ tag.inside ++ ">\n"
        ++ child.write (depth + 1) ++ writeNodes (depth + 1) rest
        ++ indentation depth ++ "</" ++ tag.name ++ ">\n"

def writeNodes (depth : Nat) : List Node → String
  | [] => ""
  | node :: rest => node.write depth ++ writeNodes depth rest

end

/-- A document: the declaration and the lines of its root. -/
def document (root : Node) : String :=
  "<?xml version=\"1.0\" encoding=\"utf-8\"?>\n" ++ root.write 0

end ApiBindings.Markup
