import ApiBindings.Text.Blank

/-! Documentation comments of generated items. -/

namespace ApiBindings.Code

/-- One line of documentation; an empty one has no blank behind its slashes. -/
def docLine (indent : String) (line : List Char) : String :=
  match Text.trimEnd line with
  | [] => indent ++ "///\n"
  | text => indent ++ "/// " ++ String.ofList text ++ "\n"

/-- Every line of a text as a line of documentation. -/
def docComment (indent text : String) : String :=
  String.join ((Text.lines text.toList).map (docLine indent))

end ApiBindings.Code
