import ApiBindings.Context
import ApiBindings.Code.DocComment
import ApiBindings.Code.Ident

/-! The comments of generated files. -/

namespace ApiBindings.Artifact

open ApiBindings.Code

/-- Lines, each with a line feed behind it. -/
def unlines (lines : List String) : String :=
  String.join (lines.map fun line => line.push '\n')

/-- A text in double quotes. -/
def quoted (text : String) : String :=
  "\"" ++ text ++ "\""

/-- The first line of every generated Rust file. -/
def banner (context : Context) (resolution : Resolution) (what : String) : String :=
  "// " ++ context.api.title ++ " " ++ what ++ " for the `" ++ resolution.profile.name
    ++ "` profile, generated by khronos_bindgen. Do not edit.\n"

/-- The line that lists features and extensions, if there are any. -/
def requirersLine (label : String) (requirers : List Requirer) : String :=
  if requirers.isEmpty then ""
  else "/// " ++ label ++ ": " ++ ", ".intercalate (requirers.map Requirer.name) ++ "\n"

/-- The documentation of a symbol: a summary, its reference text, and who requires and removes
it. -/
def symbolComment (context : Context) (summary symbol : String) (mentions : Mentions) : String :=
  let text := match context.documentation? symbol with
    | some text => "///\n" ++ docComment "" text
    | none => ""
  docComment "" summary ++ text
    ++ (if mentions.requiredBy.isEmpty then "" else "///\n")
    ++ requirersLine "Required by" mentions.requiredBy
    ++ requirersLine "Removed by" mentions.removedBy

/-- What is said about an enumerant wherever it is defined. -/
def enumerantSummary (context : Context) (enumerant : Enumerant) : String :=
  "[" ++ context.api.title ++ "] Value of " ++ enumerant.name ++ " symbol."

/-- The identifier of an enumerant's constant. -/
def enumerantIdent (context : Context) (enumerant : Enumerant) : String :=
  ident (context.api.enumIdent enumerant.name)

end ApiBindings.Artifact
