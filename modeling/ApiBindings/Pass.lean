import ApiBindings.Path

/-! The generation passes, each of which makes one artifact. -/

namespace ApiBindings

inductive Pass where
  | enums
  | commands
  | extensions
  | versions
  | limits
  | logMap
  deriving DecidableEq, Repr

namespace Pass

/-- Every pass, the enums first since commands refer to their groups. -/
def all : List Pass :=
  [enums, commands, extensions, versions, limits, logMap]

def name : Pass → String
  | enums => "enums"
  | commands => "commands"
  | extensions => "extensions"
  | versions => "versions"
  | limits => "limits"
  | logMap => "log map"

def ofName? (name : String) : Option Pass :=
  all.find? fun pass => pass.name = name

/-- The name of a pass's file, which holds the output class of the run. -/
def fileName (pass : Pass) (outputClass : String) : String :=
  match pass with
  | logMap => "khronos_log_map_" ++ outputClass ++ ".xml"
  | _ => outputClass ++ "_" ++ pass.name ++ ".rs"

end Pass

end ApiBindings
