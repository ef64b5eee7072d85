import ApiBindings.Artifact.Commands
import ApiBindings.Artifact.Enums
import ApiBindings.Artifact.Extensions
import ApiBindings.Artifact.Limits
import ApiBindings.Artifact.LogMap
import ApiBindings.Artifact.Versions

/-! Artifacts and the passes that make them. -/

namespace ApiBindings

/-- What a pass has generated. -/
structure Artifact where
  pass : Pass
  outputClass : String
  destination : Path
  content : String
  deriving DecidableEq, Repr

/-- Why a pass fails. -/
inductive PassFault where
  /-- The place for the artifact is given as an empty path. -/
  | noDestination (pass : Pass)
  | unwritable (path : Path)
  deriving DecidableEq, Repr

def PassFault.text : PassFault → String
  | noDestination pass => "no usable destination for " ++ pass.name ++ ": empty destination path"
  | unwritable path => "cannot write `" ++ path.text ++ "`"

namespace Artifact

/-- The text that a pass generates. -/
def render [Markup.Library] (context : Context) (resolution : Resolution) : Pass → String
  | .enums => Artifact.enums context resolution
  | .commands => Artifact.commands context resolution
  | .extensions => Artifact.extensions context resolution
  | .versions => Artifact.versions context resolution
  | .limits => Artifact.limits context resolution
  | .logMap => Artifact.logMap context resolution

/-- The artifact of a pass, if there is a place for it. -/
def generate [Markup.Library] (context : Context) (resolution : Resolution) (pass : Pass)
    : Except PassFault Artifact :=
  let destination := context.destination pass
  if destination.isEmpty then
    .error (.noDestination pass)
  else
    .ok {
      pass
      outputClass := context.outputClass
      destination
      content := render context resolution pass
    }

end Artifact

end ApiBindings
