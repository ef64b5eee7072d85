import ApiBindings.Artifact.Generate
import ApiBindings.Files.System

/-! Where artifacts are kept: in memory, or as files below a directory. -/

namespace ApiBindings

/-- What storing an artifact did. -/
inductive Stored where
  | written
  /-- The very same content was there before. -/
  | unchanged
  deriving DecidableEq, Repr

def Stored.text : Stored → String
  | written => "Written"
  | unchanged => "Unchanged"

/-- Artifacts in memory, one for each destination. -/
structure Shelf where
  artifacts : List Artifact := []
  deriving DecidableEq, Repr

namespace Shelf

/-- The artifact at a destination. -/
def find? (shelf : Shelf) (destination : Path) : Option Artifact :=
  shelf.artifacts.find? fun artifact => artifact.destination.same destination

/-- The first artifact of a pass. -/
def ofPass? (shelf : Shelf) (pass : Pass) : Option Artifact :=
  shelf.artifacts.find? fun artifact => artifact.pass == pass

/-- Puts an artifact in the place of the one with the same destination, or else at the end. -/
def put (new : Artifact) : List Artifact → List Artifact
  | [] => [new]
  | old :: rest =>
      if old.destination.same new.destination then new :: rest else old :: put new rest

/-- Stores an artifact. One with the same content is left as it is. -/
def store (shelf : Shelf) (artifact : Artifact) : Stored × Shelf :=
  match shelf.find? artifact.destination with
  | some old =>
      if old.content = artifact.content then (.unchanged, shelf)
      else (.written, { artifacts := put artifact shelf.artifacts })
  | none => (.written, { artifacts := put artifact shelf.artifacts })

/-- Stores an artifact on the shelf at hand, which never fails. -/
def keep (artifact : Artifact) : StateM Shelf (Except PassFault Stored) :=
  modifyGet fun shelf =>
    let (stored, shelf) := shelf.store artifact
    (.ok stored, shelf)

end Shelf

namespace Artifact

variable {m : Type → Type} [Monad m] [FileSystem m]

/-- Gives a file its text, after the directories that lead to it have been made. -/
def place (path : Path) (content : String) : m (Except PassFault Stored) := do
  if ← FileSystem.makeDirectories path.parent then
    if ← FileSystem.write path content then
      return .ok .written
  return .error (.unwritable path)

/-- Stores an artifact as a file below a directory. A file with the same content is left
alone. -/
def storeBelow (root : Path) (artifact : Artifact) : m (Except PassFault Stored) := do
  let path := root.join artifact.destination
  match ← FileSystem.read path with
  | .ok content =>
      if content = artifact.content then return .ok .unchanged
      else place path artifact.content
  | .error .missing => place path artifact.content
  | .error _ => return .error (.unwritable path)

end Artifact

end ApiBindings
