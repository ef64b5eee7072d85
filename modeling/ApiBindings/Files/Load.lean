import ApiBindings.Documentation
import ApiBindings.Files.System

/-! Reading the files that generation starts from. -/

namespace ApiBindings

/-- A file or directory that cannot be read. -/
structure LoadFault where
  path : Path
  deriving DecidableEq, Repr

def LoadFault.text (fault : LoadFault) : String :=
  "cannot read `" ++ fault.path.text ++ "`"

namespace Files

variable {m : Type → Type} [Monad m] [FileSystem m]

/-- The text of a file, all of which has to be readable. -/
def text (path : Path) : m (Except LoadFault String) := do
  match ← FileSystem.read path with
  | .ok text => return .ok text
  | .error _ => return .error { path }

/-- The text of a file that is read piece by piece: a directory opens and then gives nothing. -/
def stream (path : Path) : m (Except LoadFault String) := do
  match ← FileSystem.read path with
  | .ok text => return .ok text
  | .error .isDirectory => return .ok ""
  | .error _ => return .error { path }

/-- Whether a name ends as the names of reference pages do. -/
def isPageName (name : String) : Bool :=
  (Path.divided name).2 == some "txt"

/-- Reads reference pages by their names, each page being named after its symbol. -/
def pages (directory : Path) (documentation : Documentation)
    : List String → m (Except LoadFault Documentation)
  | [] => return .ok documentation
  | name :: rest => do
      match ← text (directory.join { text := name }) with
      | .error fault => return .error fault
      | .ok page =>
          let page := String.ofList (Text.trim page.toList)
          pages directory (documentation.insert (Path.divided name).1 page) rest

/-- Reads the reference pages in a directory, in the order of their names. -/
def documentation (family : String) (directory : Path)
    : m (Except LoadFault Documentation) := do
  match ← FileSystem.names directory with
  | none => return .error { path := directory }
  | some names =>
      let names := (names.filter isPageName).mergeSort fun a b => decide (a ≤ b)
      pages directory { family, pages := [] } names

end Files

end ApiBindings
