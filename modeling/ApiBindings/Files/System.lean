import ApiBindings.Path

/-! What reading specifications and storing artifacts ask of a file system. -/

namespace ApiBindings

/-- Why a file gives no text. -/
inductive ReadFault where
  | missing
  | isDirectory
  | unreadable
  deriving DecidableEq, Repr

/-- How many bytes paths and the names in them may have, and whether a zero character may be one
of these.
-/
structure Limits where
  path : Option Nat := some 4095
  name : Option Nat := some 255
  takesZero : Bool := false
  deriving DecidableEq, Repr

namespace Limits

/-- Whether a path can be asked for at all. -/
def allowsPath (limits : Limits) (path : Path) : Bool :=
  (limits.takesZero || !path.text.toList.contains '\x00')
    && limits.path.all (path.text.utf8ByteSize ≤ ·)

/-- Whether a name is short enough for an entry of a directory. -/
def allowsName (limits : Limits) (name : String) : Bool :=
  limits.name.all (name.utf8ByteSize ≤ ·)

end Limits

/-- File systems, as actions of `m`. -/
class FileSystem (m : Type → Type) where
  /-- The text of a file. -/
  read : Path → m (Except ReadFault String)
  isDirectory : Path → m Bool
  /-- The names in a directory, unless there is no such directory. -/
  names : Path → m (Option (List String))
  /-- Makes a directory and all that lead to it; false if that is not possible. -/
  makeDirectories : Path → m Bool
  /-- Gives a file a text, making the file if need be; false if that is not possible. -/
  write : Path → String → m Bool

end ApiBindings
