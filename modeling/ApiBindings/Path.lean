import ApiBindings.Text.Blank

/-! Paths of files, as texts whose parts are separated by slashes. -/

namespace ApiBindings

structure Path where
  text : String
  deriving DecidableEq, Repr

namespace Path

def isEmpty (path : Path) : Bool :=
  path.text == ""

def isAbsolute (path : Path) : Bool :=
  path.text.toList.head? == some '/'

def pieces (path : Path) : List String :=
  (Text.cut (· == '/') path.text.toList).map String.ofList

/-- The parts of a path. Empty parts do not count, nor does a point, unless the path starts with
it; an absolute path has the slash for its first part. -/
def parts (path : Path) : List String :=
  let inner := path.pieces.drop 1 |>.filter fun piece => piece ≠ "" ∧ piece ≠ "."
  match path.pieces.head? with
  | some "" => (if path.isAbsolute then ["/"] else []) ++ inner
  | some first => first :: inner
  | none => []

/-- The steps that a path takes, a slash at its end being a last step that stays in place. -/
def steps (path : Path) : List String :=
  (path.pieces.filter fun piece => piece ≠ "")
    ++ if path.text.toList.getLast? = some '/' then ["."] else []

/-- Whether a piece of a path leads nowhere. -/
def isIdle (piece : String) : Bool :=
  piece == "" || piece == "."

/-- A relative path without the pieces at its ends that lead nowhere. -/
def trimmed (path : Path) : Path :=
  if path.isAbsolute then path
  else
    let pieces := ((path.pieces.dropWhile isIdle).reverse.dropWhile isIdle).reverse
    { text := "/".intercalate pieces }

/-- Whether two paths have the same parts, however they are written. -/
def same (a b : Path) : Bool :=
  a.parts == b.parts

/-- The second path as seen from the first one. -/
def join (base path : Path) : Path :=
  if path.isAbsolute || base.isEmpty then path
  else if base.text.toList.getLast? = some '/' then { text := base.text ++ path.text }
  else { text := base.text ++ "/" ++ path.text }

/-- The last part of a path, unless it leads to a parent. -/
def fileName? (path : Path) : Option String :=
  match path.parts.getLast? with
  | none | some "/" | some ".." | some "." => none
  | some name => some name

/-- The path without its last part. -/
def parent (path : Path) : Path :=
  { text := "/".intercalate path.parts.dropLast }

/-- A file name divided at its last point. A name that starts with its only point has no
extension. -/
def divided (name : String) : String × Option String :=
  let reversed := name.toList.reverse
  let extension := (reversed.takeWhile (· != '.')).reverse
  let stem := ((reversed.dropWhile (· != '.')).drop 1).reverse
  if stem.isEmpty then (name, none) else (String.ofList stem, some (String.ofList extension))

end Path

end ApiBindings
