import ApiBindings.CommandLine.Run

/-! The command line program. -/

namespace ApiBindings

/-- Whether an action comes to its end without an error. -/
def succeeds (action : IO Unit) : IO Bool := do
  match ← action.toBaseIO with
  | .ok () => return true
  | .error _ => return false

/-- A path as the disk takes it. -/
def onDisk (path : Path) : IO.FS.DirEntry where
  root := path.text
  fileName := ""

/-- Whether a path is within the limits of the disk. -/
def isAllowed (path : Path) : Bool :=
  ({} : Limits).allowsPath path

/-- The disk. -/
instance : FileSystem IO where
  read path := do
    if !isAllowed path then
      return .error .unreadable
    if ← (onDisk path).root.isDir then
      return .error .isDirectory
    match ← (IO.FS.readFile path.text).toBaseIO with
    | .ok text => return .ok text
    | .error (.noFileOrDirectory ..) => return .error .missing
    | .error _ => return .error .unreadable
  isDirectory path := (onDisk path).root.isDir
  names path := do
    match ← ((onDisk path).root.readDir).toBaseIO with
    | .ok entries => return some (entries.toList.map IO.FS.DirEntry.fileName)
    | .error _ => return none
  makeDirectories path :=
    if path.isEmpty then pure true
    else if isAllowed path then succeeds (IO.FS.createDirAll path.text)
    else pure false
  write path text :=
    if isAllowed path then succeeds (IO.FS.writeFile path.text text) else pure false

end ApiBindings

open ApiBindings in
def main (arguments : List String) : IO UInt32 := do
  let ending ← CommandLine.runArguments arguments
  if ending.tellsUsage then
    IO.eprint CommandLine.Arguments.usage
  for line in ending.log do
    IO.eprintln line.text
  for message in ending.message do
    IO.eprintln message
  return ending.code.toUInt32
