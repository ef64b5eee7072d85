import ApiBindings.Files.System

/-! Trees of files, as a file system without a disk.
A tree is a map from places to entries. A place is the list of names that lead to it from the
directory that relative paths start at. Places around that directory start with `..`, those of
absolute paths with a slash; of what is there, only what has been put there is known.
-/

namespace ApiBindings

/-- What is at a place. -/
inductive Entry where
  | file (text : String)
  | directory
  deriving DecidableEq, Repr

structure FileTree where
  entries : List (List String × Entry) := []
  limits : Limits := {}
  deriving DecidableEq, Repr

namespace FileTree

/-- Whether a place is one that paths start at, or one around it. All these are directories. -/
def isTop (place : List String) : Bool :=
  place == ["/"] || place.all (· == "..")

def get? (tree : FileTree) (place : List String) : Option Entry :=
  if isTop place then some .directory else tree.entries.lookup place

def put (tree : FileTree) (place : List String) (entry : Entry) : FileTree :=
  { tree with entries := (place, entry) :: tree.entries.filter fun other => other.1 != place }

/-- What has been put at a place is there. -/
theorem get?_put_self {tree : FileTree} {place : List String} (entry : Entry)
    (h : isTop place = false)
    : (tree.put place entry).get? place = some entry := by
  simp [get?, put, h]

/-- Putting something at a place leaves all other places as they are. -/
theorem get?_put_of_ne {tree : FileTree} {place other : List String} (entry : Entry)
    (h : other ≠ place)
    : (tree.put place entry).get? other = tree.get? other := by
  have unchanged : ∀ entries : List (List String × Entry),
      (entries.filter fun old => old.1 != place).lookup other = entries.lookup other := by
    intro entries
    induction entries with
    | nil => rfl
    | cons first rest ih =>
        obtain ⟨key, value⟩ := first
        by_cases hkey : key = place
        · subst hkey
          simp [List.lookup_cons, beq_eq_false_iff_ne.mpr h, ih]
        · simp [List.lookup_cons, hkey, ih]
  simp only [get?, put, List.lookup_cons, beq_eq_false_iff_ne.mpr h, unchanged]

/-- The place that one step of a path leads to. -/
def step (place : List String) (name : String) : List String :=
  if name = "." then place
  else if name = ".." then
    if place = ["/"] then place
    else if isTop place then place ++ [name]
    else place.dropLast
  else place ++ [name]

/-- Follows the steps of a path, each of which starts at a directory. -/
def follow (tree : FileTree) (place : List String) : List String → Except ReadFault (List String)
  | [] => .ok place
  | name :: rest =>
      match tree.get? place with
      | none => .error .missing
      | some (.file _) => .error .unreadable
      | some .directory =>
          if tree.limits.allowsName name then follow tree (step place name) rest
          else .error .unreadable

/-- The place that a path starts at. -/
def origin (path : Path) : List String :=
  if path.isAbsolute then ["/"] else []

/-- The place that a path leads to, with all the directories on its way there. -/
def place (tree : FileTree) (path : Path) : Except ReadFault (List String) :=
  if tree.limits.allowsPath path then tree.follow (origin path) path.steps
  else .error .unreadable

/-- What a path leads to. -/
def find (tree : FileTree) (path : Path) : Except ReadFault Entry := do
  let place ← tree.place path
  match tree.get? place with
  | some entry => .ok entry
  | none => .error .missing

def read (tree : FileTree) (path : Path) : Except ReadFault String :=
  match tree.find path with
  | .ok (.file text) => .ok text
  | .ok .directory => .error .isDirectory
  | .error fault => .error fault

def isDirectory (tree : FileTree) (path : Path) : Bool :=
  match tree.find path with
  | .ok .directory => true
  | _ => false

/-- The name of what is right below a place, if another place is that. -/
def nameBelow? (place other : List String) : Option String :=
  if other.dropLast = place then other.getLast? else none

def names (tree : FileTree) (path : Path) : Option (List String) :=
  match tree.place path with
  | .error _ => none
  | .ok place =>
      match tree.get? place with
      | some .directory => some (tree.entries.filterMap fun other => nameBelow? place other.1)
      | _ => none

/-- Makes the directories on the way from a directory, up to the first that cannot be made because
a file is in the way or because of its name. Tells whether all of them are there now. -/
def makeAlong (tree : FileTree) (place : List String) : List String → Bool × FileTree
  | [] => (true, tree)
  | name :: rest =>
      let next := step place name
      if tree.limits.allowsName name then
        match tree.get? next with
        | some .directory => makeAlong tree next rest
        | some (.file _) => (false, tree)
        | none => makeAlong (tree.put next .directory) next rest
      else
        (false, tree)

def makeDirectories (tree : FileTree) (path : Path) : Bool × FileTree :=
  if tree.limits.allowsPath path then tree.makeAlong (origin path) path.steps else (false, tree)

/-- Gives a file a text. The directory that it is in has to be there. -/
def write (tree : FileTree) (path : Path) (text : String) : Option FileTree :=
  match tree.place path with
  | .error _ => none
  | .ok place =>
      match tree.get? place.dropLast, tree.get? place with
      | some .directory, some (.file _) | some .directory, none =>
          some (tree.put place (.file text))
      | _, _ => none

/-- Adds a file, or a directory where there is no text, and the directories that lead to it, as
far as that is possible. -/
def add (tree : FileTree) (path : Path) (text : Option String) : FileTree :=
  match text with
  | none => (tree.makeDirectories path).2
  | some text =>
      let tree := (tree.makeDirectories path.parent).2
      (tree.write path text).getD tree

/-- The texts of all files below the directory that relative paths start at, with the paths that
lead to them. -/
def files (tree : FileTree) : List (String × String) :=
  tree.entries.filterMap fun (place, entry) =>
    match entry with
    | .file text =>
        if place.head? = some "/" ∨ place.head? = some ".." then none
        else some ("/".intercalate place, text)
    | .directory => none

instance : FileSystem (StateM FileTree) where
  read path := return (← get).read path
  isDirectory path := return (← get).isDirectory path
  names path := return (← get).names path
  makeDirectories path := modifyGet fun tree => tree.makeDirectories path
  write path text := modifyGet fun tree =>
    match tree.write path text with
    | some tree => (true, tree)
    | none => (false, tree)

end FileTree

end ApiBindings
