import ApiBindings.Text.Blank

/-! What a C type says about how a value of it is passed.
The text of a type is kept as it was declared. It is only ever looked at as the words of a base,
followed by one level of indirection for each star.
-/

namespace ApiBindings

/-- How a parameter passes its data. -/
inductive Passing where
  | value
  | input
  | output
  | both
  deriving DecidableEq, Repr

/-- A C type taken apart. -/
structure CType where
  /-- The words of the base without its qualifiers. -/
  base : List String
  /-- For each level of indirection, the innermost first, whether what it points to is constant. -/
  levels : List Bool
  isFunction : Bool
  deriving DecidableEq, Repr

namespace CType

def qualifiers : List String :=
  ["const", "volatile", "restrict", "struct", "enum", "union", "extern", "CONST"]

/-- What has been read of a type so far. A constness that has been seen belongs to the next star. -/
structure Reading where
  base : List String := []
  levels : List Bool := []
  pending : Bool := false

def Reading.read (p : Reading) (word : String) : Reading :=
  if word = "*" then
    { p with levels := p.levels ++ [p.pending], pending := false }
  else if word = "const" ∨ word = "CONST" then
    { p with pending := true }
  else if qualifiers.contains word || !p.levels.isEmpty then
    p
  else
    { p with base := p.base ++ [word] }

/-- The words of a type's text, each star being a word of its own. -/
def wordsOf (c : String) : List String :=
  let spaced := c.toList.flatMap fun ch => if ch = '*' then [' ', '*', ' '] else [ch]
  (Text.words spaced).map String.ofList

def parse (c : String) : CType :=
  let p := (wordsOf c).foldl Reading.read {}
  { base := p.base, levels := p.levels, isFunction := c.toList.contains '(' }

def depth (t : CType) : Nat :=
  t.levels.length

def baseName (t : CType) : String :=
  " ".intercalate t.base

/-- How a value is passed: by the constness that stands at the outermost level. -/
def passing (t : CType) : Passing :=
  match t.levels.getLast? with
  | none => .value
  | some isConst =>
      if t.isFunction then .value
      else if isConst then .input
      else if t.baseName = "void" ∧ t.depth = 1 then .both
      else .output

end CType

end ApiBindings
