/-! What reading an XML document yields, piece by piece, and the lines that the pieces are on.
A line is noted where a piece begins, and the piece takes the oldest note when it is yielded. Not
every piece has a note of its own and not every note belongs to a piece, so the lines of later
pieces may come too early or too late; they are those of the document as long as notes and pieces
are in balance.
-/

namespace ApiBindings.Markup

/-- The start tag of an element: its name and attributes without their namespaces, and the line
on which it starts. -/
structure Tag where
  name : String
  attributes : List (String × String)
  line : Nat
  deriving DecidableEq, Repr

namespace Tag

/-- The value of the first attribute of a name. -/
def attribute? (tag : Tag) (name : String) : Option String :=
  tag.attributes.lookup name

end Tag

/-- A piece of a document. Every element that is opened is closed again by a later piece, unless
the document ends too early. -/
inductive Event where
  | opened (tag : Tag)
  | closed
  | text (content : String)
  /-- A processing instruction or the declaration; a registry has no use for either. -/
  | instruction
  deriving DecidableEq, Repr

/-- The pieces of a document, and the line of the error that ended it early. -/
structure Reading where
  events : List Event
  fault : Option Nat
  deriving DecidableEq, Repr

/-- The line of the latest piece and the notes that have not been taken yet, the oldest first. -/
structure Marks where
  current : Nat := 1
  noted : List Nat := []
  deriving DecidableEq, Repr

namespace Marks

/-- Notes a line. -/
def note (marks : Marks) (line : Nat) : Marks :=
  { marks with noted := marks.noted ++ [line] }

/-- Takes the oldest note. Where there is none, the piece is on the line that has been reached. -/
def take (marks : Marks) (reached : Nat) : Marks :=
  match marks.noted with
  | [] => { marks with current := reached }
  | oldest :: later => { current := oldest, noted := later }

end Marks

end ApiBindings.Markup
