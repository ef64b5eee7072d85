import ApiBindings.Text.Blank

/-! Reference texts for symbols. -/

namespace ApiBindings

/-- Reference pages of one family, such as `gl4`, by the symbol that each is about. -/
structure Documentation where
  family : String
  pages : List (String × String)
  deriving DecidableEq, Repr

namespace Documentation

def page? (documentation : Documentation) (symbol : String) : Option String :=
  documentation.pages.lookup symbol

/-- The same pages with one more; it takes the place of an earlier one on the same symbol. -/
def insert (documentation : Documentation) (symbol text : String) : Documentation :=
  { documentation with
    pages := (symbol, text) :: documentation.pages.filter fun page => page.1 != symbol }

def size (documentation : Documentation) : Nat :=
  documentation.pages.length

def isBlankText (text : String) : Bool :=
  text.toList.all Text.isBlank

/-- The first page on a symbol that says anything, the sources being asked in their order. -/
def firstPage? (sources : List Documentation) (symbol : String) : Option String :=
  (sources.filterMap fun source => source.page? symbol).find? fun text => !isBlankText text

end Documentation

end ApiBindings
