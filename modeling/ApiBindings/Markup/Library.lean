import ApiBindings.Markup.Reader
import ApiBindings.Markup.Writer

/-! What documents are read and written with. -/

namespace ApiBindings.Markup

/-- A reader of the texts of documents, and a writer of documents with a given root. -/
class Library where
  read : List Char → Reading
  write : Node → String

instance : Library where
  read := Reading.ofText
  write := document

end ApiBindings.Markup
