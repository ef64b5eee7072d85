import ApiBindings.Markup.Library
import ApiBindings.Proofs.Markup.Runs
import ApiBindings.Proofs.Markup.Writing

/-! What is relied on of a reader and a writer of documents.
Most of what is read does not depend on how a text becomes pieces. Where it does, these laws are all
that is used, and the reader and the writer at hand keep to them.
-/

namespace ApiBindings.Markup

/-- Pieces are read one behind the other, and a text is read without an error only if its root has
ended.
-/
class LawfulReading [Library] : Prop where
  events_isPrefix {front back : List Char}
    : (Library.read (front ++ back)).fault = none
      → (Library.read front).events <+: (Library.read (front ++ back)).events
  rootEnded_of_accepted {text : List Char}
    : (Library.read text).fault = none → RootEnded (Library.read text).events

instance : LawfulReading where
  events_isPrefix := Reading.events_isPrefix
  rootEnded_of_accepted := Reading.rootEnded_of_accepted

/-- A document that is written is read without an error, as the starts and ends of its elements. -/
class LawfulWriting [Library] : Prop where
  fault_write {root : Node}
    : root.IsWritable → (Library.read (Library.write root).toList).fault = none
  events_write {root : Node}
    : root.IsWritable
      → (Library.read (Library.write root).toList).events.filterMap Event.bare? = root.events

instance : LawfulWriting where
  fault_write writable := (ofText_document writable).1
  events_write writable := (ofText_document writable).2

end ApiBindings.Markup
