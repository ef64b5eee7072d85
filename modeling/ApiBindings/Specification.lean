import ApiBindings.Document.Reader
import ApiBindings.Files.Load
import ApiBindings.Header.Reader
import ApiBindings.Registry.Merge

/-! Specifications: the registry documents and headers that an interface is described by. -/

namespace ApiBindings

/-- A text that is at hand under a name, or one that is in a file. -/
inductive Input where
  | inline (name text : String)
  | file (path : Path)
  deriving DecidableEq, Repr

/-- The name that faults and symbols know an input by; a file is known by its own name. -/
def Input.name : Input → String
  | .inline name _ => name
  | .file path => path.fileName?.getD path.text

inductive Specification where
  /-- A registry document, of which only what is for one interface counts if there is one. -/
  | document (input : Input) (api : Option String)
  /-- Headers, each with what it stands for. -/
  | headers (dialect : Header.Dialect) (inputs : List (Input × Header.Role))

namespace Specification

variable {m : Type → Type} [Monad m] [FileSystem m]

/-- The headers with their texts, the first one that cannot be read being a fault. -/
def fragments : List (Input × Header.Role) → m (Except LoadFault (List Header.Fragment))
  | [] => return .ok []
  | (input, role) :: rest => do
      let text ← match input with
        | .inline _ text => pure (.ok text)
        | .file path => Files.text path
      match text with
      | .error fault => return .error fault
      | .ok text =>
          match ← fragments rest with
          | .error fault => return .error fault
          | .ok later => return .ok ({ name := input.name, role, text } :: later)

/-- Reads a specification. Whatever is wrong inside its texts is among the records. -/
def read [Markup.Library] : Specification → m (Except LoadFault Records)
  | document input api => do
      let text ← match input with
        | .inline _ text => pure (.ok text)
        | .file path => Files.stream path
      return text.map (Document.read { name := input.name, api })
  | headers dialect inputs => do
      return (← fragments inputs).map (Header.read dialect)

/-- Reads specifications in their order, up to the first one that cannot be read. -/
def readAll [Markup.Library] : List Specification → m (Except LoadFault (List Records))
  | [] => return .ok []
  | first :: rest => do
      match ← first.read with
      | .error fault => return .error fault
      | .ok records =>
          match ← readAll rest with
          | .error fault => return .error fault
          | .ok later => return .ok (records :: later)

/-- The registry of an interface that specifications describe. -/
def registry [Markup.Library] (api : Api) (specifications : List Specification)
    : m (Except LoadFault Registry) := do
  return (← readAll specifications).map (Registry.ofRecords api)

end Specification

end ApiBindings
