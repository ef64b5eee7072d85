import ApiBindings.Version

/-! Features and extensions: the blocks of symbol names that they require or remove.
A block only names symbols. What the names stand for is decided once everything has been read.
-/

namespace ApiBindings

structure InterfaceBlock where
  profile : Option String := none
  api : Option String := none
  enums : List String := []
  commands : List String := []
  types : List String := []
  deriving DecidableEq, Repr

def InterfaceBlock.isEmpty (block : InterfaceBlock) : Bool :=
  block.enums.isEmpty && block.commands.isEmpty && block.types.isEmpty

/-- A version of an interface, with the symbols that it brings in or takes out. -/
structure Feature where
  api : String
  name : String
  number : Version
  requires : List InterfaceBlock
  removes : List InterfaceBlock
  deriving DecidableEq, Repr

structure Extension where
  name : String
  /-- The interfaces that have the extension; none listed means all of them. -/
  supported : List String
  requires : List InterfaceBlock
  deriving DecidableEq, Repr

end ApiBindings
