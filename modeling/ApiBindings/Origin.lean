import ApiBindings.Version

/-! Who declared a symbol. The origin decides which of two differing declarations stands. -/

namespace ApiBindings

inductive Origin where
  | feature (api name : String) (number : Version)
  | extension (name : String)
  /-- Declared outside of every feature and extension, and required by none. -/
  | unattributed
  deriving DecidableEq, Repr

namespace Origin

def isFeature : Origin → Bool
  | feature .. => true
  | _ => false

def text : Origin → String
  | feature _ name _ => name
  | extension name => name
  | unattributed => "unattributed"

end Origin

end ApiBindings
