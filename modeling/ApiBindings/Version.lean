import ApiBindings.Text.Number

/-! Versions of an interface: a major and a minor number, compared in this order. -/

namespace ApiBindings

structure Version where
  major : UInt16
  minor : UInt16
  deriving DecidableEq, Repr

namespace Version

/-- Reads `major.minor`; blanks around either number do not count, and a version without a point
has the minor number zero. -/
def parse? (text : String) : Option Version := do
  let cs := Text.trim text.toList
  let number (part : List Char) : Option UInt16 :=
    (Text.count? UInt16.size (Text.trim part)).map UInt16.ofNat
  let major ← number (cs.takeWhile (· != '.'))
  match cs.dropWhile (· != '.') with
  | [] => some { major, minor := 0 }
  | _ :: rest => (number rest).map fun minor => { major, minor }

def text (version : Version) : String :=
  toString version.major.toNat ++ "." ++ toString version.minor.toNat

/-- Whether the first version comes before the second one or equals it. -/
def le (a b : Version) : Bool :=
  a.major < b.major || (a.major == b.major && a.minor ≤ b.minor)

end Version

end ApiBindings
