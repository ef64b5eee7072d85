import ApiBindings.Text.Number

/-! The values of enumerants: a pattern of 64 bits together with the width it was declared in. -/

namespace ApiBindings

inductive Width where
  | narrow
  | wide
  deriving DecidableEq, Repr

namespace Width

def bits : Width → Nat
  | narrow => 32
  | wide => 64

/-- The wider one of two widths. -/
def max : Width → Width → Width
  | narrow, w => w
  | wide, _ => wide

end Width

/-- An integer constant; the bits are a two's complement pattern. -/
structure Value where
  bits : BitVec 64
  width : Width
  deriving DecidableEq, Repr

namespace Value

/-- Whether a number is one of 32 bits, signed or unsigned. -/
def isNarrow (n : Int) : Bool :=
  -0x80000000 ≤ n && n < 0x100000000

/-- The value of a bit pattern in the width that its number needs. -/
def ofBits (bits : BitVec 64) : Value :=
  { bits, width := if isNarrow bits.toInt then .narrow else .wide }

/-- The lower 32 bits. -/
def low (value : Value) : BitVec 32 :=
  value.bits.setWidth 32

/-- Whether the value is a negative number; wide patterns count as unsigned. -/
def isNegative (value : Value) : Bool :=
  value.width == .narrow && value.bits.toInt < 0

/-- The text of a value: negative numbers in decimal, all others in hexadecimal. -/
def text (value : Value) : String :=
  match value.width with
  | .wide => "0x" ++ Text.hex 1 value.bits.toNat
  | .narrow =>
      if value.bits.toInt < 0 then
        toString value.bits.toInt
      else
        "0x" ++ Text.hex 4 value.bits.toNat

end Value

end ApiBindings
