import ApiBindings.Value

/-! Integer constants in Rust: a type that holds a whole set of values, and their literals. -/

namespace ApiBindings.Code

inductive IntType where
  | i32
  | u32
  | u64
  deriving DecidableEq, Repr

def IntType.name : IntType → String
  | i32 => "i32"
  | u32 => "u32"
  | u64 => "u64"

/-- The type for constants of all the given values: unsigned and wide as soon as one of them is
wide, signed as soon as one is negative. -/
def intType (values : List Value) : IntType :=
  if values.any fun value => value.width == .wide then .u64
  else if values.any Value.isNegative then .i32
  else .u32

/-- The literal of a value as a constant of the given type. A signed constant whose number only
fits the unsigned type is written as one of those and converted. -/
def literal (type : IntType) (value : Value) : String :=
  match type with
  | .u64 => "0x" ++ Text.hex 1 value.bits.toNat
  | .u32 => "0x" ++ Text.hex 4 value.low.toNat
  | .i32 =>
      if 0x80000000 ≤ value.bits.toInt then
        "0x" ++ Text.hex 8 value.low.toNat ++ "_u32 as i32"
      else
        toString value.bits.toInt

/-- The item that defines a constant, on a line of its own. -/
def constItem (name : String) (type : IntType) (value : Value) : String :=
  "pub const " ++ name ++ ": " ++ type.name ++ " = " ++ literal type value ++ ";\n"

end ApiBindings.Code
