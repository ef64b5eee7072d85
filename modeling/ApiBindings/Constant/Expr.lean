import ApiBindings.Constant.Token
import ApiBindings.Value

/-! Constant expressions as trees, and the 64-bit number that a tree denotes. -/

namespace ApiBindings.Constant

inductive UnaryOp where
  | negate
  | keep
  | complement
  deriving DecidableEq, Repr

/-- The tree of a constant expression, every macro in it expanded and every cast dropped. -/
inductive Expr where
  | literal (bits : BitVec 64) (long : Bool)
  | constant (value : Value)
  | unary (op : UnaryOp) (operand : Expr)
  | binary (op : BinaryOp) (left right : Expr)
  deriving DecidableEq, Repr

def UnaryOp.apply : UnaryOp → BitVec 64 → BitVec 64
  | negate, a => -a
  | keep, a => a
  | complement, a => ~~~a

/-- Signed division has no answer for a divisor of zero, nor for the one quotient that does not
fit 64 bits. -/
def divides (a b : BitVec 64) : Bool :=
  b != 0 && !(a == BitVec.intMin 64 && b == -1)

/-- Two's complement arithmetic on 64 bits. Sums, differences and products wrap, shifts take
their count modulo 64, and a shift to the right keeps the sign. -/
def BinaryOp.apply? (op : BinaryOp) (a b : BitVec 64) : Option (BitVec 64) :=
  match op with
  | mul => some (a * b)
  | div => if divides a b then some (a.sdiv b) else none
  | rem => if divides a b then some (a.srem b) else none
  | add => some (a + b)
  | sub => some (a - b)
  | shiftLeft => some (a <<< (b.toNat % 64))
  | shiftRight => some (a.sshiftRight (b.toNat % 64))
  | and => some (a &&& b)
  | xor => some (a ^^^ b)
  | or => some (a ||| b)

namespace Expr

/-- The number that a tree denotes, if every division in it has an answer. -/
def eval? : Expr → Option (BitVec 64)
  | literal bits _ => some bits
  | constant value => some value.bits
  | unary op operand => operand.eval?.map op.apply
  | binary op left right => do op.apply? (← left.eval?) (← right.eval?)

/-- Whether a leaf of the tree asks for 64 bits. -/
def isLong : Expr → Bool
  | literal _ long => long
  | constant value => value.width == .wide
  | unary _ operand => operand.isLong
  | binary _ left right => left.isLong || right.isLong

/-- The value of a tree: wide if a leaf is, or if the number needs it. -/
def value? (expr : Expr) : Option Value :=
  expr.eval?.map fun bits =>
    { bits, width := if expr.isLong then .wide else (Value.ofBits bits).width }

end Expr

end ApiBindings.Constant
