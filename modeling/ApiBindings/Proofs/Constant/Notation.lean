import ApiBindings.Constant.Expr
import ApiBindings.Constant.Scope
import ApiBindings.Proofs.Constant.Tokens
import ApiBindings.Proofs.Text.Numerals
import Mathlib.Algebra.Group.Int.Defs

/-! The notation of constant expressions in C, and the numbers that they stand for.
An expression is a tree over literals and the names of constants. It may be written in many ways: a
literal in three bases, and with any parentheses beyond those that the operators need. What it
stands for is an integer, which wraps around to 64 bits.
-/

namespace ApiBindings.Constant

-----------------------------------------------------------------------------------------
-- Words
-----------------------------------------------------------------------------------------

/-- The bases that a literal may be written in. -/
inductive Base where
  | decimal
  | octal
  | hexadecimal (isCapital : Bool)

namespace Base

def radix : Base → Nat
  | decimal => 10
  | octal => 8
  | hexadecimal _ => 16

/-- What stands in front of the digits. -/
def mark : Base → List Char
  | decimal => []
  | octal => ['0']
  | hexadecimal isCapital => ['0', if isCapital then 'X' else 'x']

end Base

/-- An integer literal. A decimal one starts with a zero only if it is nothing else. -/
structure Literal where
  base : Base
  digits : List Char
  suffix : List Char
  number : Nat
  spells : Text.Spells base.radix digits number
  leads : base = .decimal → digits.head? = some '0' → digits = ['0']
  fits : number < 0x10000000000000000
  suffixed : ∀ c ∈ suffix, c ∈ ['u', 'U', 'l', 'L']

namespace Literal

def text (literal : Literal) : List Char :=
  literal.base.mark ++ literal.digits ++ literal.suffix

/-- A literal asks for 64 bits by its number or by two `l` in its suffix. -/
def IsLong (literal : Literal) : Prop :=
  0xFFFFFFFF < literal.number ∨ 2 ≤ literal.suffix.countP fun c => c == 'l' || c == 'L'

instance (literal : Literal) : Decidable literal.IsLong :=
  inferInstanceAs (Decidable (_ ∨ _))

end Literal

/-- A name of letters, digits and underscores that does not start with a digit. -/
structure Identifier where
  first : Char
  rest : List Char
  starts : Text.isNameStart first = true
  goesOn : ∀ c ∈ rest, Token.isNameChar c = true

namespace Identifier

def text (identifier : Identifier) : List Char :=
  identifier.first :: identifier.rest

def name (identifier : Identifier) : String :=
  String.ofList identifier.text

end Identifier

/-- The words that expressions are written with. -/
inductive Lexeme where
  | literal (numeral : Literal)
  | name (identifier : Identifier)
  | sign (op : UnaryOp)
  | operator (op : BinaryOp)
  | opening
  | closing

def UnaryOp.text : UnaryOp → List Char
  | negate => ['-']
  | keep => ['+']
  | complement => ['~']

def BinaryOp.text : BinaryOp → List Char
  | mul => ['*']
  | div => ['/']
  | rem => ['%']
  | add => ['+']
  | sub => ['-']
  | shiftLeft => ['<', '<']
  | shiftRight => ['>', '>']
  | and => ['&']
  | xor => ['^']
  | or => ['|']

def Lexeme.text : Lexeme → List Char
  | literal numeral => numeral.text
  | name identifier => identifier.text
  | sign op => op.text
  | operator op => op.text
  | opening => ['(']
  | closing => [')']

def Literal.token (literal : Literal) : Token :=
  .number (BitVec.ofNat 64 literal.number) (decide literal.IsLong)

def UnaryOp.token : UnaryOp → Token
  | negate => .op .sub
  | keep => .op .add
  | complement => .tilde

/-- What a word is read as. -/
def Lexeme.token : Lexeme → Token
  | literal numeral => numeral.token
  | name identifier => .name identifier.name
  | sign op => op.token
  | operator op => .op op
  | opening => .opening
  | closing => .closing

/-- The operators between two operands, from those that bind least to those that bind most. -/
def BinaryOp.tiers : List (List BinaryOp) :=
  [[or], [xor], [and], [shiftLeft, shiftRight], [add, sub], [mul, div, rem]]

def BinaryOp.tier (op : BinaryOp) : Nat :=
  tiers.findIdx fun tier => tier.contains op

-----------------------------------------------------------------------------------------
-- Trees
-----------------------------------------------------------------------------------------

/-- An expression without its parentheses. -/
inductive Tree where
  | literal (numeral : Literal)
  | constant (identifier : Identifier)
  | unary (op : UnaryOp) (operand : Tree)
  | binary (op : BinaryOp) (left right : Tree)

namespace Tree

/-- The ways to write a tree where operators have to be of a tier or of one that binds more. An
operator takes what is of its own tier on its left, but not on its right, and there may be
parentheses anywhere.
-/
inductive IsWritten : Nat → Tree → List Lexeme → Prop
  | literal {tier numeral} : IsWritten tier (.literal numeral) [.literal numeral]
  | constant {tier identifier} : IsWritten tier (.constant identifier) [.name identifier]
  | unary {tier op operand words} (inner : IsWritten BinaryOp.tiers.length operand words)
    : IsWritten tier (.unary op operand) (.sign op :: words)
  | binary {tier op left right before behind} (binds : tier ≤ op.tier)
    (first : IsWritten op.tier left before) (second : IsWritten (op.tier + 1) right behind)
    : IsWritten tier (.binary op left right) (before ++ .operator op :: behind)
  | grouped {tier tree words} (inner : IsWritten 0 tree words)
    : IsWritten tier tree (.opening :: words ++ [.closing])

/-- Every name in a tree is that of a constant. -/
def IsKnown (scope : Scope) : Tree → Prop
  | literal _ => True
  | constant identifier => (scope.constant? identifier.name).isSome
  | unary _ operand => operand.IsKnown scope
  | binary _ left right => left.IsKnown scope ∧ right.IsKnown scope

/-- A literal or a constant of a tree asks for 64 bits. -/
def AsksWide (scope : Scope) : Tree → Prop
  | literal numeral => numeral.IsLong
  | constant identifier =>
      ∃ value, scope.constant? identifier.name = some value ∧ value.width = .wide
  | unary _ operand => operand.AsksWide scope
  | binary _ left right => left.AsksWide scope ∨ right.AsksWide scope

end Tree

-----------------------------------------------------------------------------------------
-- Numbers
-----------------------------------------------------------------------------------------

/-- The number from `-2 ^ 63` to `2 ^ 63 - 1` to which an integer wraps around. -/
def wrap (n : Int) : Int :=
  n.bmod 0x10000000000000000

/-- The pattern of 64 bits of an integer. -/
def pattern (n : Int) : Nat :=
  (n % 0x10000000000000000).toNat

/-- Whether the quotient of two numbers is a number of 64 bits. -/
def HasQuotient (a b : Int) : Prop :=
  b ≠ 0 ∧ a.tdiv b < 0x8000000000000000

instance (a b : Int) : Decidable (HasQuotient a b) :=
  inferInstanceAs (Decidable (_ ∧ _))

def UnaryOp.denote : UnaryOp → Int → Int
  | negate, a => wrap (-a)
  | keep, a => a
  | complement, a => -a - 1

/-- Arithmetic on integers that wraps around. Quotients are cut towards zero. A number is shifted
by a count modulo 64, to the right by division that is rounded down.
-/
def BinaryOp.denote? (op : BinaryOp) (a b : Int) : Option Int :=
  match op with
  | mul => some (wrap (a * b))
  | div => if HasQuotient a b then some (a.tdiv b) else none
  | rem => if HasQuotient a b then some (a.tmod b) else none
  | add => some (wrap (a + b))
  | sub => some (wrap (a - b))
  | shiftLeft => some (wrap (a * 2 ^ (b % 64).toNat))
  | shiftRight => some (a / 2 ^ (b % 64).toNat)
  | and => some (wrap (pattern a &&& pattern b))
  | xor => some (wrap (pattern a ^^^ pattern b))
  | or => some (wrap (pattern a ||| pattern b))

/-- The number that a tree stands for. There is none if a name is not that of a constant, or if a
divisor is zero or a quotient too large.
-/
def Tree.denote? (scope : Scope) : Tree → Option Int
  | literal numeral => some (wrap numeral.number)
  | constant identifier => (scope.constant? identifier.name).map fun value => value.bits.toInt
  | unary op operand => (operand.denote? scope).map op.denote
  | binary op left right => do op.denote? (← left.denote? scope) (← right.denote? scope)

end ApiBindings.Constant
