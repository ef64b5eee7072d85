import ApiBindings.Text.Number
import ApiBindings.Text.Word

/-! The tokens of constant expressions.
Expressions are ASCII texts: any character outside of ASCII makes the whole text no expression.
-/

namespace ApiBindings.Constant

/-- The operators that stand between two operands. -/
inductive BinaryOp where
  | mul
  | div
  | rem
  | add
  | sub
  | shiftLeft
  | shiftRight
  | and
  | xor
  | or
  deriving DecidableEq, Repr

/-- How tightly an operator binds; the multiplicative ones bind tightest. -/
def BinaryOp.precedence : BinaryOp → Nat
  | mul | div | rem => 10
  | add | sub => 9
  | shiftLeft | shiftRight => 8
  | and => 7
  | xor => 6
  | or => 5

inductive Token where
  /-- A literal, and whether its spelling or its size asks for 64 bits. -/
  | number (bits : BitVec 64) (long : Bool)
  | name (name : String)
  | op (op : BinaryOp)
  | tilde
  | comma
  | opening
  | closing
  deriving DecidableEq, Repr

namespace Token

/-- Blanks between tokens; the vertical tab is none. -/
def isGap (c : Char) : Bool :=
  c == ' ' || c == '\t' || c == '\n' || c == '\x0c' || c == '\r'

def isNameChar (c : Char) : Bool :=
  c.isAlphanum || c == '_'

def isSuffixChar (c : Char) : Bool :=
  c == 'u' || c == 'U' || c == 'l' || c == 'L'

/-- Whether a text of digits and letters starts like a hexadecimal literal. -/
def isHex : List Char → Bool
  | '0' :: c :: _ => c == 'x' || c == 'X'
  | _ => false

/-- A literal taken apart into its base, its digits and the suffix behind them. A lone `0x` is
an octal literal whose digits do not fit. -/
def literalParts (text : List Char) : Nat × List Char × List Char :=
  if isHex text then
    let digits := (text.drop 2).takeWhile (fun c => digitValue c < 16)
    let suffix := (text.drop 2).dropWhile (fun c => digitValue c < 16)
    if digits.isEmpty then (8, (text.drop 1).take 1, suffix) else (16, digits, suffix)
  else
    let digits := text.takeWhile Char.isDigit
    let suffix := text.dropWhile Char.isDigit
    match digits with
    | '0' :: c :: rest => (8, c :: rest, suffix)
    | _ => (10, digits, suffix)
where
  digitValue := Text.digitValue

/-- Reads an integer literal of at most 64 bits. Two `l` in its suffix, or a number of more than
32 bits, make it a long one. -/
def literal? (text : List Char) : Option Token := do
  let (base, digits, suffix) := literalParts text
  if !suffix.all isSuffixChar then
    none
  else
    let n ← Text.numeral? base digits
    if n < 0x10000000000000000 then
      some (number (BitVec.ofNat 64 n)
        (2 ≤ suffix.countP (fun c => c == 'l' || c == 'L') || 0x100000000 ≤ n))
    else
      none

/-- Reads a sign at the front of a text, with what follows it. Signs of two characters are read
before those of one. -/
def sign? : List Char → Option (Token × List Char)
  | '<' :: '<' :: rest => some (op .shiftLeft, rest)
  | '>' :: '>' :: rest => some (op .shiftRight, rest)
  | '(' :: rest => some (opening, rest)
  | ')' :: rest => some (closing, rest)
  | ',' :: rest => some (comma, rest)
  | '|' :: rest => some (op .or, rest)
  | '&' :: rest => some (op .and, rest)
  | '^' :: rest => some (op .xor, rest)
  | '+' :: rest => some (op .add, rest)
  | '-' :: rest => some (op .sub, rest)
  | '*' :: rest => some (op .mul, rest)
  | '/' :: rest => some (op .div, rest)
  | '%' :: rest => some (op .rem, rest)
  | '~' :: rest => some (tilde, rest)
  | _ => none

theorem length_of_sign? {cs rest : List Char} {token : Token}
    (h : sign? cs = some (token, rest))
    : rest.length < cs.length := by
  unfold sign? at h
  split at h <;> cases h <;> simp only [List.length_cons] <;> omega

/-- The tokens of a text, if every part of it is one. -/
def tokens? (cs : List Char) : Option (List Token) :=
  match cs with
  | [] => some []
  | c :: rest =>
      if isGap c then
        tokens? rest
      else if c.isDigit then do
        let token ← literal? (c :: rest.takeWhile Char.isAlphanum)
        let later ← tokens? (rest.dropWhile Char.isAlphanum)
        some (token :: later)
      else if Text.isNameStart c then do
        let later ← tokens? (rest.dropWhile isNameChar)
        some (name (String.ofList (c :: rest.takeWhile isNameChar)) :: later)
      else
        match _h : sign? (c :: rest) with
        | some (token, later) => (tokens? later).map (token :: ·)
        | none => none
termination_by cs.length
decreasing_by
  · exact Nat.lt_succ_self _
  · exact Nat.lt_succ_of_le (Text.length_dropWhile_le _ _)
  · exact Nat.lt_succ_of_le (Text.length_dropWhile_le _ _)
  · exact length_of_sign? _h

end Token

end ApiBindings.Constant
