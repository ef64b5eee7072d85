import ApiBindings.Constant.Expr
import ApiBindings.Constant.Scope

/-! Reading constant expressions: from tokens to a tree, and from a text to its value.
An expression is read by operator precedence. Calls of macros are expanded while reading, each
expansion one level deeper than the call, and there are only so many levels. Within one level
every step leaves fewer tokens, which is what ends the reading.
-/

namespace ApiBindings.Constant

/-- How many expansions of macros may be nested in each other. -/
def maxNesting : Nat := 32

/-- A tree with the tokens behind it, which are fewer than the tokens it was read from. -/
abbrev Parsed (tokens : List Token) : Type :=
  Option (Expr × { rest : List Token // rest.length < tokens.length })

namespace Reader

/-- Whether a token can be part of a type's name, the macros and constants being no types. -/
def isTypeToken (scope : Scope) : Token → Bool
  | .name name => !scope.knows name
  | .op .mul => true
  | _ => false

def isName : Token → Bool
  | .name _ => true
  | _ => false

/-- Whether an operand may start with a token. -/
def startsOperand : Token → Bool
  | .number .. | .name _ | .opening | .tilde | .op .sub | .op .add => true
  | _ => false

/-- What follows the parenthesis that ends a cast, when `tokens` follow the one that starts it.
A cast names a type and stands before an operand. -/
def afterCast? (scope : Scope) (tokens : List Token) : Option (List Token) :=
  match tokens.dropWhile (isTypeToken scope) with
  | .closing :: next :: rest =>
      if (tokens.takeWhile (isTypeToken scope)).any isName && startsOperand next then
        some (next :: rest)
      else
        none
  | _ => none

theorem length_of_afterCast? {scope : Scope} {tokens rest : List Token}
    (h : afterCast? scope tokens = some rest)
    : rest.length < tokens.length := by
  unfold afterCast? at h
  split at h
  · rename_i next later hd
    split at h
    · cases h
      have hl := Text.length_dropWhile_le (isTypeToken scope) tokens
      rw [hd] at hl
      simp only [List.length_cons] at hl ⊢
      omega
    · cases h
  · cases h

/-- Puts a token in front of the first argument. -/
def intoFirst (token : Token) : List (List Token) → List (List Token)
  | [] => [[token]]
  | argument :: rest => (token :: argument) :: rest

/-- The arguments of a call whose parenthesis has been read: the pieces between the commas that
stand outside of inner parentheses, and the tokens behind the call. -/
def argumentsAt? (depth : Nat) : List Token → Option (List (List Token) × List Token)
  | [] => none
  | .closing :: rest =>
      match depth with
      | 0 => some ([[]], rest)
      | depth + 1 =>
          (argumentsAt? depth rest).map fun (args, after) =>
            (intoFirst .closing args, after)
  | .opening :: rest =>
      (argumentsAt? (depth + 1) rest).map fun (args, after) => (intoFirst .opening args, after)
  | .comma :: rest =>
      (argumentsAt? depth rest).map fun (args, after) =>
        (if depth = 0 then [] :: args else intoFirst .comma args, after)
  | token :: rest =>
      (argumentsAt? depth rest).map fun (args, after) => (intoFirst token args, after)

theorem length_of_argumentsAt? {depth : Nat} {tokens rest : List Token}
    {args : List (List Token)} (h : argumentsAt? depth tokens = some (args, rest))
    : rest.length < tokens.length := by
  induction tokens generalizing depth args with
  | nil => simp [argumentsAt?] at h
  | cons token tokens ih =>
      cases token <;> simp only [argumentsAt?, Option.map_eq_some_iff, Prod.exists] at h
      case closing =>
        cases depth with
        | zero =>
            cases h
            exact Nat.lt_succ_self _
        | succ depth =>
            simp only [Option.map_eq_some_iff, Prod.exists] at h
            obtain ⟨inner, after, hi, he⟩ := h
            cases he
            exact Nat.lt_succ_of_lt (ih hi)
      all_goals
        obtain ⟨inner, after, hi, he⟩ := h
        cases he
        exact Nat.lt_succ_of_lt (ih hi)

/-- The arguments of a call, from its parenthesis on. Nothing between the parentheses is no
argument, and not an empty one. -/
def arguments? : List Token → Option (List (List Token) × List Token)
  | .opening :: rest =>
      (argumentsAt? 0 rest).map fun (args, after) => (if args = [[]] then [] else args, after)
  | _ => none

theorem length_of_arguments? {tokens rest : List Token} {args : List (List Token)}
    (h : arguments? tokens = some (args, rest))
    : rest.length < tokens.length := by
  unfold arguments? at h
  split at h
  · simp only [Option.map_eq_some_iff, Prod.exists] at h
    obtain ⟨inner, after, hi, he⟩ := h
    cases he
    exact Nat.lt_succ_of_lt (length_of_argumentsAt? hi)
  · cases h

/-- What an argument becomes inside a macro's body: a single token stays as it is, anything else
is put in parentheses. -/
def wrapped : List Token → List Token
  | [token] => [token]
  | argument => .opening :: argument ++ [.closing]

/-- A token of a body with the parameter that it names replaced. The first parameter of a name
counts. -/
def substitute (bindings : List (String × List Token)) : Token → List Token
  | .name name =>
      match bindings.lookup name with
      | some argument => wrapped argument
      | none => [.name name]
  | token => [token]

/-- The tokens that a call stands for, if it has as many arguments as the macro has parameters. -/
def expansion? (called : FunctionMacro) (args : List (List Token)) : Option (List Token) :=
  if args.length = called.params.length then
    some (called.body.flatMap (substitute (called.params.zip args)))
  else
    none

/-- The outcome of a sign that was read in front of an operand. -/
def signed (op : UnaryOp) {first : Token} (after : List Token) (operand : Parsed after)
    : Parsed (first :: after) :=
  operand.map fun (expr, rest) => (.unary op expr, ⟨rest.1, Nat.lt_succ_of_lt rest.2⟩)

-- A token counts three, as up to three of these functions are called on the same tokens.
mutual

/-- Reads an expression whose operators bind at least as tightly as `least`. -/
def readExpr (scope : Scope) (expand : List Token → Option Expr) (least : Nat)
    (tokens : List Token)
    : Parsed tokens :=
  match readUnary scope expand tokens with
  | none => none
  | some (left, ⟨rest, shorter⟩) =>
      (readOperators scope expand least left rest).map fun (expr, later) =>
        (expr, ⟨later.1, Nat.lt_of_le_of_lt later.2 shorter⟩)
termination_by 3 * tokens.length + 2

/-- Reads the operators that follow a left operand, each with its right operand. Operators that
bind less tightly than `least` are left to the caller. -/
def readOperators (scope : Scope) (expand : List Token → Option Expr) (least : Nat)
    (left : Expr) (tokens : List Token)
    : Option (Expr × { rest : List Token // rest.length ≤ tokens.length }) :=
  match tokens with
  | .op op :: after =>
      if least ≤ op.precedence then
        match readExpr scope expand (op.precedence + 1) after with
        | none => none
        | some (right, ⟨rest, shorter⟩) =>
            (readOperators scope expand least (.binary op left right) rest).map
              fun (expr, later) =>
                (expr, ⟨later.1, Nat.le_trans later.2 (Nat.le_succ_of_le (Nat.le_of_lt shorter))⟩)
      else
        some (left, ⟨.op op :: after, Nat.le_refl _⟩)
  | other => some (left, ⟨other, Nat.le_refl _⟩)
termination_by 3 * tokens.length
decreasing_by
  all_goals
    simp only [List.length_cons]
    omega

/-- Reads signs, complements and casts, and the operand that they stand before. -/
def readUnary (scope : Scope) (expand : List Token → Option Expr) (tokens : List Token)
    : Parsed tokens :=
  match tokens with
  | .op .sub :: after => signed .negate after (readUnary scope expand after)
  | .op .add :: after => signed .keep after (readUnary scope expand after)
  | .tilde :: after => signed .complement after (readUnary scope expand after)
  | .opening :: after =>
      match cast : afterCast? scope after with
      | some operand =>
          (readUnary scope expand operand).map fun (expr, rest) =>
            (expr, ⟨rest.1,
              Nat.lt_succ_of_lt (Nat.lt_trans rest.2 (length_of_afterCast? cast))⟩)
      | none => readPrimary scope expand (.opening :: after)
  | other => readPrimary scope expand other
termination_by 3 * tokens.length + 1
decreasing_by
  · simp only [List.length_cons]
    omega
  · simp only [List.length_cons]
    omega
  · simp only [List.length_cons]
    omega
  · have shorter := length_of_afterCast? cast
    simp only [List.length_cons]
    omega
  · exact Nat.lt_succ_self _
  · exact Nat.lt_succ_self _

/-- Reads a literal, a constant, the call of a macro or an expression in parentheses. -/
def readPrimary (scope : Scope) (expand : List Token → Option Expr) (tokens : List Token)
    : Parsed tokens :=
  match tokens with
  | .number bits long :: after => some (.literal bits long, ⟨after, Nat.lt_succ_self _⟩)
  | .opening :: after =>
      match readExpr scope expand 0 after with
      | some (expr, ⟨.closing :: rest, shorter⟩) =>
          some (expr, ⟨rest, Nat.lt_succ_of_lt (Nat.lt_of_succ_lt shorter)⟩)
      | _ => none
  | .name name :: after =>
      match scope.constant? name with
      | some value => some (.constant value, ⟨after, Nat.lt_succ_self _⟩)
      | none =>
          match scope.macro? name, call : arguments? after with
          | some called, some (args, rest) =>
              ((expansion? called args).bind expand).map fun expr =>
                (expr, ⟨rest, Nat.lt_succ_of_lt (length_of_arguments? call)⟩)
          | _, _ => none
  | _ => none
termination_by 3 * tokens.length
decreasing_by
  simp only [List.length_cons]
  omega

end

/-- Reads tokens that are one expression and nothing else. -/
def readAll? (scope : Scope) (expand : List Token → Option Expr) (tokens : List Token)
    : Option Expr :=
  match readExpr scope expand 0 tokens with
  | some (expr, ⟨[], _⟩) => some expr
  | _ => none

/-- Reads an expression in which expansions may be nested `budget` times. -/
def readNested? (scope : Scope) : Nat → List Token → Option Expr
  | 0 => readAll? scope fun _ => none
  | budget + 1 => readAll? scope (readNested? scope budget)

end Reader

namespace Scope

/-- The value of a text, if it is a constant expression in this scope. -/
def eval? (scope : Scope) (text : List Char) : Option Value := do
  let tokens ← Token.tokens? text
  let expr ← Reader.readNested? scope maxNesting tokens
  expr.value?

end Scope

end ApiBindings.Constant
