import ApiBindings.Constant.Token
import ApiBindings.Value

/-! The names that a constant expression may use: constants and function-like macros. -/

namespace ApiBindings.Constant

/-- A macro with parameters. Its body is kept as tokens and read anew at every call. -/
structure FunctionMacro where
  params : List String
  body : List Token
  deriving DecidableEq, Repr

/-- What is known so far, the latest definition first. -/
structure Scope where
  constants : List (String × Value)
  macros : List (String × FunctionMacro)
  deriving DecidableEq, Repr

namespace Scope

def constant? (scope : Scope) (name : String) : Option Value :=
  scope.constants.lookup name

def macro? (scope : Scope) (name : String) : Option FunctionMacro :=
  scope.macros.lookup name

/-- Whether a name stands for anything. The names that stand for nothing may be type names. -/
def knows (scope : Scope) (name : String) : Bool :=
  (scope.constant? name).isSome || (scope.macro? name).isSome

def define (scope : Scope) (name : String) (value : Value) : Scope :=
  { scope with constants := (name, value) :: scope.constants }

/-- Defines a macro with parameters, unless its body holds something that is no token. -/
def defineMacro? (scope : Scope) (name : String) (params : List String) (body : List Char)
    : Option Scope := do
  let tokens ← Token.tokens? body
  let trimmed := params.map fun param => String.ofList (Text.trim param.toList)
  some { scope with macros := (name, { params := trimmed, body := tokens }) :: scope.macros }

/-- The body `((type)(value))` of the one macro that is always there. -/
def castMacro : FunctionMacro where
  params := ["type", "value"]
  body :=
    [.opening, .opening, .name "type", .closing, .opening, .name "value", .closing, .closing]

/-- The scope in which reading starts: it holds the cast macro only. -/
def initial : Scope where
  constants := []
  macros := [("EGL_CAST", castMacro)]

end Scope

end ApiBindings.Constant
