import ApiBindings.Symbol

/-! What reading, merging and resolving have to report.
Nothing in this file stops a run. A fault says what was wrong with one element of a source, a
conflict says that one name was declared in two ways, and an unresolved reference that a block
names a symbol nobody declared.
-/

namespace ApiBindings

/-- What can be wrong with an element of a source. -/
inductive Problem where
  | malformed
  | noRegistry
  | missingAttribute (name : String)
  | unreadableValue (text : String)
  | unreadableBit (text : String)
  | noPrototype
  | noCommandName
  | noReturnType
  | unnamedParameter (position : Nat)
  | untypedParameter (name : String)
  | incompleteFeature
  | unreadableNumber (text : String)
  | unclosedEnum
  | unreadableEnumerator (text : String)
  | valueUnknown
  | unreadablePrototype (text : String)
  | emptyParameter (position : Nat)
  | variadic
  /-- A problem that a source states in its own words. -/
  | stated (message : String)
  deriving DecidableEq, Repr

namespace Problem

/-- A text in the quotes that messages use. -/
def quote (text : String) : String :=
  "`" ++ text ++ "`"

def message : Problem → String
  | malformed => "xml syntax error"
  | noRegistry => "no <registry> element"
  | missingAttribute name => "missing required attribute " ++ quote name
  | unreadableValue text => "unparsable value " ++ quote text
  | unreadableBit text => "unparsable bitpos " ++ quote text
  | noPrototype => "missing <proto>"
  | noCommandName => "missing command name"
  | noReturnType => "missing return type"
  | unnamedParameter position => "parameter " ++ toString position ++ " is missing its name"
  | untypedParameter name => "parameter " ++ quote name ++ " is missing its type"
  | incompleteFeature =>
      "missing one of the required attributes " ++ quote "api" ++ ", " ++ quote "name" ++ ", "
        ++ quote "number"
  | unreadableNumber text => "unparsable number " ++ quote text
  | unclosedEnum => "unterminated enum body"
  | unreadableEnumerator text => "unrecognised enumerator " ++ quote text
  | valueUnknown => "value follows an unparsable enumerator"
  | unreadablePrototype text => "unrecognized prototype shape " ++ quote text
  | emptyParameter position => "parameter " ++ toString position ++ " is empty"
  | variadic => "variadic parameters are not supported"
  | stated message => message

end Problem

/-- One problem, with the element it was found in. -/
structure Fault where
  input : String
  element : String
  problem : Problem
  line : Option Nat
  deriving DecidableEq, Repr

def Fault.text (fault : Fault) : String :=
  let place := match fault.line with
    | some line => " (line " ++ toString line ++ ")"
    | none => ""
  fault.input ++ ": " ++ fault.element ++ ": " ++ fault.problem.message ++ place

/-- What one side of a conflict declared. -/
inductive Declared where
  | value (value : Value)
  | signature (text : String)
  deriving DecidableEq, Repr

def Declared.text : Declared → String
  | value v => v.text
  | signature s => s

/-- A declaration with the origin and the source that made it. -/
structure Declaration where
  declared : Declared
  origin : String
  deriving DecidableEq, Repr

def Declaration.text (declaration : Declaration) : String :=
  declaration.declared.text ++ " from " ++ declaration.origin

/-- Whether the origins of two differing declarations say which of them stands. -/
inductive Settlement where
  | byFeature
  | unresolved
  deriving DecidableEq, Repr

def Settlement.text : Settlement → String
  | byFeature => "feature definition wins"
  | unresolved => "unresolved, first kept"

/-- One name that was declared in two ways. -/
structure Conflict where
  name : String
  kind : SymbolKind
  kept : Declaration
  rejected : Declaration
  settlement : Settlement
  deriving DecidableEq, Repr

namespace Conflict

def isUnresolved (conflict : Conflict) : Bool :=
  conflict.settlement == .unresolved

def text (conflict : Conflict) : String :=
  conflict.kind.text ++ " " ++ conflict.name ++ ": " ++ conflict.kept.text
    ++ " conflicts with " ++ conflict.rejected.text ++ " (" ++ conflict.settlement.text ++ ")"

end Conflict

/-- A block that names a symbol which no source declared. -/
structure UnresolvedReference where
  symbol : String
  kind : SymbolKind
  /-- The feature or extension that the block belongs to. -/
  referencedBy : String
  deriving DecidableEq, Repr

def UnresolvedReference.text (reference : UnresolvedReference) : String :=
  reference.referencedBy ++ " references unknown " ++ reference.kind.text ++ " "
    ++ reference.symbol

end ApiBindings
