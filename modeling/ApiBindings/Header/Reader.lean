import ApiBindings.Api
import ApiBindings.Constant.Reader
import ApiBindings.Header.Declaration
import ApiBindings.Header.Item
import ApiBindings.Header.Marker
import ApiBindings.Header.Source
import ApiBindings.Records

/-! Reading C headers, for interfaces that publish no registry document.
Each header stands for a version of the interface or for an extension. Its constants, enums, type
definitions and marked prototypes are recorded in their order, and all of the symbols among them
are required by what the header stands for.
-/

namespace ApiBindings.Header

open ApiBindings.Text

/-- What a header stands for. -/
inductive Role where
  | feature (number : Version)
  | extension (name : String)
  deriving DecidableEq, Repr

/-- A header with its text. -/
structure Fragment where
  name : String
  role : Role
  text : String
  deriving DecidableEq, Repr

/-- How the headers of an interface are read: any of the markers makes a declaration a
prototype. -/
structure Dialect where
  api : Api
  markers : List Marker

/-- The name of the feature that stands for a version. -/
def featureName (api : Api) (number : Version) : String :=
  api.enumPrefix ++ "VERSION_" ++ toString number.major.toNat ++ "_"
    ++ toString number.minor.toNat

def Role.origin (api : Api) : Role → Origin
  | .feature number => .feature api.registryName (featureName api number) number
  | .extension name => .extension name

/-- What the items of one header are read with. -/
structure Context where
  dialect : Dialect
  source : String
  origin : Origin

namespace Context

def fault (context : Context) (element : String) (problem : Problem) (line : Nat) : Findings :=
  .fault { input := context.source, element, problem, line := some line }

/-- An enumerant of a header, in a group if there is one. -/
def enumerant (context : Context) (name : String) (value : Value) (group : Option String)
    : Findings :=
  { enums := [(Enumerant.declare name value context.origin context.source).addGroups
      group.toList] }

end Context

/-- A `#define` taken apart: its name, the text between parentheses right behind the name, and
the rest. -/
structure Define where
  name : List Char
  params : Option (List Char)
  body : List Char
  deriving DecidableEq, Repr

def define? (cs : List Char) : Option Define := do
  let rest ← strip? ['#'] cs
  let rest ← strip? "define".toList (trimStart rest)
  let (name, rest) ← if rest.head?.any isBlank then identifier? (trimStart rest) else none
  match rest with
  | '(' :: inner =>
      if inner.contains ')' then
        some {
          name
          params := some (inner.takeWhile (· != ')'))
          body := trim ((inner.dropWhile (· != ')')).drop 1)
        }
      else
        some { name, params := none, body := trim rest }
  | _ => some { name, params := none, body := trim rest }

/-- The parameters of a macro; nothing between two commas is no parameter. -/
def macroParams (text : List Char) : List String :=
  (((cut (· == ',') text).map trim).filter (fun param => !param.isEmpty)).map String.ofList

/-- Reads a directive. Only definitions count, and among those without parameters only the ones
of constants. -/
def readDirective (context : Context) (scope : Constant.Scope) (text : List Char)
    : Findings × Constant.Scope :=
  match define? text with
  | none => ({}, scope)
  | some define =>
      let name := String.ofList define.name
      match define.params with
      | some params =>
          ({}, (scope.defineMacro? name (macroParams params) define.body).getD scope)
      | none =>
          match scope.eval? define.body with
          | some value => (context.enumerant name value none, scope.define name value)
          | none => ({}, scope)

/-- Reads enumerators one after the other. `next` is the value of an enumerator that gives none,
which is not known behind one that could not be read. -/
def readEnumerators (context : Context) (group : Option String) (line : Nat)
    (next : Option (BitVec 64)) (scope : Constant.Scope)
    : List Enumerator → Findings × Constant.Scope
  | [] => ({}, scope)
  | item :: rest =>
      let name := String.ofList item.name
      let refuse (element : String) (problem : Problem) :=
        let (later, scope) := readEnumerators context group line none scope rest
        (context.fault element problem line ++ later, scope)
      let accept (value : Value) :=
        let (later, scope) := readEnumerators context group line (some (value.bits + 1))
          (scope.define name value) rest
        (context.enumerant name value group ++ later, scope)
      if !isIdentifier item.name then
        refuse ("enum " ++ group.getD "") (.unreadableEnumerator (String.ofList item.text))
      else
        match item.value with
        | some text =>
            match scope.eval? text with
            | some value => accept value
            | none => refuse ("enum " ++ name) (.unreadableValue (String.ofList text))
        | none =>
            match next with
            | some bits => accept (Value.ofBits bits)
            | none => refuse ("enum " ++ name) .valueUnknown

/-- Reads the body of an enum, which starts at zero. -/
def readEnum (context : Context) (group : Option String) (line : Nat) (scope : Constant.Scope)
    (text : List Char)
    : Findings × Constant.Scope :=
  match braces? text with
  | some found => readEnumerators context group line (some 0) scope (enumerators found.inner)
  | none => (context.fault "enum" .unclosedEnum line, scope)

/-- The declaration of a type under a name, if it has one. -/
def declareType (context : Context) (name : Option String) (text : List Char) : Findings :=
  { types := name.toList.map fun name =>
      { name, c := String.ofList text, source := context.source } }

/-- Reads a type definition. An enum in it is read as well; its group is the defined name, or
else its tag. -/
def readTypedef (context : Context) (line : Nat) (scope : Constant.Scope) (text : List Char)
    : Findings × Constant.Scope :=
  match braces? text with
  | some found =>
      let name := lastName? found.after
      if contains "enum".toList found.before then
        let (enums, scope) := readEnum context (name <|> enumTag? text) line scope text
        (enums ++ declareType context name text, scope)
      else
        (declareType context name text, scope)
  | none => (declareType context (definedName? text) text, scope)

/-- Reads a marked declaration as a prototype, its markers taken out. -/
def readPrototype (context : Context) (line : Nat) (text : List Char) : Findings :=
  let stripped := context.dialect.markers.foldl (fun text marker => marker.blank text) text
  match prototype? (collapse stripped) with
  | none => context.fault "prototype" (.unreadablePrototype (String.ofList text)) line
  | some found =>
      let name := String.ofList found.name
      if found.returns.isEmpty then
        context.fault ("command " ++ name) .noReturnType line
      else
        match readParams found.params with
        | .error problem => context.fault ("command " ++ name) problem line
        | .ok params =>
            { commands := [Command.declare name (String.ofList found.returns) params
                context.origin context.source] }

/-- Reads a statement, which may start with `extern`. -/
def readStatement (context : Context) (line : Nat) (scope : Constant.Scope) (raw : List Char)
    : Findings × Constant.Scope :=
  let whole := collapse raw
  let text := (strip? "extern ".toList whole).getD whole
  if (strip? "typedef ".toList text).isSome then
    readTypedef context line scope text
  else if (strip? "enum".toList text).isSome && text.contains '\x7b' then
    readEnum context (enumTag? text) line scope text
  else if !text.isEmpty && context.dialect.markers.any (fun marker => marker.isIn text) then
    (readPrototype context line text, scope)
  else
    ({}, scope)

def readItem (context : Context) (scope : Constant.Scope) : Item → Findings × Constant.Scope
  | .directive text => readDirective context scope text
  | .statement text line => readStatement context line scope text

/-- The symbols that were found, each once, as a block that requires them. -/
def required (found : Findings) : InterfaceBlock :=
  {
    enums := (found.enums.map Enumerant.name).eraseDups
    commands := (found.commands.map Command.name).eraseDups
  }

/-- What a header stands for, requiring the symbols that were found in it. -/
def standFor (api : Api) (role : Role) (found : Findings) : Findings :=
  let requires := [required found]
  match role with
  | .feature number =>
      let name := featureName api number
      { features := [{ api := api.registryName, name, number, requires, removes := [] }] }
  | .extension name => { extensions := [{ name, supported := [], requires }] }

/-- Reads one header. -/
def readFragment (dialect : Dialect) (scope : Constant.Scope) (fragment : Fragment)
    : Findings × Constant.Scope :=
  let context : Context :=
    { dialect, source := fragment.name, origin := fragment.role.origin dialect.api }
  let (found, scope) := Findings.collect (readItem context) scope (items (prepare fragment.text.toList))
  (found ++ standFor dialect.api fragment.role found, scope)

/-- Reads the headers of an interface in order. What earlier ones define, later ones may use. -/
def read (dialect : Dialect) (fragments : List Fragment) : Records where
  toFindings := (Findings.collect (readFragment dialect) Constant.Scope.initial fragments).1
  source := dialect.api.registryName

end ApiBindings.Header
