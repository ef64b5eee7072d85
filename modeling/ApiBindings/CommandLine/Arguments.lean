import ApiBindings.CommandLine.Target

/-! The arguments of the command line. Every argument can be given once. -/

namespace ApiBindings.CommandLine

/-- The arguments that stand alone. -/
inductive Switch where
  | withoutDocs
  | onlyLogMaps
  | target (target : Target)
  deriving DecidableEq, Repr

/-- The arguments that have a value. -/
inductive Setting where
  | specs
  | out
  | docs
  | profile
  deriving DecidableEq, Repr

/-- What has been given on a command line. -/
structure Arguments where
  switches : List Switch := []
  settings : List (Setting × String) := []
  deriving DecidableEq, Repr

/-- Why the arguments lead to no run. -/
inductive Refusal where
  | helpAsked
  | misused
  deriving DecidableEq, Repr

/-- What one word of a command line says. -/
inductive Word where
  | help
  | switch (switch : Switch)
  /-- A setting with its value, unless that is the next word. -/
  | setting (setting : Setting) (value : Option String)
  /-- The word behind which all others would be values of no argument. -/
  | terminator
  | unknown
  deriving DecidableEq, Repr

def switch? (name : String) : Option Switch :=
  if name = "nodoc" then some .withoutDocs
  else if name = "only-logmaps" then some .onlyLogMaps
  else (Target.all.find? fun target => target.name == name).map .target

def setting? (name : String) : Option Setting :=
  [("specs", .specs), ("out", .out), ("docs", .docs), ("profile", .profile)].lookup name

/-- The setting of a single letter. -/
def shortSetting? : Char → Option Setting
  | 's' => some .specs
  | 'o' => some .out
  | _ => none

namespace Word

/-- A word behind two hyphens; a value may follow an equals sign in it. -/
def long (text : List Char) : Word :=
  let name := String.ofList (text.takeWhile (· != '='))
  match text.dropWhile (· != '=') with
  | [] =>
      if name = "help" then .help
      else
        match switch? name, setting? name with
        | some found, _ => .switch found
        | none, some found => .setting found none
        | none, none => .unknown
  | _ :: value =>
      match setting? name with
      | some found => .setting found (some (String.ofList value))
      | none => .unknown

/-- A letter behind one hyphen; a value may follow it at once or after an equals sign. -/
def short (letter : Char) (rest : List Char) : Word :=
  if letter = 'h' then .help
  else
    match shortSetting? letter, rest with
    | none, _ => .unknown
    | some found, [] => .setting found none
    | some found, '=' :: value => .setting found (some (String.ofList value))
    | some found, value => .setting found (some (String.ofList value))

def ofText (text : String) : Word :=
  match text.toList with
  | ['-', '-'] => .terminator
  | '-' :: '-' :: rest => long rest
  | '-' :: letter :: rest => short letter rest
  | _ => .unknown

end Word

/-- Whether a word can be the value of the setting before it; a hyphen alone can. -/
def isValue (text : String) : Bool :=
  text == "-" || text.toList.head? != some '-'

namespace Arguments

def turnOn (given : Arguments) (switch : Switch) : Except Refusal Arguments :=
  if given.switches.contains switch then .error .misused
  else .ok { given with switches := given.switches ++ [switch] }

/-- The value of a setting, if it has been given. -/
def value? (given : Arguments) (setting : Setting) : Option String :=
  given.settings.lookup setting

/-- Gives a setting its value. Only the name of a profile may be empty. -/
def assign (given : Arguments) (setting : Setting) (value : String)
    : Except Refusal Arguments :=
  if (given.value? setting).isSome || (value == "" && setting != .profile) then .error .misused
  else .ok { given with settings := given.settings ++ [(setting, value)] }

/-- Reads words from left to right. The first one that is not as it should be ends the reading. -/
def read (given : Arguments) : List String → Except Refusal Arguments
  | [] => .ok given
  | text :: rest =>
      match Word.ofText text with
      | .help => .error .helpAsked
      | .unknown => .error .misused
      | .terminator => if rest.isEmpty then .ok given else .error .misused
      | .switch switch => (given.turnOn switch).bind fun given => given.read rest
      | .setting setting (some value) =>
          (given.assign setting value).bind fun given => given.read rest
      | .setting setting none =>
          match rest with
          | [] => .error .misused
          | value :: later =>
              if isValue value then
                (given.assign setting value).bind fun given => given.read later
              else
                .error .misused

/-- The targets that were named, or else the default ones. -/
def targets (given : Arguments) : List Target :=
  match Target.all.filter fun target => given.switches.contains (.target target) with
  | [] => Target.defaults
  | named => named

def path (given : Arguments) (setting : Setting) (default : String) : Path where
  text := (given.value? setting).getD default

def profileName (given : Arguments) : String :=
  (given.value? .profile).getD "compatibility"

/-- Where the reference pages are, if any are to be read. -/
def pageRoot? (given : Arguments) : Option Path :=
  if given.switches.contains .withoutDocs then none
  else (given.value? .docs).map fun text => { text }

/-- What the command line takes. -/
def usage : String :=
  Artifact.unlines [
    "Usage: [OPTIONS] [TARGETS]",
    "",
    "Generates Rust bindings from Khronos registries and headers.",
    "",
    "Options:",
    "  -s, --specs DIRECTORY  the registries and headers [default: specs]",
    "  -o, --out DIRECTORY    where the bindings are stored [default: generated]",
    "      --docs DIRECTORY   the reference pages",
    "      --nodoc            leave out documentation comments",
    "      --profile NAME     core, compatibility, es2 or sc2 [default: compatibility]",
    "      --only-logmaps     generate only the log maps",
    "  -h, --help             print this text",
    "",
    "Targets: " ++ " ".intercalate (Target.all.map fun target => "--" ++ target.name)
  ]

/-- The settings of a run under a profile. -/
def settingsUnder (given : Arguments) (glProfile : Profile) : Settings where
  specs := given.path .specs "specs"
  out := given.path .out "generated"
  emitsDocs := !given.switches.contains .withoutDocs
  glProfile := glProfile
  onlyLogMaps := given.switches.contains .onlyLogMaps

end Arguments

end ApiBindings.CommandLine
