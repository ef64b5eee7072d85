import ApiBindings.Api
import ApiBindings.Interface

/-! Profiles: which features, extensions and blocks a set of bindings takes its symbols from. -/

namespace ApiBindings

inductive ExtensionFilter where
  | all
  | only (names : List String)
  | none
  deriving DecidableEq, Repr

structure Profile where
  name : String
  /-- The interface that features have to be of; without one, all interfaces are taken. -/
  api : Option String := Option.none
  /-- What the `profile` attribute of a block is compared with. -/
  profile : Option String := Option.none
  maxVersion : Option Version := Option.none
  /-- Whether the blocks that remove symbols take them out. -/
  honorsRemovals : Bool := false
  extensions : ExtensionFilter := .all
  deriving DecidableEq, Repr

namespace Profile

/-- The desktop profile without deprecated symbols. -/
def core : Profile where
  name := "core"
  api := some "gl"
  profile := some "core"
  honorsRemovals := true

/-- The desktop profile that keeps what others remove. -/
def compatibility : Profile where
  name := "compatibility"
  api := some "gl"
  profile := some "compatibility"

def es2 : Profile where
  name := "es2"
  api := some "gles2"
  honorsRemovals := true

def sc2 : Profile where
  name := "sc2"
  api := some "glsc2"
  honorsRemovals := true

/-- Every feature of every interface, with nothing removed. -/
def all : Profile where
  name := "all"

/-- Every feature of one interface, with nothing removed. -/
def forApi (api : Api) : Profile where
  name := api.registryName
  api := some api.registryName

def presets : List Profile :=
  [core, compatibility, es2, sc2, all]

/-- Finds one of the profiles that have names. -/
def named? (name : String) : Option Profile :=
  presets.find? fun profile => profile.name = name

/-- Whether two attributes are equal or one of them is not given. -/
def looselyEqual : Option String → Option String → Bool
  | some a, some b => a == b
  | _, _ => true

def takesFeature (profile : Profile) (feature : Feature) : Bool :=
  (match profile.api with
    | some api => api == feature.api
    | none => true)
  && match profile.maxVersion with
    | some greatest => feature.number.le greatest
    | none => true

def takesBlock (profile : Profile) (block : InterfaceBlock) : Bool :=
  looselyEqual block.profile profile.profile && looselyEqual block.api profile.api

/-- Whether a profile looks at a removing block at all, be it only to note the removal. -/
def notesRemoval (profile : Profile) (block : InterfaceBlock) : Bool :=
  looselyEqual block.api profile.api

def lists (profile : Profile) (extension : Extension) : Bool :=
  match profile.extensions with
  | .all => true
  | .only names => names.contains extension.name
  | .none => false

/-- Whether an extension is there for the interface of a profile. The core profile of the desktop
interface goes by a second name, `glcore`. -/
def isSupported (profile : Profile) (extension : Extension) : Bool :=
  match profile.api with
  | none => true
  | some api =>
      extension.supported.isEmpty || extension.supported.any fun supported =>
        supported == api
          || (supported == "glcore" && api == "gl" && profile.profile == some "core")

def takesExtension (profile : Profile) (extension : Extension) : Bool :=
  profile.lists extension && profile.isSupported extension

end Profile

end ApiBindings
