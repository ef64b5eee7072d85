import ApiBindings.Text.Word

/-! The interfaces whose registries can be read, and how each of them names things. -/

namespace ApiBindings

inductive Api where
  | gl
  | gles1
  | gles2
  | glsc2
  | glx
  | wgl
  | egl
  | wfc
  | wfd
  | vx
  | vxu
  deriving DecidableEq, Repr

namespace Api

def all : List Api :=
  [gl, gles1, gles2, glsc2, glx, wgl, egl, wfc, wfd, vx, vxu]

/-- The name that `api` attributes of a registry use. -/
def registryName : Api → String
  | gl => "gl"
  | gles1 => "gles1"
  | gles2 => "gles2"
  | glsc2 => "glsc2"
  | glx => "glx"
  | wgl => "wgl"
  | egl => "egl"
  | wfc => "wfc"
  | wfd => "wfd"
  | vx => "vx"
  | vxu => "vxu"

/-- The name that messages and generated comments use: the registry name in capitals. -/
def title (api : Api) : String :=
  api.registryName.map Char.toUpper

/-- What every enumerant of the interface starts with. -/
def enumPrefix : Api → String
  | gl | gles1 | gles2 | glsc2 => "GL_"
  | glx => "GLX_"
  | wgl => "WGL_"
  | egl => "EGL_"
  | wfc => "WFC_"
  | wfd => "WFD_"
  | vx | vxu => "VX_"

/-- What every command of the interface starts with. -/
def commandPrefix : Api → String
  | gl | gles1 | gles2 | glsc2 => "gl"
  | glx => "glX"
  | wgl => "wgl"
  | egl => "egl"
  | wfc => "wfc"
  | wfd => "wfd"
  | vx => "vx"
  | vxu => "vxu"

/-- Finds an interface by its registry name, in capitals or small letters. -/
def ofName? (name : String) : Option Api :=
  all.find? fun api => api.registryName = name.map Char.toLower

/-- A name without `start`, unless nothing would be left of it. -/
def withoutStart (start name : String) : String :=
  match Text.strip? start.toList name.toList with
  | none | some [] => name
  | some rest => String.ofList rest

/-- The name of an enumerant without the interface's own start. -/
def enumIdent (api : Api) (name : String) : String :=
  withoutStart api.enumPrefix name

/-- The name of a command without the interface's own start. -/
def commandIdent (api : Api) (name : String) : String :=
  withoutStart api.commandPrefix name

end Api

end ApiBindings
