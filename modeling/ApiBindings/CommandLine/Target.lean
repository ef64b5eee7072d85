import ApiBindings.Header.Pattern
import ApiBindings.Report
import ApiBindings.Specification

/-! What can be generated from the command line: for every target the registries it builds, where
their specifications are, and the passes to run on them.
-/

namespace ApiBindings.CommandLine

inductive Target where
  | gl
  | wgl
  | glx
  | egl
  | wfc
  | wfd
  | vx
  deriving DecidableEq, Repr

namespace Target

def all : List Target :=
  [gl, wgl, glx, egl, wfc, wfd, vx]

/-- What is generated when no target is named. -/
def defaults : List Target :=
  [gl, wgl, glx, egl, wfd, vx]

def name : Target → String
  | gl => "gl"
  | wgl => "wgl"
  | glx => "glx"
  | egl => "egl"
  | wfc => "wfc"
  | wfd => "wfd"
  | vx => "vx"

/-- The name that messages use. -/
def title (target : Target) : String :=
  target.name.capitalize

/-- The directories of reference pages, the preferred ones first. -/
def pageFamilies : Target → List String
  | gl => ["gl4", "gl2.1", "es3", "es1.1"]
  | wgl | glx => ["gl4", "gl2.1"]
  | egl => ["egl"]
  | wfc | wfd | vx => []

end Target

/-- What all targets of a run have in common. -/
structure Settings where
  specs : Path
  out : Path
  emitsDocs : Bool
  glProfile : Profile
  onlyLogMaps : Bool
  deriving Repr

/-- One registry to build, and what to generate from it. -/
structure Job where
  api : Api
  outputClass : String
  specifications : List Specification
  profile : Profile
  passes : List Pass

/-- A file below a directory. -/
def below (directory : Path) (name : String) : Path :=
  directory.join { text := name }

/-- The job for a registry document. -/
def documentJob (settings : Settings) (api : Api) (outputClass : String) (profile : Profile)
    (passes : List Pass)
    : Job where
  api := api
  outputClass := outputClass
  specifications := [
    .document (.file (below settings.specs (outputClass ++ ".xml")))
      (some (profile.api.getD api.registryName))
  ]
  profile := profile
  passes := if settings.onlyLogMaps then [.logMap] else passes

/-- The interface that a profile of the desktop and embedded interfaces is for. -/
def glApi (profile : Profile) : Api :=
  match profile.api with
  | some "gles2" => .gles2
  | some "glsc2" => .glsc2
  | _ => .gl

/-- How headers are read in which the given patterns mark prototypes. -/
def dialect (api : Api) (patterns : List String) : Header.Dialect where
  api := api
  markers := patterns.filterMap Header.Marker.parse?

/-- The job for one of the two interfaces whose only header marks its prototypes the same way. -/
def displayJob (settings : Settings) (api : Api) : Job where
  api := api
  outputClass := api.registryName
  specifications :=
    let patterns := ["WF(D|C)_APIENTRY ", "WF(D|C)_API_CALL ", " WF(D|C)_APIEXIT"]
    let file := below (below settings.specs "WF") (api.registryName ++ ".h")
    [.headers (dialect api patterns) [(.file file, .feature { major := 1, minor := 0 })]]
  profile := .forApi api
  passes := [.enums, .commands, .extensions, .versions]

/-- The headers of the vision interface itself. -/
def visionHeaders (settings : Settings) : List (Input × Header.Role) :=
  let names := ["vx_api", "vx_types", "vx_kernels", "vx_nodes", "vx_vendors", "vx_import"]
  names.map fun name =>
    (.file (below (below settings.specs "VX") (name ++ ".h")), .feature { major := 1, minor := 2 })

def visionExtension (settings : Settings) (file extension : String) : Input × Header.Role :=
  (.file (below (below settings.specs "VX") file), .extension extension)

def visionSpecification (inputs : List (Input × Header.Role)) : Specification :=
  .headers (dialect .vx ["VX_API_ENTRY ", "VX_API_CALL "]) inputs

/-- The job for the vision interface with its extensions. -/
def visionJob (settings : Settings) : Job where
  api := .vx
  outputClass := "vx"
  specifications :=
    let extensions := [
      ("vx_khr_icd.h", "VX_KHR_icd"),
      ("vx_khr_ix.h", "VX_KHR_ix"),
      ("vx_khr_nn.h", "VX_KHR_nn"),
      ("vx_khr_tiling.h", "VX_KHR_tiling"),
      ("vx_khr_xml.h", "VX_KHR_xml")
    ]
    [visionSpecification
      (visionHeaders settings
        ++ extensions.map fun (file, extension) => visionExtension settings file extension)]
  profile := .forApi .vx
  passes := [.enums, .commands]

/-- The job for the utilities of the vision interface. Their header uses what the headers of the
interface itself define; the profile leaves the commands of those out. -/
def visionUtilityJob (settings : Settings) : Job where
  api := .vxu
  outputClass := "vxu"
  specifications :=
    [visionSpecification
      (visionHeaders settings ++ [visionExtension settings "vxu.h" "VXU"])]
  profile := { Profile.forApi .vx with
    maxVersion := some { major := 0, minor := 0 }
    extensions := .only ["VXU"] }
  passes := [.commands]

/-- The jobs of a target. Only targets with registry documents have log maps. -/
def Target.jobs (settings : Settings) (target : Target) : List Job :=
  let document (api : Api) :=
    documentJob settings api api.registryName (.forApi api)
      [.enums, .commands, .extensions, .versions, .logMap]
  let fromHeaders (jobs : List Job) := if settings.onlyLogMaps then [] else jobs
  match target with
  | gl => [documentJob settings (glApi settings.glProfile) "gl" settings.glProfile Pass.all]
  | wgl => [document .wgl]
  | glx => [document .glx]
  | egl => [document .egl]
  | wfc => fromHeaders [displayJob settings .wfc]
  | wfd => fromHeaders [displayJob settings .wfd]
  | vx => fromHeaders [visionJob settings, visionUtilityJob settings]

end ApiBindings.CommandLine
