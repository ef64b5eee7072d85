import ApiBindings.Artifact.Comment
import ApiBindings.Code.Ident

/-! The limits artifact: a type that holds the limits of an implementation and queries them.
Only limits whose enumerant is active are in it.
-/

namespace ApiBindings.Artifact

open ApiBindings.Code

inductive Scalar where
  | int
  | float
  deriving DecidableEq, Repr

/-- A limit that can be queried by its enumerant. -/
structure Limit where
  name : String
  scalar : Scalar
  components : Nat
  deriving DecidableEq, Repr

def limit (name : String) (scalar : Scalar) (components : Nat) : Limit :=
  { name, scalar, components }

/-- Every limit that is known, in the order of the generated fields. -/
def knownLimits : List Limit :=
  [
    limit "GL_MAX_TEXTURE_SIZE" .int 1,
    limit "GL_MAX_3D_TEXTURE_SIZE" .int 1,
    limit "GL_MAX_CUBE_MAP_TEXTURE_SIZE" .int 1,
    limit "GL_MAX_RECTANGLE_TEXTURE_SIZE" .int 1,
    limit "GL_MAX_ARRAY_TEXTURE_LAYERS" .int 1,
    limit "GL_MAX_TEXTURE_BUFFER_SIZE" .int 1,
    limit "GL_MAX_RENDERBUFFER_SIZE" .int 1,
    limit "GL_MAX_VIEWPORT_DIMS" .int 2,
    limit "GL_MAX_VIEWPORTS" .int 1,
    limit "GL_SUBPIXEL_BITS" .int 1,
    limit "GL_MAX_TEXTURE_IMAGE_UNITS" .int 1,
    limit "GL_MAX_COMBINED_TEXTURE_IMAGE_UNITS" .int 1,
    limit "GL_MAX_VERTEX_TEXTURE_IMAGE_UNITS" .int 1,
    limit "GL_MAX_GEOMETRY_TEXTURE_IMAGE_UNITS" .int 1,
    limit "GL_MAX_VERTEX_ATTRIBS" .int 1,
    limit "GL_MAX_VERTEX_UNIFORM_COMPONENTS" .int 1,
    limit "GL_MAX_VERTEX_UNIFORM_VECTORS" .int 1,
    limit "GL_MAX_VERTEX_OUTPUT_COMPONENTS" .int 1,
    limit "GL_MAX_FRAGMENT_UNIFORM_COMPONENTS" .int 1,
    limit "GL_MAX_FRAGMENT_UNIFORM_VECTORS" .int 1,
    limit "GL_MAX_FRAGMENT_INPUT_COMPONENTS" .int 1,
    limit "GL_MAX_VARYING_COMPONENTS" .int 1,
    limit "GL_MAX_VARYING_VECTORS" .int 1,
    limit "GL_MAX_GEOMETRY_OUTPUT_VERTICES" .int 1,
    limit "GL_MAX_PATCH_VERTICES" .int 1,
    limit "GL_MAX_CLIP_DISTANCES" .int 1,
    limit "GL_MAX_DRAW_BUFFERS" .int 1,
    limit "GL_MAX_COLOR_ATTACHMENTS" .int 1,
    limit "GL_MAX_SAMPLES" .int 1,
    limit "GL_MAX_INTEGER_SAMPLES" .int 1,
    limit "GL_MAX_COLOR_TEXTURE_SAMPLES" .int 1,
    limit "GL_MAX_DEPTH_TEXTURE_SAMPLES" .int 1,
    limit "GL_MAX_SAMPLE_MASK_WORDS" .int 1,
    limit "GL_MAX_ELEMENTS_VERTICES" .int 1,
    limit "GL_MAX_ELEMENTS_INDICES" .int 1,
    limit "GL_MAX_UNIFORM_BUFFER_BINDINGS" .int 1,
    limit "GL_MAX_UNIFORM_BLOCK_SIZE" .int 1,
    limit "GL_UNIFORM_BUFFER_OFFSET_ALIGNMENT" .int 1,
    limit "GL_MAX_SHADER_STORAGE_BUFFER_BINDINGS" .int 1,
    limit "GL_MAX_ATOMIC_COUNTER_BUFFER_BINDINGS" .int 1,
    limit "GL_MAX_IMAGE_UNITS" .int 1,
    limit "GL_MAX_COMPUTE_WORK_GROUP_INVOCATIONS" .int 1,
    limit "GL_MAX_COMPUTE_SHARED_MEMORY_SIZE" .int 1,
    limit "GL_MIN_PROGRAM_TEXEL_OFFSET" .int 1,
    limit "GL_MAX_PROGRAM_TEXEL_OFFSET" .int 1,
    limit "GL_MAX_DEBUG_MESSAGE_LENGTH" .int 1,
    limit "GL_MAX_LABEL_LENGTH" .int 1,
    limit "GL_MAX_LIGHTS" .int 1,
    limit "GL_MAX_CLIP_PLANES" .int 1,
    limit "GL_MAX_TEXTURE_UNITS" .int 1,
    limit "GL_MAX_TEXTURE_LOD_BIAS" .float 1,
    limit "GL_MAX_TEXTURE_MAX_ANISOTROPY" .float 1,
    limit "GL_MAX_TEXTURE_MAX_ANISOTROPY_EXT" .float 1,
    limit "GL_ALIASED_LINE_WIDTH_RANGE" .float 2,
    limit "GL_SMOOTH_LINE_WIDTH_RANGE" .float 2,
    limit "GL_ALIASED_POINT_SIZE_RANGE" .float 2,
    limit "GL_POINT_SIZE_RANGE" .float 2,
    limit "GL_VIEWPORT_BOUNDS_RANGE" .float 2
  ]

namespace Limit

def fieldType (limit : Limit) : String :=
  let scalar := match limit.scalar with
    | .int => "i32"
    | .float => "f32"
  if limit.components = 1 then scalar
  else "[" ++ scalar ++ "; " ++ toString limit.components ++ "]"

def field (api : Api) (limit : Limit) : List String :=
  [
    "    /// " ++ limit.name,
    "    pub " ++ ident (api.enumIdent limit.name) ++ ": " ++ limit.fieldType ++ ","
  ]

/-- The line that queries a limit into its field. -/
def query (api : Api) (limit : Limit) (value : Value) : String :=
  let getter := match limit.scalar with
    | .int => "get_integer"
    | .float => "get_float"
  let place := "&mut limits." ++ ident (api.enumIdent limit.name)
  let buffer :=
    if limit.components = 1 then "std::slice::from_mut(" ++ place ++ ")" else place
  "        " ++ getter ++ "(0x" ++ Text.hex 4 value.low.toNat ++ ", " ++ buffer ++ ");"

end Limit

/-- The known limits whose enumerant is active, each with its value. -/
def activeLimits (resolution : Resolution) : List (Limit × Value) :=
  knownLimits.filterMap fun limit =>
    (resolution.enums.find? limit.name).map fun (enumerant, _) => (limit, enumerant.value)

def limits (context : Context) (resolution : Resolution) : String :=
  let active := activeLimits resolution
  banner context resolution "implementation limits"
    ++ unlines [
      "",
      "/// Implementation-defined " ++ context.api.title ++ " limits of a live context.",
      "#[allow(non_snake_case)]",
      "#[derive(Clone, Debug, Default, PartialEq)]",
      "pub struct Limits \x7b"
    ]
    ++ unlines (active.flatMap fun (limit, _) => limit.field context.api)
    ++ unlines [
      "\x7d",
      "",
      "impl Limits \x7b",
      "    /// Queries every limit. The getters receive the query enumerant and a",
      "    /// buffer sized for the limit, the way `glGetIntegerv` and `glGetFloatv` do.",
      "    #[allow(unused_mut, unused_variables)]",
      "    pub fn query<I, F>(mut get_integer: I, mut get_float: F) -> Limits",
      "    where",
      "        I: FnMut(u32, &mut [i32]),",
      "        F: FnMut(u32, &mut [f32]),",
      "    \x7b",
      "        let mut limits = Limits::default();"
    ]
    ++ unlines (active.map fun (limit, value) => limit.query context.api value)
    ++ unlines ["        limits", "    \x7d", "\x7d"]

end ApiBindings.Artifact
