import ApiBindings.Code.Ident
import ApiBindings.Symbol

/-! How C types are spelled in generated code, and with them the parameters and results of commands.
-/

namespace ApiBindings.Code

/-- The C base types that have a spelling of their own. -/
def primitives : List (String × String) :=
  [("char", "raw::c_char"), ("signed char", "raw::c_schar"), ("unsigned char", "raw::c_uchar"),
    ("short", "raw::c_short"), ("signed short", "raw::c_short"),
    ("unsigned short", "raw::c_ushort"), ("int", "raw::c_int"), ("signed int", "raw::c_int"),
    ("signed", "raw::c_int"), ("unsigned int", "raw::c_uint"), ("unsigned", "raw::c_uint"),
    ("long", "raw::c_long"), ("unsigned long", "raw::c_ulong"), ("long long", "raw::c_longlong"),
    ("unsigned long long", "raw::c_ulonglong"), ("float", "raw::c_float"),
    ("double", "raw::c_double"), ("bool", "bool"), ("_Bool", "bool"), ("int8_t", "i8"),
    ("uint8_t", "u8"), ("int16_t", "i16"), ("uint16_t", "u16"), ("int32_t", "i32"),
    ("uint32_t", "u32"), ("int64_t", "i64"), ("uint64_t", "u64"), ("size_t", "usize"),
    ("ssize_t", "isize"), ("ptrdiff_t", "isize"), ("intptr_t", "isize"), ("uintptr_t", "usize"),
    ("khronos_int8_t", "i8"), ("khronos_uint8_t", "u8"), ("khronos_int16_t", "i16"),
    ("khronos_uint16_t", "u16"), ("khronos_int32_t", "i32"), ("khronos_uint32_t", "u32"),
    ("khronos_int64_t", "i64"), ("khronos_uint64_t", "u64"), ("khronos_float_t", "f32"),
    ("khronos_intptr_t", "isize"), ("khronos_uintptr_t", "usize"),
    ("khronos_ssize_t", "isize"), ("khronos_usize_t", "usize"),
    ("khronos_utime_nanoseconds_t", "u64"), ("khronos_stime_nanoseconds_t", "i64")]

/-- The spelling of a base without its levels of indirection. A base that is no primitive is a
type of the interface, named by its last word and found under `path`. -/
def spellBase (path : String) (type : CType) : String :=
  if type.baseName = "void" ∨ type.baseName = "" then
    if type.levels.isEmpty then "()" else "raw::c_void"
  else
    match primitives.lookup type.baseName with
    | some spelling => spelling
    | none => path ++ type.base.getLastD ""

/-- One level of indirection around the spelling of what it points to. -/
def point (spelling : String) (isConst : Bool) : String :=
  (if isConst then "*const " else "*mut ") ++ spelling

/-- The Rust spelling of a C type. Pointers to functions are untyped. -/
def spell (path : String) (type : CType) : String :=
  if type.isFunction then
    "*const raw::c_void"
  else
    type.levels.foldl point (spellBase path type)

def paramIdent (param : Param) : String :=
  ident param.name

/-- The type of a parameter. Types of the interface are found in a module named `types`. -/
def paramType (param : Param) : String :=
  spell "types::" (CType.parse param.type)

/-- A parameter with its type. -/
def typedParam (param : Param) : String :=
  paramIdent param ++ ": " ++ paramType param

def returnType (command : Command) : String :=
  spell "types::" (CType.parse command.returns)

end ApiBindings.Code
