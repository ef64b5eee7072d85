import ApiBindings.Artifact.Comment
import ApiBindings.Code.Spelling
import ApiBindings.Code.Literal
import ApiBindings.Code.TypeItem

/-! The commands artifact: the types of the interface, a constant for every active enumerant, and
for every active command a function, a place for its pointer and a module that loads it.
-/

namespace ApiBindings.Artifact

open ApiBindings.Code

def preamble : List String :=
  [
    "#![allow(unused_parens, non_snake_case, dead_code, non_upper_case_globals, "
      ++ "unused_variables, clippy::all)]",
    "mod __khronos_imports \x7b",
    "    pub use std::mem;",
    "    pub use std::os::raw;",
    "\x7d",
    "use self::__khronos_imports::raw;",
    "",
    "#[inline(never)]",
    "fn metaloadfn(loadfn: &mut dyn FnMut(&'static str) -> *const raw::c_void,",
    "              symbol: &'static str,",
    "              fallbacks: &[&'static str]) -> *const raw::c_void \x7b",
    "    let mut ptr = loadfn(symbol);",
    "    if ptr.is_null() \x7b",
    "        for &sym in fallbacks \x7b",
    "            ptr = loadfn(sym);",
    "            if !ptr.is_null() \x7b break; \x7d",
    "        \x7d",
    "    \x7d",
    "    ptr",
    "\x7d"
  ]

/-- The module of all type declarations that have a Rust item. -/
def typesModule (registry : Registry) : String :=
  unlines [
    "",
    "pub mod types \x7b",
    "    #![allow(non_camel_case_types, non_snake_case, dead_code, "
      ++ "missing_copy_implementations)]",
    "    use super::__khronos_imports::raw;",
    ""
  ]
    ++ unlines ((registry.types.values.filterMap typeItem?).map fun item => "    " ++ item)
    ++ "\x7d\n"

/-- The constant of an enumerant, in the smallest type that holds its value. -/
def constant (context : Context) (enumerant : Enumerant) (mentions : Mentions) : String :=
  "\n"
    ++ symbolComment context (enumerantSummary context enumerant) enumerant.name mentions
    ++ constItem (enumerantIdent context enumerant) (intType [enumerant.value]) enumerant.value

/-- The names that a command may also be loaded under: what it is declared to be the same as, and
what is declared to be the same as it. -/
def fallbacks (registry : Registry) (command : Command) : List String :=
  (command.aliasOf.toList ++ (registry.aliases command.name).filter fun other =>
    !command.aliasOf.toList.contains other).filter (· ≠ command.name)

/-- The function of a command, which calls the pointer that is stored for it. -/
def function (context : Context) (resolution : Resolution) (command : Command)
    (mentions : Mentions)
    : String :=
  let name := context.api.commandIdent command.name
  let list (part : Param → String) := ", ".intercalate (command.params.map part)
  let returns := returnType command
  let others := fallbacks resolution.registry command
  "\n"
    ++ symbolComment context ("[" ++ context.api.title ++ "] " ++ command.name) command.name
      mentions
    ++ (if others.isEmpty then "" else "/// Fallbacks: " ++ ", ".intercalate others ++ "\n")
    ++ unlines [
      "#[inline]",
      "pub unsafe fn " ++ name ++ "(" ++ list typedParam ++ ") -> " ++ returns ++ " \x7b",
      "    __khronos_imports::mem::transmute::<_, extern \"system\" fn(" ++ list paramType
        ++ ") -> " ++ returns ++ ">(storage::" ++ name ++ ".f)(" ++ list paramIdent ++ ")",
      "\x7d"
    ]

def pointerType : List String :=
  [
    "",
    "#[allow(missing_copy_implementations)]",
    "pub struct FnPtr \x7b",
    "    /// The function pointer that will be used when calling the function.",
    "    f: *const raw::c_void,",
    "    /// True if the pointer points to a real function, false if points to a `panic!` fn.",
    "    is_loaded: bool,",
    "\x7d",
    "",
    "impl FnPtr \x7b",
    "    /// Creates a `FnPtr` from a load attempt.",
    "    pub fn new(ptr: *const raw::c_void) -> FnPtr \x7b",
    "        if ptr.is_null() \x7b",
    "            FnPtr \x7b f: missing_fn_panic as *const raw::c_void, is_loaded: false \x7d",
    "        \x7d else \x7b",
    "            FnPtr \x7b f: ptr, is_loaded: true \x7d",
    "        \x7d",
    "    \x7d",
    "\x7d"
  ]

/-- The place for the pointer of a command. -/
def storageItem (name : String) : String :=
  "    pub static mut " ++ name ++ ": FnPtr = FnPtr \x7b f: super::missing_fn_panic as "
    ++ "*const raw::c_void, is_loaded: false \x7d;"

def storageModule (names : List String) : String :=
  unlines [
    "",
    "mod storage \x7b",
    "    #![allow(non_snake_case)]",
    "    #![allow(non_upper_case_globals)]",
    "    use super::__khronos_imports::raw;",
    "    use super::FnPtr;",
    ""
  ]
    ++ unlines (names.map storageItem)
    ++ "\x7d\n"

/-- The module that loads a command. -/
def loaderModule (context : Context) (resolution : Resolution) (command : Command) : String :=
  let name := context.api.commandIdent command.name
  let others := (fallbacks resolution.registry command).map quoted
  unlines [
    "",
    "pub mod " ++ name ++ " \x7b",
    "    use super::\x7bstorage, metaloadfn\x7d;",
    "    use super::__khronos_imports::raw;",
    "    use super::FnPtr;",
    "",
    "    #[inline]",
    "    pub fn is_loaded() -> bool \x7b",
    "        unsafe \x7b storage::" ++ name ++ ".is_loaded \x7d",
    "    \x7d",
    "",
    "    pub fn load_with<F>(mut loadfn: F) where F: FnMut(&'static str) -> *const raw::c_void \x7b",
    "        unsafe \x7b",
    "            storage::" ++ name ++ " = FnPtr::new(metaloadfn(&mut loadfn, "
      ++ quoted command.name ++ ", &[" ++ ", ".intercalate others ++ "]))",
    "        \x7d",
    "    \x7d",
    "\x7d"
  ]

/-- The function that stands in for every command that is not loaded. -/
def missingFunction (api : Api) : List String :=
  [
    "",
    "#[inline(never)]",
    "fn missing_fn_panic() -> ! \x7b",
    "    panic!(\"" ++ api.title ++ " function was not loaded\")",
    "\x7d"
  ]

/-- The function that loads every command. -/
def loadAll (api : Api) (names : List String) : String :=
  unlines [
    "",
    "/// Loads every " ++ api.title ++ " command through `loadfn`, trying aliases when the",
    "/// native name is missing.",
    "pub fn load_with<F>(mut loadfn: F) where F: FnMut(&'static str) -> *const raw::c_void \x7b"
  ]
    ++ unlines (names.map fun name => "    " ++ name ++ "::load_with(&mut loadfn);")
    ++ "\x7d\n"

def commands (context : Context) (resolution : Resolution) : String :=
  let active := resolution.activeCommands
  let names (api : Api) := active.map fun command => api.commandIdent command.name
  banner context resolution "commands and enums"
    ++ unlines preamble
    ++ typesModule context.registry
    ++ String.join (resolution.enums.values.map fun (enumerant, mentions) =>
      constant context enumerant mentions)
    ++ String.join (resolution.commands.values.map fun (command, mentions) =>
      function context resolution command mentions)
    ++ unlines pointerType
    ++ storageModule (names resolution.registry.api)
    ++ String.join (active.map (loaderModule context resolution))
    ++ unlines (missingFunction context.api)
    ++ loadAll context.api (names context.api)

end ApiBindings.Artifact
