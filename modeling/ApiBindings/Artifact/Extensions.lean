import ApiBindings.Artifact.Comment

/-! The extensions artifact: a type with one flag for every selected extension. -/

namespace ApiBindings.Artifact

open ApiBindings.Code

/-- The flag of an extension, with its reference text or else its name for documentation. -/
def extensionField (context : Context) (name : String) : String :=
  let comment := match context.documentation? name with
    | some text => docComment "    " text
    | none => "    /// " ++ name ++ "\n"
  comment ++ "    pub " ++ ident name ++ ": bool,\n"

def extensionReader (names : List String) : List String :=
  [
    "",
    "impl Extensions \x7b",
    "    /// Every extension name this struct knows, in registry order.",
    "    pub const NAMES: &'static [&'static str] = &["
      ++ ", ".intercalate (names.map quoted) ++ "];",
    "",
    "    /// Parses a space separated extension string, as returned by the driver.",
    "    pub fn from_extension_string(extensions: &str) -> Extensions \x7b",
    "        Extensions::from_names(extensions.split_whitespace())",
    "    \x7d",
    "",
    "    /// Marks every known name of `names` as supported. Unknown names are ignored.",
    "    #[allow(unused_mut)]",
    "    pub fn from_names<'a, I>(names: I) -> Extensions",
    "    where I: IntoIterator<Item = &'a str> \x7b",
    "        let mut extensions = Extensions::default();",
    "        for name in names \x7b",
    "            match name \x7b"
  ]
  ++ names.map (fun name =>
    "                " ++ quoted name ++ " => extensions." ++ ident name ++ " = true,")
  ++ [
    "                _ => \x7b\x7d,",
    "            \x7d",
    "        \x7d",
    "        extensions",
    "    \x7d",
    "",
    "    /// Whether the extension called `name` is supported.",
    "    pub fn is_supported(&self, name: &str) -> bool \x7b",
    "        match name \x7b"
  ]
  ++ names.map (fun name => "            " ++ quoted name ++ " => self." ++ ident name ++ ",")
  ++ [
    "            _ => false,",
    "        \x7d",
    "    \x7d",
    "\x7d"
  ]

def extensions (context : Context) (resolution : Resolution) : String :=
  let names := resolution.extensions.map Extension.name
  banner context resolution "extension support"
    ++ unlines [
      "",
      "/// Which " ++ context.api.title ++ " extensions the current implementation supports.",
      "#[allow(non_snake_case)]",
      "#[derive(Clone, Debug, Default, PartialEq, Eq, Hash)]",
      "pub struct Extensions \x7b"
    ]
    ++ String.join (names.map (extensionField context))
    ++ "\x7d\n"
    ++ unlines (extensionReader names)

end ApiBindings.Artifact
