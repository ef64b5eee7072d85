import ApiBindings.Artifact.Comment

/-! The versions artifact: a type for versions, with a constant for every selected feature. -/

namespace ApiBindings.Artifact

open ApiBindings.Code

def versionType : List String :=
  [
    "",
    "/// An API version. Orders by major, then minor number.",
    "#[derive(Clone, Copy, Debug, PartialEq, Eq, PartialOrd, Ord, Hash)]",
    "pub struct KhronosVersion \x7b",
    "    pub major: u16,",
    "    pub minor: u16,",
    "\x7d",
    "",
    "impl KhronosVersion \x7b",
    "    pub const fn new(major: u16, minor: u16) -> KhronosVersion \x7b",
    "        KhronosVersion \x7b major, minor \x7d",
    "    \x7d",
    "",
    "    /// Reads the first `major.minor` pair of a version string such as",
    "    /// `4.6.0 NVIDIA 535.54` or `OpenGL ES 3.2 Mesa`.",
    "    pub fn parse(version: &str) -> Option<KhronosVersion> \x7b",
    "        let start = version.find(|c: char| c.is_ascii_digit())?;",
    "        let mut parts = version[start..].split(|c: char| !c.is_ascii_digit());",
    "        let major = parts.next()?.parse().ok()?;",
    "        let minor = parts.next()?.parse().ok()?;",
    "        Some(KhronosVersion::new(major, minor))",
    "    \x7d",
    "",
    "    #[inline]",
    "    pub fn is_at_least(self, other: KhronosVersion) -> bool \x7b",
    "        self >= other",
    "    \x7d",
    "\x7d",
    "",
    "impl std::fmt::Display for KhronosVersion \x7b",
    "    fn fmt(&self, f: &mut std::fmt::Formatter<'_>) -> std::fmt::Result \x7b",
    "        write!(f, \"\x7b\x7d.\x7b\x7d\", self.major, self.minor)",
    "    \x7d",
    "\x7d"
  ]

def versionConstant (feature : Feature) : List String :=
  [
    "    /// " ++ feature.name,
    "    pub const " ++ ident feature.name ++ ": KhronosVersion = KhronosVersion::new("
      ++ toString feature.number.major.toNat ++ ", " ++ toString feature.number.minor.toNat
      ++ ");"
  ]

def versionQuery (feature : Feature) : List String :=
  [
    "    /// True if `self` provides " ++ feature.name ++ ".",
    "    #[inline]",
    "    pub fn supports_" ++ ident feature.name ++ "(self) -> bool \x7b",
    "        self >= KhronosVersion::" ++ ident feature.name,
    "    \x7d"
  ]

def versions (context : Context) (resolution : Resolution) : String :=
  let features := resolution.features
  let constants := features.map fun feature => "KhronosVersion::" ++ ident feature.name
  let names := features.map fun feature => quoted feature.name
  banner context resolution "version support"
    ++ unlines versionType
    ++ unlines ["", "#[allow(non_snake_case)]", "impl KhronosVersion \x7b"]
    ++ unlines (features.flatMap versionConstant)
    ++ unlines [
      "",
      "    /// Every " ++ context.api.title ++ " version, in registry order.",
      "    pub const ALL: &'static [KhronosVersion] = &[" ++ ", ".intercalate constants ++ "];",
      "    /// Feature names, parallel to `ALL`.",
      "    pub const NAMES: &'static [&'static str] = &[" ++ ", ".intercalate names ++ "];",
      ""
    ]
    ++ unlines (features.flatMap versionQuery)
    ++ "\x7d\n"

end ApiBindings.Artifact
