import ApiBindings.Artifact.Comment
import ApiBindings.Code.Literal

/-! The enums artifact: one type for each group, with a constant for each of its members.
An enumerant of several groups is defined in each of them, since groups are namespaces apart.
-/

namespace ApiBindings.Artifact

open ApiBindings.Code

def memberItem (context : Context) (name : String) (type : IntType) (member : Enumerant)
    : String :=
  docComment "    " (enumerantSummary context member)
    ++ "    pub const " ++ enumerantIdent context member ++ ": " ++ name ++ " = " ++ name ++ "("
    ++ literal type member.value ++ ");\n"

/-- What the types of bitmask groups can do: they are sets of bits. -/
def bitmaskItems (name : String) : List String :=
  [
    "",
    "impl " ++ name ++ " \x7b",
    "    /// True if every bit of `other` is set in `self`.",
    "    #[inline]",
    "    pub fn contains(self, other: " ++ name ++ ") -> bool \x7b",
    "        self.0 & other.0 == other.0",
    "    \x7d",
    "\x7d",
    "",
    "impl std::ops::BitOr for " ++ name ++ " \x7b",
    "    type Output = " ++ name ++ ";",
    "",
    "    #[inline]",
    "    fn bitor(self, rhs: " ++ name ++ ") -> " ++ name ++ " \x7b",
    "        " ++ name ++ "(self.0 | rhs.0)",
    "    \x7d",
    "\x7d",
    "",
    "impl std::ops::BitAnd for " ++ name ++ " \x7b",
    "    type Output = " ++ name ++ ";",
    "",
    "    #[inline]",
    "    fn bitand(self, rhs: " ++ name ++ ") -> " ++ name ++ " \x7b",
    "        " ++ name ++ "(self.0 & rhs.0)",
    "    \x7d",
    "\x7d"
  ]

/-- The type of a group. All of its constants have one integer type, which holds every member. -/
def groupItem (context : Context) (group : String) (members : List Enumerant) : String :=
  let name := groupName group
  let type := intType (members.map Enumerant.value)
  let isBitmask := context.registry.isBitmaskGroup group
  let kind := if isBitmask then "bitmask" else "group"
  "\n"
    ++ docComment "" ("[" ++ context.api.title ++ "] Members of the `" ++ group ++ "` " ++ kind
      ++ ".")
    ++ unlines [
      "#[repr(transparent)]",
      "#[derive(Clone, Copy, Debug, PartialEq, Eq, PartialOrd, Ord, Hash)]",
      "pub struct " ++ name ++ "(pub " ++ type.name ++ ");",
      "",
      "impl " ++ name ++ " \x7b"
    ]
    ++ String.join (members.map (memberItem context name type))
    ++ unlines [
      "",
      "    /// The raw value.",
      "    #[inline]",
      "    pub const fn value(self) -> " ++ type.name ++ " \x7b",
      "        self.0",
      "    \x7d",
      "\x7d"
    ]
    ++ if isBitmask then unlines (bitmaskItems name) else ""

def enums (context : Context) (resolution : Resolution) : String :=
  banner context resolution "enum groups"
    ++ "#![allow(dead_code, non_upper_case_globals)]\n"
    ++ String.join (resolution.groups.map fun (group, members) =>
      groupItem context group members)

end ApiBindings.Artifact
