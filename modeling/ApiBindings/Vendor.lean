/-! Vendor tags, the endings that mark a symbol as an extension's. -/

namespace ApiBindings.Vendor

def tags : List String :=
  ["3DFX", "3DL", "AMD", "ANDROID", "ANGLE", "APPLE", "ARB", "ARM", "ATI", "CHROMIUM", "DMP",
    "EXT", "FJ", "GREMEDY", "HP", "I3D", "IBM", "IMG", "INGR", "INTEL", "KHR", "MESA", "MESAX",
    "MTK", "NOK", "NV", "NVX", "OES", "OML", "OVR", "PGI", "QCOM", "REND", "S3", "SGI", "SGIS",
    "SGIX", "SUN", "SUNX", "TIZEN", "VIV", "WIN"]

/-- A list and what is left when its elements are dropped one by one from the front. -/
def endings : List Char → List (List Char)
  | [] => []
  | c :: cs => (c :: cs) :: endings cs

/-- The vendor tag at the end of a symbol's name. After an underscore the tag is the whole rest
of the name; a name without underscores ends in the longest tag that its last run of capitals and
digits ends in. -/
def suffix? (name : String) : Option String :=
  let cs := name.toList
  let isTag (text : List Char) : Bool := tags.contains (String.ofList text)
  let found :=
    if cs.contains '_' then
      some (cs.reverse.takeWhile (· != '_')).reverse |>.filter isTag
    else
      (endings (cs.reverse.takeWhile (fun c => c.isUpper || c.isDigit)).reverse).find? isTag
  found.map String.ofList

end ApiBindings.Vendor
