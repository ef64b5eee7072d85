/-! Markers: what tells a function prototype from other declarations. -/

namespace ApiBindings.Header

/-- A marker is found in a text or not, and is blanked out where it is found. However it is found,
nothing but blanks takes its place, and a text without it stays as it is. -/
structure Marker where
  isIn : List Char → Bool
  /-- Replaces the marker by a blank wherever it is found. -/
  blank : List Char → List Char
  mem_blank {cs : List Char} {c : Char} : c ∈ blank cs → c = ' ' ∨ c ∈ cs
  blank_eq_self {cs : List Char} : isIn cs = false → blank cs = cs

end ApiBindings.Header
