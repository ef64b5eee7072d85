import ApiBindings.Diagnostic
import ApiBindings.Interface

/-! What one source declares, in the order in which it declares it. -/

namespace ApiBindings

/-- Declarations and faults, in the order in which they were read. -/
structure Findings where
  enums : List Enumerant := []
  commands : List Command := []
  types : List TypeDecl := []
  features : List Feature := []
  extensions : List Extension := []
  /-- Memberships that are listed apart from the enumerants: a group and an enumerant's name. -/
  groupMembers : List (String × String) := []
  bitmaskGroups : List String := []
  faults : List Fault := []
  deriving DecidableEq, Repr

namespace Findings

/-- What was found first, then what was found later. -/
def append (earlier later : Findings) : Findings where
  enums := earlier.enums ++ later.enums
  commands := earlier.commands ++ later.commands
  types := earlier.types ++ later.types
  features := earlier.features ++ later.features
  extensions := earlier.extensions ++ later.extensions
  groupMembers := earlier.groupMembers ++ later.groupMembers
  bitmaskGroups := earlier.bitmaskGroups ++ later.bitmaskGroups
  faults := earlier.faults ++ later.faults

instance : Append Findings where
  append := append

def fault (fault : Fault) : Findings :=
  { faults := [fault] }

def join (parts : List Findings) : Findings :=
  parts.foldr append {}

/-- Reads items from left to right. What one item leaves is what the next one is read with, and
the findings follow each other in the order of the items. -/
def collect {σ α : Type} (read : σ → α → Findings × σ) : σ → List α → Findings × σ
  | state, [] => ({}, state)
  | state, item :: rest =>
      let (first, state) := read state item
      let (later, state) := collect read state rest
      (first ++ later, state)

end Findings

/-- The findings of one source, under the name of that source. -/
structure Records extends Findings where
  source : String
  deriving DecidableEq, Repr

end ApiBindings
