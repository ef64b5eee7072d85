import ApiBindings.Records

/-! Origins for the symbols that are defined outside of features and extensions.
Such a symbol is attributed to the first feature that requires it, or else to the first
extension that does.
-/

namespace ApiBindings.Findings

/-- Every feature and then every extension, with the blocks that it requires. -/
def requirers (found : Findings) : List (Origin × List InterfaceBlock) :=
  (found.features.map fun feature =>
    (.feature feature.api feature.name feature.number, feature.requires))
  ++ found.extensions.map fun extension => (.extension extension.name, extension.requires)

/-- The first requirer that has a name among the names that `names` takes from a block. -/
def requirer? (found : Findings) (names : InterfaceBlock → List String) (name : String)
    : Option Origin :=
  (found.requirers.find? fun (_, blocks) => blocks.any fun block => (names block).contains name).map
    Prod.fst

def attributed (origin : Origin) (found : Option Origin) : Origin :=
  if origin = .unattributed then found.getD .unattributed else origin

/-- The same findings with an origin for every symbol that a requirer names. -/
def attributeOrigins (found : Findings) : Findings :=
  { found with
    enums := found.enums.map fun enumerant =>
      { enumerant with
        origin := attributed enumerant.origin
          (found.requirer? InterfaceBlock.enums enumerant.name) }
    commands := found.commands.map fun command =>
      { command with
        origin := attributed command.origin
          (found.requirer? InterfaceBlock.commands command.name) } }

end ApiBindings.Findings
