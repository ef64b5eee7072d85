import ApiBindings.Artifact.Commands
import ApiBindings.Artifact.Enums
import ApiBindings.Proofs.Code.Constants
import ApiBindings.Proofs.Merging.Reordering
import ApiBindings.Proofs.Reading.Enumerants
import ApiBindings.Proofs.Selection.Groups

/-! The constants of generated files denote the values of the enumerants they are for.
Whatever is read fits its width, and merging only widens values, so all values of a registry fit.
A constant of its own and a member of a group then have room in the type that is chosen for them,
whatever the other members of the group are.
-/

namespace ApiBindings

-----------------------------------------------------------------------------------------
-- The values of a registry
-----------------------------------------------------------------------------------------

/-- What a value absorbs can only make it wide. -/
theorem Value.FitsWidth.absorb {value other : Value} (fits : value.FitsWidth)
    : (value.absorb other).FitsWidth := by
  intro narrow
  rw [bits_absorb]
  refine fits ?_
  cases width : value.width with
  | narrow => rfl
  | wide =>
      have widened : (value.absorb other).width = .wide := wide_absorb_iff.mpr (Or.inl width)
      exact absurd (widened.symm.trans narrow) (by decide)

/-- Of two declarations whose values fit, it is the winner's value that stays. -/
theorem Enumerant.fitsWidth_merge {old new : Enumerant} (oldFits : old.value.FitsWidth)
    (newFits : new.value.FitsWidth)
    : (old.merge new).value.FitsWidth := by
  rw [value_merge]
  refine Value.FitsWidth.absorb ?_
  unfold MergedKind.winner
  split
  · exact newFits
  · exact oldFits

namespace Registry

variable {api : Api} {sources : List Records}

/-- The sources decide the values of a registry, and the lists of members do not change them. -/
theorem fitsWidth_of_find?_enums
    (fits : ∀ records ∈ sources, ∀ declared ∈ records.enums, declared.value.FitsWidth)
    {name : String} {enumerant : Enumerant}
    (found : (ofRecords api sources).enums.find? name = some enumerant)
    : enumerant.value.FitsWidth := by
  rw [find?_enums] at found
  obtain ⟨entry, merged, rfl⟩ := Option.map_eq_some_iff.mp found
  rw [Enumerant.value_addGroups]
  refine Enumerant.mergeRule.entry_of_merge (fun enumerant => enumerant.value.FitsWidth)
    Enumerant.fitsWidth_merge (fun declared member => ?_) merged
  obtain ⟨records, ingested, declares⟩ := List.mem_flatMap.mp (List.mem_filter.mp member).1
  exact fits records ingested declared declares

theorem fitsWidth_of_mem_activeEnums [Markup.Library] (read : ∀ records ∈ sources, records.IsRead)
    {profile : Profile} {enumerant : Enumerant}
    (active : enumerant ∈ ((ofRecords api sources).resolve profile).activeEnums)
    : enumerant.value.FitsWidth := by
  obtain ⟨entry, member, rfl⟩ := List.mem_map.mp ((activeEnums_sublist _ profile).subset active)
  refine fitsWidth_of_find?_enums (fun records ingested declared declares => ?_)
    (Table.mem_entries_iff.mp member)
  exact ((read records ingested).wellFormed declared declares).fits

end Registry

-----------------------------------------------------------------------------------------
-- The items of generated files
-----------------------------------------------------------------------------------------

namespace Artifact

open ApiBindings.Code

/-- An item defines the constant of an active enumerant, as the very number of its value. -/
def DefinesConstant (context : Context) (active : Enumerant × Mentions) (item : String) : Prop :=
  ∃ (type : IntType) (text : String),
    item
      = "\n"
        ++ symbolComment context (enumerantSummary context active.1) active.1.name active.2
        ++ ("pub const " ++ enumerantIdent context active.1 ++ ": " ++ type.name ++ " = " ++ text
          ++ ";\n")
    ∧ type.Denotes text active.1.value
    ∧ type.constant? text.toList = some (number active.1.value)

/-- An item defines the constant of a member of a group, of the type of the group. -/
def DefinesMember (context : Context) (name : String) (type : IntType) (member : Enumerant)
    (item : String)
    : Prop :=
  ∃ text,
    item
      = docComment "    " (enumerantSummary context member)
        ++ "    pub const " ++ enumerantIdent context member ++ ": " ++ name ++ " = " ++ name
        ++ "(" ++ text ++ ");\n"
    ∧ type.Denotes text member.value

/-- An item defines a group by its one integer type and by the constants of all its members. -/
def DefinesGroup (context : Context) (listed : String × List Enumerant) (item : String) : Prop :=
  let name := groupName listed.1
  ∃ (type : IntType) (comment rest : String) (items : List String),
    item
      = comment
        ++ unlines [
          "#[repr(transparent)]",
          "#[derive(Clone, Copy, Debug, PartialEq, Eq, PartialOrd, Ord, Hash)]",
          "pub struct " ++ name ++ "(pub " ++ type.name ++ ");",
          "",
          "impl " ++ name ++ " \x7b"
        ]
        ++ String.join items
        ++ rest
    ∧ List.Forall₂ (DefinesMember context name type) listed.2 items

theorem definesConstant_constant (context : Context) {enumerant : Enumerant}
    (fits : enumerant.value.FitsWidth) (mentions : Mentions)
    : DefinesConstant context (enumerant, mentions) (constant context enumerant mentions) := by
  have roomy := roomy_intType (List.mem_singleton_self enumerant.value)
  exact ⟨intType [enumerant.value], literal (intType [enumerant.value]) enumerant.value, rfl,
    denotes_literal roomy fits, constant?_alone fits⟩

/-- The type of a group has room for every member, whatever the others are. -/
theorem denotes_member {members : List Enumerant}
    (fits : ∀ member ∈ members, member.value.FitsWidth) {member : Enumerant}
    (listed : member ∈ members)
    : (intType (members.map Enumerant.value)).Denotes
        (literal (intType (members.map Enumerant.value)) member.value) member.value :=
  denotes_literal (roomy_intType (List.mem_map_of_mem listed)) (fits member listed)

theorem definesGroup_groupItem (context : Context) (group : String) {members : List Enumerant}
    (fits : ∀ member ∈ members, member.value.FitsWidth)
    : DefinesGroup context (group, members) (groupItem context group members) := by
  let type := intType (members.map Enumerant.value)
  have defined
      : List.Forall₂ (DefinesMember context (groupName group) type) members
          (members.map (memberItem context (groupName group) type)) := by
    rw [List.forall₂_map_right_iff, List.forall₂_same]
    exact fun member listed => ⟨_, rfl, denotes_member fits listed⟩
  exact ⟨type, _, _, _, String.append_assoc .., defined⟩

/-- The constants of enumerants stand in one row, in the order of the enumerants. -/
theorem constants_commands (context : Context) {resolution : Resolution}
    (fits : ∀ enumerant ∈ resolution.activeEnums, enumerant.value.FitsWidth)
    : ∃ front items back,
        commands context resolution = front ++ String.join items ++ back
        ∧ List.Forall₂ (DefinesConstant context) resolution.enums.values items := by
  let item (active : Enumerant × Mentions) := constant context active.1 active.2
  have defined
      : List.Forall₂ (DefinesConstant context) resolution.enums.values
          (resolution.enums.values.map item) := by
    rw [List.forall₂_map_right_iff, List.forall₂_same]
    intro active member
    exact definesConstant_constant context (fits active.1 (List.mem_map_of_mem member)) active.2
  have placed
      : ∃ back,
          commands context resolution
          = banner context resolution "commands and enums"
            ++ unlines preamble
            ++ typesModule context.registry
            ++ String.join (resolution.enums.values.map item)
            ++ back := by
    simp only [commands, String.append_assoc]
    exact ⟨_, rfl⟩
  obtain ⟨back, whole⟩ := placed
  exact ⟨_, _, back, whole, defined⟩

/-- The groups follow each other, in their own order. -/
theorem groups_enums (context : Context) {resolution : Resolution}
    (fits : ∀ enumerant ∈ resolution.activeEnums, enumerant.value.FitsWidth)
    : ∃ front items,
        enums context resolution = front ++ String.join items
        ∧ List.Forall₂ (DefinesGroup context) resolution.groups items := by
  refine ⟨_, _, rfl, ?_⟩
  rw [List.forall₂_map_right_iff, List.forall₂_same]
  rintro ⟨group, members⟩ listed
  exact definesGroup_groupItem context group fun member mentioned =>
    fits member (Resolution.active_of_mem_groups listed mentioned)

end Artifact

-----------------------------------------------------------------------------------------
-- Constants of what is read
-----------------------------------------------------------------------------------------

open ApiBindings.Code

/-- The values of all active enumerants fit their widths, and generated files define constants
that denote them: one for each enumerant, and one for each member of each group.
-/
structure Resolution.DenotesConstants (resolution : Resolution) : Prop where
  fits : ∀ enumerant ∈ resolution.activeEnums, enumerant.value.FitsWidth
  constants
    : ∀ context,
        ∃ front items back,
          Artifact.commands context resolution = front ++ String.join items ++ back
          ∧ List.Forall₂ (Artifact.DefinesConstant context) resolution.enums.values items
  members
    : ∀ group members,
        (group, members) ∈ resolution.groups
        → ∀ member ∈ members,
            (intType (members.map Enumerant.value)).Denotes
              (literal (intType (members.map Enumerant.value)) member.value) member.value
  groups
    : ∀ context,
        ∃ front items,
          Artifact.enums context resolution = front ++ String.join items
          ∧ List.Forall₂ (Artifact.DefinesGroup context) resolution.groups items

/-- The constants of whatever documents and headers declare denote its values. -/
theorem Registry.resolve_denotesConstants [Markup.Library] (api : Api) (sources : List Records)
    (profile : Profile) (read : ∀ records ∈ sources, records.IsRead)
    : ((ofRecords api sources).resolve profile).DenotesConstants := by
  have fits
      : ∀ enumerant ∈ ((ofRecords api sources).resolve profile).activeEnums,
          enumerant.value.FitsWidth :=
    fun _ => fitsWidth_of_mem_activeEnums read
  refine {
    fits
    constants := fun context => Artifact.constants_commands context fits
    members := ?_
    groups := fun context => Artifact.groups_enums context fits
  }
  intro group members listed member mentioned
  refine Artifact.denotes_member (fun other among => ?_) mentioned
  exact fits other (Resolution.active_of_mem_groups listed among)

namespace Registry

/-- A document and a header that share a group, the last bit of which takes a wide value. -/
def mixedGroup : List Records :=
  [
    Document.read { name := "x.xml", api := none }
      ("<registry><enums group=\"G\"><enum name=\"LAST\" bitpos=\"63\"/></enums><extensions>"
        ++ "<extension name=\"X\"><require><enum name=\"LAST\"/></require></extension>"
        ++ "</extensions></registry>"),
    Header.read { api := .gl, markers := [] }
      [{ name := "gl.h", role := .extension "X", text := "enum G \x7b FIRST \x7d;" }]
  ]

/-- The wide type is for the last bit, and the other member is written in it too. -/
theorem mixedGroup_denotesConstants
    : let resolution := (ofRecords .gl mixedGroup).resolve .all
      let active := resolution.activeEnums
      (∀ records ∈ mixedGroup, records.IsRead)
      ∧ resolution.DenotesConstants
      ∧ (active.map fun member =>
          (member.groups, literal (intType (active.map Enumerant.value)) member.value))
        = [(["G"], "0x8000000000000000"), (["G"], "0x0")] := by
  have read : ∀ records ∈ mixedGroup, records.IsRead := by
    intro records member
    rcases List.mem_pair.mp member with rfl | rfl
    · exact .document _ _
    · exact .headers _ _
  refine ⟨read, resolve_denotesConstants .gl mixedGroup .all read, ?_⟩
  simp only [mixedGroup, Document.read, String.toList_append]
  rw [String.toList_ofList, String.toList_ofList, String.toList_ofList]
  decide +kernel

end Registry

end ApiBindings
