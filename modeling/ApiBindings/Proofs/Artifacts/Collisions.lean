import ApiBindings.Proofs.Artifacts.Commands
import ApiBindings.Proofs.Artifacts.Types
import ApiBindings.Proofs.Code.Identifiers
import ApiBindings.Proofs.Merging.Groups
import ApiBindings.Proofs.Selection.Groups

/-! Which definitions of generated files have the same identifier.
There is one definition for each active symbol and for each of the groups, and no two of these
have the same name, but their names may be taken to one identifier.
-/

namespace ApiBindings

open ApiBindings.Code

-----------------------------------------------------------------------------------------
-- Names in a registry
-----------------------------------------------------------------------------------------

namespace Registry

variable {api : Api} {sources : List Records}

theorem name_of_find?_commands {name : String} {command : Command}
    (found : (ofRecords api sources).commands.find? name = some command)
    : command.name = name := by
  rw [find?_commands] at found
  exact Command.mergeRule.name_entry (name_of_mem_commandDeclarations sources name) found

/-- Active commands are listed in the order of the registry. -/
theorem activeCommands_sublist (registry : Registry) (profile : Profile)
    : (registry.resolve profile).activeCommands.Sublist registry.commands.values := by
  have active : (registry.resolve profile).activeCommands = _ :=
    values_walk InterfaceBlock.commands (registry.visits profile) registry.commands
  rw [active]
  exact List.filter_sublist.map Prod.snd

theorem nodup_enumNames (api : Api) (sources : List Records) (profile : Profile)
    : (((ofRecords api sources).resolve profile).activeEnums.map Enumerant.name).Nodup :=
  ((activeEnums_sublist _ profile).map Enumerant.name).nodup
    (Table.nodup_map_values Enumerant.name name_of_find?_enums)

theorem nodup_commandNames (api : Api) (sources : List Records) (profile : Profile)
    : (((ofRecords api sources).resolve profile).activeCommands.map Command.name).Nodup :=
  ((activeCommands_sublist _ profile).map Command.name).nodup
    (Table.nodup_map_values Command.name name_of_find?_commands)

end Registry

/-- No group is listed twice, since its name is taken from the active enumerants once. -/
theorem Resolution.nodup_groupNames (resolution : Resolution)
    : (resolution.groups.map Prod.fst).Nodup := by
  let known := (resolution.activeEnums.flatMap Enumerant.groups).eraseDups
  have sorted : (known.mergeSort fun a b => decide (a ≤ b)).Perm known :=
    List.mergeSort_perm known _
  have names
      : resolution.groups.map Prod.fst = known.mergeSort fun a b => decide (a ≤ b) := by
    rw [groups, List.map_map]
    exact List.map_id _
  exact names ▸ sorted.nodup_iff.mpr (nodup_eraseDups _)

-----------------------------------------------------------------------------------------
-- The definitions of generated files
-----------------------------------------------------------------------------------------

namespace Artifact

/-- A text has the opening of a definition somewhere. -/
def Opens (opening text : String) : Prop :=
  ∃ before after, text = before ++ opening ++ after

/-- A text has a row of items, one for each thing of a list and in its order. -/
def Lists {α : Type} (itemOf : α → String → Prop) (things : List α) (text : String) : Prop :=
  ∃ front items back,
    text = front ++ String.join items ++ back ∧ List.Forall₂ itemOf things items

theorem Opens.refl (opening : String) : Opens opening opening :=
  ⟨"", "", by simp⟩

theorem Opens.append {opening text : String} (opens : Opens opening text) (behind : String)
    : Opens opening (text ++ behind) := by
  obtain ⟨before, after, rfl⟩ := opens
  exact ⟨before, after ++ behind, String.append_assoc ..⟩

theorem Opens.prepend {opening text : String} (opens : Opens opening text) (front : String)
    : Opens opening (front ++ text) := by
  obtain ⟨before, after, rfl⟩ := opens
  exact ⟨front ++ before, after, by simp only [String.append_assoc]⟩

theorem Opens.unlines {opening line : String} (opens : Opens opening line) {lines : List String}
    (member : line ∈ lines)
    : Opens opening (unlines lines) := by
  obtain ⟨front, back, rfl⟩ := List.append_of_mem member
  obtain ⟨before, after, rfl⟩ := opens
  refine ⟨Artifact.unlines front ++ before, after ++ "\n" ++ Artifact.unlines back, ?_⟩
  simp [Artifact.unlines, String.append_assoc, String.push_eq_append]

section

variable {α β : Type} {itemOf : α → String → Prop} {things : List α}

theorem Lists.append {text : String} (lists : Lists itemOf things text) (behind : String)
    : Lists itemOf things (text ++ behind) := by
  obtain ⟨front, items, back, rfl, defined⟩ := lists
  exact ⟨front, items, back ++ behind, String.append_assoc .., defined⟩

theorem Lists.prepend {text : String} (lists : Lists itemOf things text) (before : String)
    : Lists itemOf things (before ++ text) := by
  obtain ⟨front, items, back, rfl, defined⟩ := lists
  exact ⟨before ++ front, items, back, by simp only [String.append_assoc], defined⟩

/-- What is listed for things is listed for what they are about. -/
theorem Lists.map {about : β → α} {rows : List β} {text : String}
    (lists : Lists (fun row => itemOf (about row)) rows text)
    : Lists itemOf (rows.map about) text := by
  obtain ⟨front, items, back, rfl, defined⟩ := lists
  exact ⟨front, items, back, rfl, List.forall₂_map_left_iff.mpr defined⟩

theorem lists_join (make : α → String) (makes : ∀ thing ∈ things, itemOf thing (make thing))
    : Lists itemOf things (String.join (things.map make)) := by
  refine ⟨"", things.map make, "", by simp, ?_⟩
  rw [List.forall₂_map_right_iff, List.forall₂_same]
  exact makes

end

variable (context : Context) (resolution : Resolution)

/-- An item has the constant of an enumerant. -/
def HasConstant (enumerant : Enumerant) (item : String) : Prop :=
  Opens ("pub const " ++ enumerantIdent context enumerant ++ ": ") item

/-- An item has the function of a command. -/
def HasFunction (command : Command) (item : String) : Prop :=
  Opens ("pub unsafe fn " ++ context.api.commandIdent command.name ++ "(") item

/-- An item has the place for the pointer of a command. -/
def HasStatic (command : Command) (item : String) : Prop :=
  let name := resolution.registry.api.commandIdent command.name
  Opens ("    pub static mut " ++ name ++ ": FnPtr = FnPtr \x7b f: super::missing_fn_panic as ")
    item

/-- An item has the module that loads a command. -/
def HasModule (command : Command) (item : String) : Prop :=
  Opens ("pub mod " ++ context.api.commandIdent command.name ++ " \x7b") item

/-- An item has the type of a group, and constants of this type for the members of the group. -/
def HasType (listed : String × List Enumerant) (item : String) : Prop :=
  let name := groupName listed.1
  Opens ("pub struct " ++ name ++ "(pub ") item
  ∧ Lists
      (fun member =>
        Opens ("pub const " ++ enumerantIdent context member ++ ": " ++ name ++ " = "))
      listed.2 item

theorem lists_constants
    : Lists (HasConstant context) resolution.activeEnums (commands context resolution) := by
  have row
      : Lists (HasConstant context) resolution.activeEnums
          (String.join (resolution.enums.values.map fun entry =>
            constant context entry.1 entry.2)) := by
    refine Lists.map (lists_join _ fun entry _ => Opens.prepend ?_ _)
    exact ((((Opens.refl _).append _).append _).append _).append _
  exact ((((((row.prepend _).append _).append _).append _).append _).append _).append _

theorem lists_functions
    : Lists (HasFunction context) resolution.activeCommands (commands context resolution) := by
  have row
      : Lists (HasFunction context) resolution.activeCommands
          (String.join (resolution.commands.values.map fun entry =>
            function context resolution entry.1 entry.2)) := by
    refine Lists.map (lists_join _ fun entry _ => Opens.prepend ?_ _)
    refine Opens.unlines ?_ (List.mem_cons_of_mem _ List.mem_cons_self)
    exact ((((Opens.refl _).append _).append _).append _).append _
  exact (((((row.prepend _).append _).append _).append _).append _).append _

theorem lists_statics
    : Lists (HasStatic resolution) resolution.activeCommands (commands context resolution) := by
  have row
      : Lists (HasStatic resolution) resolution.activeCommands
          (unlines (resolution.activeCommands.map fun command =>
            storageItem (resolution.registry.api.commandIdent command.name))) := by
    rw [unlines, List.map_map]
    refine lists_join _ fun command _ => ?_
    rw [Function.comp_apply, String.push_eq_append]
    exact ((Opens.refl _).append _).append _
  have placed
      : Lists (HasStatic resolution) resolution.activeCommands
          (storageModule (resolution.activeCommands.map fun command =>
            resolution.registry.api.commandIdent command.name)) := by
    rw [storageModule, List.map_map]
    exact (row.prepend _).append _
  exact (((placed.prepend _).append _).append _).append _

theorem lists_modules
    : Lists (HasModule context) resolution.activeCommands (commands context resolution) := by
  have row
      : Lists (HasModule context) resolution.activeCommands
          (String.join (resolution.activeCommands.map (loaderModule context resolution))) := by
    refine lists_join _ fun command _ => ?_
    exact (Opens.refl _).unlines (List.mem_cons_of_mem _ List.mem_cons_self)
  exact ((row.prepend _).append _).append _

theorem lists_types
    : Lists (HasType context) resolution.groups (enums context resolution) := by
  refine Lists.prepend (lists_join _ fun (group, members) _ => ⟨?_, ?_⟩) _
  · have line
        : Opens ("pub struct " ++ groupName group ++ "(pub ")
            ("pub struct " ++ groupName group ++ "(pub "
              ++ (intType (members.map Enumerant.value)).name ++ ");") :=
      ((Opens.refl _).append _).append _
    have among {first second third fourth fifth : String}
        : third ∈ [first, second, third, fourth, fifth] := by
      simp
    exact ((((line.unlines among).prepend _).append _).append _).append _
  · refine ((Lists.prepend (lists_join _ fun member _ => ?_) _).append _).append _
    refine ⟨docComment "    " (enumerantSummary context member) ++ "    ",
      groupName group ++ "(" ++ literal (intType (members.map Enumerant.value)) member.value
        ++ ");\n", ?_⟩
    simp [memberItem, ← String.toList_inj]

end Artifact

-----------------------------------------------------------------------------------------
-- Identifiers of definitions
-----------------------------------------------------------------------------------------

open Artifact

/-- Generated files define what is active, and where two definitions have the same identifier.
Enumerants share one if their names look alike without the start of the interface, commands if one
has the name of the other with the start before it, and groups if their words are the same in a
row.
-/
structure Resolution.SharesIdentifiers (context : Context) (resolution : Resolution) : Prop where
  constants
    : Lists (HasConstant context) resolution.activeEnums (Artifact.commands context resolution)
  functions
    : Lists (HasFunction context) resolution.activeCommands
        (Artifact.commands context resolution)
  statics
    : Lists (HasStatic resolution) resolution.activeCommands
        (Artifact.commands context resolution)
  modules
    : Lists (HasModule context) resolution.activeCommands (Artifact.commands context resolution)
  types : Lists (HasType context) resolution.groups (Artifact.enums context resolution)
  /-- Names that are no code of their own keep the files from holding any other definitions: these
  are all constants, functions, places for pointers and modules of the one file, and all types and
  constants of the other. -/
  onlyCommands
    : HasPlainNames resolution
      → ListsCommands context resolution (Artifact.commands context resolution)
  onlyTypes
    : IsUnbroken resolution.profile.name
      → roles (Artifact.enums context resolution) = resolution.groups.flatMap (groupRoles context)
  members
    : ∀ listed ∈ resolution.groups, ∀ member ∈ listed.2, member ∈ resolution.activeEnums
  enumerants_alike
    : ∀ first ∈ resolution.activeEnums, ∀ second ∈ resolution.activeEnums, first ≠ second
      → first.name ≠ second.name
        ∧ (enumerantIdent context first = enumerantIdent context second
          ↔ Alike (context.api.enumIdent first.name) (context.api.enumIdent second.name))
  /-- Functions and modules are named for the interface of the context, and places for pointers for
  that of the registry. -/
  commands_started
    : ∀ first ∈ resolution.activeCommands, ∀ second ∈ resolution.activeCommands, first ≠ second
      → first.name ≠ second.name
        ∧ ∀ api : Api,
            api.commandIdent first.name = api.commandIdent second.name
            ↔ Starts api.commandPrefix first.name second.name
              ∨ Starts api.commandPrefix second.name first.name
  groups_joined
    : ∀ first ∈ resolution.groups, ∀ second ∈ resolution.groups, first ≠ second
      → first.1 ≠ second.1
        ∧ (groupName first.1 = groupName second.1 ↔ joinedWords first.1 = joinedWords second.1)

theorem ne_of_nodup_map {α β : Type} {key : α → β} {list : List α} (unique : (list.map key).Nodup)
    {first second : α} (isFirst : first ∈ list) (isSecond : second ∈ list)
    (differ : first ≠ second)
    : key first ≠ key second :=
  fun same => differ (List.inj_on_of_nodup_map unique isFirst isSecond same)

/-- Definitions of whatever is merged have the same identifiers only where the names have the same
spelling without the start.
-/
theorem Registry.resolve_sharesIdentifiers (api : Api) (sources : List Records) (profile : Profile)
    (context : Context)
    : ((ofRecords api sources).resolve profile).SharesIdentifiers context where
  constants := lists_constants context _
  functions := lists_functions context _
  statics := lists_statics context _
  modules := lists_modules context _
  types := lists_types context _
  onlyCommands := lists_commands context _
  onlyTypes := roles_enums context _
  members _ listed _ mentioned := Resolution.active_of_mem_groups listed mentioned
  enumerants_alike first isFirst second isSecond differ := by
    have names := ne_of_nodup_map (nodup_enumNames api sources profile) isFirst isSecond differ
    exact ⟨names, ident_eq_iff _ _⟩
  commands_started first isFirst second isSecond differ := by
    have names := ne_of_nodup_map (nodup_commandNames api sources profile) isFirst isSecond differ
    refine ⟨names, fun api => (withoutStart_eq_iff _ _ _).trans ?_⟩
    exact or_iff_right names
  groups_joined first isFirst second isSecond differ := by
    have names := ne_of_nodup_map (Resolution.nodup_groupNames _) isFirst isSecond differ
    exact ⟨names, groupName_eq_iff _ _⟩

namespace Registry

/-- The groups of two names that are not in order. -/
theorem groups_of_swapped {resolution : Resolution} {first second : String}
    (named : (resolution.activeEnums.flatMap Enumerant.groups).eraseDups = [first, second])
    (swapped : ¬first ≤ second)
    : resolution.groups
      = [second, first].map fun group =>
          (group, resolution.activeEnums.flatMap fun enumerant =>
            List.replicate (enumerant.groups.count group) enumerant) := by
  have sorted : [first, second].mergeSort (fun a b => decide (a ≤ b)) = [second, first] := by
    simp [List.mergeSort, swapped]
  rw [Resolution.groups, named, sorted]

/-- A source with two names each for an enumerant, a command and a group. -/
def sharedNames : Records :=
  let origin := Origin.extension "X"
  let enumerant (name : String) (bits : BitVec 64) :=
    (Enumerant.declare name { bits, width := .narrow } origin "x").addGroups ["foo_bar", "FooBar"]
  {
    source := "x"
    enums := [enumerant "GL_FOO" 1, enumerant "FOO" 2]
    commands := [.declare "glFlush" "void" [] origin "x", .declare "Flush" "void" [] origin "x"]
    extensions := [{
      name := "X"
      supported := ["gl"]
      requires := [{ enums := ["GL_FOO", "FOO"], commands := ["glFlush", "Flush"] }]
    }]
  }

def sharedContext : Context where
  api := .gl
  outputClass := "gl"
  registry := ofRecords .gl [sharedNames]

def sharedResolution : Resolution :=
  sharedContext.registry.resolve .all

/-- Both names of each are active, and they have the same identifier. -/
theorem sharedNames_collide
    : (sharedResolution.activeEnums.map fun enumerant =>
          (enumerant.name, enumerantIdent sharedContext enumerant))
        = [("GL_FOO", "FOO"), ("FOO", "FOO")]
      ∧ (sharedResolution.activeCommands.map fun command =>
            (command.name, sharedContext.api.commandIdent command.name))
          = [("glFlush", "Flush"), ("Flush", "Flush")]
      ∧ (sharedResolution.groups.map fun listed =>
            (listed.1, groupName listed.1, listed.2.map (enumerantIdent sharedContext)))
          = [("FooBar", "FooBar", ["FOO", "FOO"]), ("foo_bar", "FooBar", ["FOO", "FOO"])] := by
  have named
      : (sharedResolution.activeEnums.flatMap Enumerant.groups).eraseDups
        = ["foo_bar", "FooBar"] := by
    decide +kernel
  refine ⟨by decide +kernel, by decide +kernel, ?_⟩
  rw [groups_of_swapped named (by decide)]
  decide +kernel

end Registry

end ApiBindings
