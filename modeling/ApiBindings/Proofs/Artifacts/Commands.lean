import ApiBindings.Proofs.Artifacts.Sections
import ApiBindings.Registry.Merge

/-! Which enumerants and commands generated bindings have the identifiers of.
The active enumerants have a constant each, and every section behind these goes through the active
commands once. Places for pointers are named for the interface of the registry, and everything else
is named for that of the context.
-/

namespace ApiBindings.Artifact

open ApiBindings.Code
open ApiBindings.Text

variable (context : Context) (resolution : Resolution)

-----------------------------------------------------------------------------------------
-- All sections
-----------------------------------------------------------------------------------------

/-- Names that are put into code as they are, are a part of it: commands have names that can be
identifiers, and none of their other names goes over a line.
-/
structure HasPlainCommands (resolution : Resolution) : Prop where
  commands
    : ∀ command ∈ resolution.activeCommands, ∀ c ∈ command.name.toList, isWordChar c = true
  fallbacks
    : ∀ command ∈ resolution.activeCommands, ∀ other ∈ fallbacks resolution.registry command,
        IsUnbroken other

theorem isWordChar_commandIdent {api : Api} {name : String}
    (words : ∀ c ∈ name.toList, isWordChar c = true)
    : ∀ c ∈ (api.commandIdent name).toList, isWordChar c = true := by
  unfold Api.commandIdent Api.withoutStart
  split
  · exact words
  · exact words
  · rename_i rest _ stripped
    intro c member
    rw [String.toList_ofList] at member
    refine words c ?_
    rw [eq_append_of_strip? stripped]
    exact List.mem_append_right _ member

/-- What a section has identifiers for that goes through commands, with the same purposes for each
of them.
-/
def sectionRoles (purposes : List Role) (api : Api) (commands : List Command)
    : List (Role × String) :=
  commands.flatMap fun command => purposes.map fun role => (role, api.commandIdent command.name)

theorem sectionRoles_singleton (purpose : Role) (api : Api) (commands : List Command)
    : sectionRoles [purpose] api commands
      = commands.map fun command => (purpose, api.commandIdent command.name) :=
  List.map_eq_flatMap.symm

/-- What generated bindings have identifiers for, section by section. -/
theorem roles_commands (plain : HasPlainCommands resolution)
    : roles (commands context resolution)
      = roles (banner context resolution "commands and enums")
        ++ [(.module, "types")]
        ++ resolution.enums.values.flatMap (constantRoles context)
        ++ resolution.commands.values.flatMap (functionRoles context)
        ++ sectionRoles [.static] resolution.registry.api resolution.activeCommands
        ++ sectionRoles [.module, .check, .store] context.api resolution.activeCommands
        ++ sectionRoles [.load] context.api resolution.activeCommands := by
  have words (api : Api)
      : ∀ name ∈ resolution.activeCommands.map fun command => api.commandIdent command.name,
          ∀ c ∈ name.toList, isWordChar c = true := by
    intro name member
    obtain ⟨command, active, rfl⟩ := List.mem_map.mp member
    exact isWordChar_commandIdent (plain.commands command active)
  have constants := gives_join fun active (_ : active ∈ resolution.enums.values) =>
    gives_constant context active
  have functions := gives_join fun active (member : active ∈ resolution.commands.values) => by
    have isActive : active.1 ∈ resolution.activeCommands := List.mem_map_of_mem member
    exact gives_function context resolution
      (isWordChar_commandIdent (plain.commands active.1 isActive))
      (plain.fallbacks active.1 isActive)
  have statics := gives_storageModule (words resolution.registry.api)
  have loaders := gives_join fun command (member : command ∈ resolution.activeCommands) =>
    gives_loaderModule context resolution (isWordChar_commandIdent (plain.commands command member))
      (isUnbroken_of_words (plain.commands command member)) (plain.fallbacks command member)
  have loads := gives_loadAll context.api (words context.api)
  have start := (endsLine_banner context resolution "commands and enums").gives
  have whole :=
    (((((((((start.append gives_preamble).append (gives_typesModule context.registry)).append
      constants).append functions).append gives_pointerType).append statics).append loaders).append
      (gives_missingFunction context.api)).append loads)
  simp only [List.append_nil, List.map_map] at whole
  rw [sectionRoles_singleton, sectionRoles_singleton]
  exact whole.roles_eq

-----------------------------------------------------------------------------------------
-- Plain names
-----------------------------------------------------------------------------------------

/-- Names that are on one line of a comment each, too. -/
structure HasPlainNames : Prop extends HasPlainCommands resolution where
  profile : IsUnbroken resolution.profile.name
  enumerants
    : ∀ active ∈ resolution.enums.values,
        ∀ requirer ∈ active.2.requiredBy ++ active.2.removedBy, IsUnbroken requirer.name
  requirers
    : ∀ active ∈ resolution.commands.values,
        ∀ requirer ∈ active.2.requiredBy ++ active.2.removedBy, IsUnbroken requirer.name

theorem spilled_of_isUnbroken {mentions : Mentions}
    (names : ∀ requirer ∈ mentions.requiredBy ++ mentions.removedBy, IsUnbroken requirer.name)
    : spilled mentions = [] := by
  obtain ⟨requiredBy, removedBy⟩ := List.forall_mem_append.mp names
  unfold spilled
  rw [roles_requirersLine (isUnbroken_ofList (by decide)) requiredBy,
    roles_requirersLine (isUnbroken_ofList (by decide)) removedBy]
  rfl

/-- The constants of the active enumerants, in their order. -/
def constantNames : List String :=
  resolution.activeEnums.map (enumerantIdent context)

/-- The places for the pointers of the active commands, in their order. -/
def staticNames : List String :=
  resolution.activeCommands.map fun command => resolution.registry.api.commandIdent command.name

/-- The names under which the active commands are called and loaded, in their order. -/
def commandNames : List String :=
  resolution.activeCommands.map fun command => context.api.commandIdent command.name

/-- A text declares and uses the active commands, each once and in their order, and likewise
declares the constants of the active enumerants. It declares nothing of a group.
-/
structure ListsCommands (text : String) : Prop where
  constants : named .constant text = constantNames context resolution
  statics : named .static text = staticNames resolution
  modules : named .module text = "types" :: commandNames context resolution
  others
    : ∀ role ∈ [Role.function, .call, .check, .store, .load],
        named role text = commandNames context resolution
  groups : named .type text = [] ∧ named .member text = []

theorem namesFor_append (role : Role) (front back : List (Role × String))
    : namesFor role (front ++ back) = namesFor role front ++ namesFor role back :=
  List.filterMap_append

/-- By induction on the purposes. -/
theorem namesFor_map (role : Role) (purposes : List Role) (name : String)
    : namesFor role (purposes.map fun purpose => (purpose, name))
      = List.replicate (purposes.count role) name := by
  induction purposes with
  | nil => rfl
  | cons purpose purposes ih =>
      rw [List.map_cons, ← List.singleton_append, namesFor_append, ih]
      by_cases same : purpose = role
      · subst same
        rw [List.count_cons_self, List.replicate_succ]
        simp [namesFor]
      · rw [List.count_cons_of_ne same]
        simp [namesFor, same]

/-- By induction on the commands. -/
theorem namesFor_sectionRoles (role : Role) (purposes : List Role) (api : Api)
    (commands : List Command)
    : namesFor role (sectionRoles purposes api commands)
      = commands.flatMap fun command =>
          List.replicate (purposes.count role) (api.commandIdent command.name) := by
  induction commands with
  | nil => rfl
  | cons command commands ih =>
      rw [sectionRoles, List.flatMap_cons, List.flatMap_cons, namesFor_append, namesFor_map]
      exact congrArg _ ih

theorem namesFor_sectionRoles_of_count {role : Role} {purposes : List Role}
    (once : purposes.count role = 1) (api : Api) (commands : List Command)
    : namesFor role (sectionRoles purposes api commands)
      = commands.map fun command => api.commandIdent command.name := by
  rw [namesFor_sectionRoles, once]
  exact List.map_eq_flatMap.symm

theorem namesFor_sectionRoles_of_not_mem {role : Role} {purposes : List Role}
    (absent : role ∉ purposes) (api : Api) (commands : List Command)
    : namesFor role (sectionRoles purposes api commands) = [] := by
  rw [namesFor_sectionRoles, List.count_eq_zero.mpr absent]
  simp

theorem namesFor_constants (role : Role)
    : namesFor role (resolution.activeEnums.map fun enumerant =>
          (.constant, enumerantIdent context enumerant))
      = if role = .constant then constantNames context resolution else [] := by
  split
  · rename_i same
    subst same
    simp [namesFor, constantNames, List.filterMap_map]
  · rename_i other
    simp [namesFor, Ne.symm other]

/-- With plain names, a text has the identifiers of its sections and of the module of the types. -/
theorem roles_commands_of_plain (plain : HasPlainNames resolution)
    : roles (commands context resolution)
      = [(.module, "types")]
        ++ (resolution.activeEnums.map fun enumerant =>
          (.constant, enumerantIdent context enumerant))
        ++ sectionRoles [.function, .call] context.api resolution.activeCommands
        ++ sectionRoles [.static] resolution.registry.api resolution.activeCommands
        ++ sectionRoles [.module, .check, .store] context.api resolution.activeCommands
        ++ sectionRoles [.load] context.api resolution.activeCommands := by
  have banner := roles_banner context plain.profile
    (isUnbroken_ofList (by decide) : IsUnbroken "commands and enums")
  have constants
      : resolution.enums.values.flatMap (constantRoles context)
        = resolution.activeEnums.map fun enumerant =>
          (.constant, enumerantIdent context enumerant) := by
    rw [Resolution.activeEnums, List.map_map, List.map_eq_flatMap]
    refine List.flatMap_congr fun active member => ?_
    rw [constantRoles, spilled_of_isUnbroken (plain.enumerants active member)]
    rfl
  have functions
      : resolution.commands.values.flatMap (functionRoles context)
        = sectionRoles [.function, .call] context.api resolution.activeCommands := by
    rw [sectionRoles, Resolution.activeCommands, List.flatMap_map]
    refine List.flatMap_congr fun active member => ?_
    rw [functionRoles, spilled_of_isUnbroken (plain.requirers active member)]
    rfl
  rw [roles_commands context resolution plain.toHasPlainCommands, banner, constants, functions,
    List.nil_append]

theorem lists_commands (plain : HasPlainNames resolution)
    : ListsCommands context resolution (commands context resolution) := by
  have found := roles_commands_of_plain context resolution plain
  have named (role : Role)
      : named role (commands context resolution)
        = namesFor role [(.module, "types")]
          ++ (if role = .constant then constantNames context resolution else [])
          ++ namesFor role (sectionRoles [.function, .call] context.api resolution.activeCommands)
          ++ namesFor role
            (sectionRoles [.static] resolution.registry.api resolution.activeCommands)
          ++ namesFor role
            (sectionRoles [.module, .check, .store] context.api resolution.activeCommands)
          ++ namesFor role (sectionRoles [.load] context.api resolution.activeCommands) := by
    rw [Artifact.named, found]
    simp only [namesFor_append, namesFor_constants]
  constructor
  case constants =>
    rw [named]
    simp (disch := decide) only [namesFor_sectionRoles_of_not_mem]
    simp [namesFor]
  case statics =>
    rw [named]
    simp (disch := decide) only [namesFor_sectionRoles_of_count, namesFor_sectionRoles_of_not_mem]
    simp [namesFor, staticNames]
  case modules =>
    rw [named]
    simp (disch := decide) only [namesFor_sectionRoles_of_count, namesFor_sectionRoles_of_not_mem]
    simp [namesFor, commandNames]
  case others =>
    -- The purpose decides which of the sections it is for, and there is just one.
    intro role member
    simp only [List.mem_cons, List.not_mem_nil, or_false] at member
    rcases member with rfl | rfl | rfl | rfl | rfl
    all_goals
      rw [named]
      simp (disch := decide) only [namesFor_sectionRoles_of_count, namesFor_sectionRoles_of_not_mem]
      simp [namesFor, commandNames]
  case groups =>
    constructor
    all_goals
      rw [named]
      simp (disch := decide) only [namesFor_sectionRoles_of_not_mem]
      simp [namesFor]

-----------------------------------------------------------------------------------------
-- Agreement
-----------------------------------------------------------------------------------------

/-- Every section of a text is about the same commands, and what a section uses is declared. -/
structure IsConsistent (text : String) : Prop where
  functions : named .function text = named .static text
  modules : named .module text = "types" :: named .static text
  loads : named .load text = named .static text
  pointers
    : ∀ role ∈ [Role.call, .check, .store], ∀ name ∈ named role text, name ∈ named .static text
  loaders : ∀ name ∈ named .load text, name ∈ named .module text

theorem isConsistent_of_same {text : String} (lists : ListsCommands context resolution text)
    (same : staticNames resolution = commandNames context resolution)
    : IsConsistent text := by
  have others (role : Role) (isOther : role ∈ [Role.function, .call, .check, .store, .load])
      : named role text = named .static text := by
    rw [lists.others role isOther, lists.statics, same]
  have modules : named .module text = "types" :: named .static text := by
    rw [lists.modules, lists.statics, same]
  constructor
  case functions => exact others .function (by decide)
  case modules => exact modules
  case loads => exact others .load (by decide)
  case pointers =>
    intro role member name isNamed
    have isOther : role ∈ [Role.function, .call, .check, .store, .load] := by
      revert member
      simp +contextual [or_imp]
    rwa [others role isOther] at isNamed
  case loaders =>
    intro name isNamed
    rw [others .load (by decide)] at isNamed
    rw [modules]
    exact List.mem_cons_of_mem "types" isNamed

/-- Generated bindings list the active commands in every section. The sections agree exactly when
the interface of the context and that of the registry name all of these alike, as they do if it is
the same one.
-/
theorem isConsistent_commands_iff (profile : Profile)
    (plain : HasPlainNames (context.registry.resolve profile))
    : ListsCommands context (context.registry.resolve profile)
          (commands context (context.registry.resolve profile))
      ∧ (IsConsistent (commands context (context.registry.resolve profile))
          ↔ ∀ command ∈ (context.registry.resolve profile).activeCommands,
              context.registry.api.commandIdent command.name
              = context.api.commandIdent command.name) := by
  have lists := lists_commands context _ plain
  refine ⟨lists, fun consistent => ?_, fun alike => ?_⟩
  · have functions := consistent.functions
    rw [lists.others .function (by decide), lists.statics] at functions
    exact fun command active => (List.map_inj_left.mp functions command active).symm
  · exact isConsistent_of_same context _ lists (List.map_inj_left.mpr alike)

/-- Two commands, required in an order that is not theirs, and between them another name for the
first one, which is not required.
-/
def aliasedRecords : Records :=
  let origin := Origin.extension "GL_ARB_multitexture"
  {
    source := "gl.xml"
    commands := [
      .declare "glActiveTexture" "void" [] origin "gl.xml",
      { Command.declare "glActiveTextureARB" "void" [] origin "gl.xml" with
        aliasOf := some "glActiveTexture" },
      .declare "glClientActiveTexture" "void" [] origin "gl.xml"
    ]
    extensions := [{
      name := "GL_ARB_multitexture"
      supported := ["gl"]
      requires := [{ commands := ["glClientActiveTexture", "glActiveTexture"] }]
    }]
  }

def aliasedContext : Context where
  api := .gl
  outputClass := "gl"
  registry := Registry.ofRecords .gl [aliasedRecords]

theorem aliasedContext_plain : HasPlainNames (aliasedContext.registry.resolve .all) := by
  constructor
  case toHasPlainCommands =>
    constructor
    case commands => decide +kernel
    case fallbacks => decide +kernel
  case profile => decide +kernel
  case enumerants => decide +kernel
  case requirers => decide +kernel

/-- With one interface for the context and its registry, all sections agree. The commands are in the
order of the registry.
-/
theorem aliasedContext_isConsistent
    : staticNames (aliasedContext.registry.resolve .all) = ["ActiveTexture", "ClientActiveTexture"]
      ∧ IsConsistent (commands aliasedContext (aliasedContext.registry.resolve .all)) := by
  have alike := isConsistent_commands_iff aliasedContext .all aliasedContext_plain
  exact ⟨by decide +kernel, alike.2.mpr fun _ _ => rfl⟩

/-- The name of the extension goes on with what looks like the function of a command. -/
def spilledRecords : Records :=
  let name := "GL_EXT_foo\npub unsafe fn C() \x7b storage::C.f \x7d"
  {
    source := "x"
    commands := [.declare "glA" "void" [] (.extension name) "x"]
    extensions := [{ name, supported := ["gl"], requires := [{ commands := ["glA"] }] }]
  }

def spilledContext : Context where
  api := .gl
  outputClass := "gl"
  registry := Registry.ofRecords .gl [spilledRecords]

/-- A name that goes over the line of its comment declares a function without a pointer. -/
theorem spilledName_not_consistent
    : named .static (commands spilledContext (spilledContext.registry.resolve .all)) = ["A"]
      ∧ named .function (commands spilledContext (spilledContext.registry.resolve .all))
        = ["C", "A"]
      ∧ ¬IsConsistent (commands spilledContext (spilledContext.registry.resolve .all)) := by
  have plain : HasPlainCommands (spilledContext.registry.resolve .all) := by
    constructor
    case commands => decide +kernel
    case fallbacks => decide +kernel
  have profile : IsUnbroken (spilledContext.registry.resolve .all).profile.name := by
    decide +kernel
  have banner := roles_banner spilledContext profile
    (isUnbroken_ofList (by decide) : IsUnbroken "commands and enums")
  have found := roles_commands spilledContext _ plain
  rw [banner] at found
  have declared
      : named .static (commands spilledContext (spilledContext.registry.resolve .all)) = ["A"]
        ∧ named .function (commands spilledContext (spilledContext.registry.resolve .all))
          = ["C", "A"] := by
    rw [named, named, found]
    decide +kernel
  refine ⟨declared.1, declared.2, fun consistent => ?_⟩
  have same := consistent.functions
  rw [declared.1, declared.2] at same
  revert same
  decide

/-- An interface that the names of the registry are not of. -/
def foreignContext : Context where
  api := .gl
  outputClass := "gl"
  registry := Registry.ofRecords .egl [{
    source := "egl.xml"
    commands := [.declare "eglInitialize" "EGLBoolean" [] (.extension "EGL_foo") "egl.xml"]
    extensions := [{
      name := "EGL_foo"
      supported := ["egl"]
      requires := [{ commands := ["eglInitialize"] }]
    }]
  }]

/-- The pointer of the command is stored under one name and called under the other. -/
theorem foreignContext_not_consistent
    : named .static (commands foreignContext (foreignContext.registry.resolve .all))
        = ["Initialize"]
      ∧ named .call (commands foreignContext (foreignContext.registry.resolve .all))
        = ["eglInitialize"]
      ∧ ¬IsConsistent (commands foreignContext (foreignContext.registry.resolve .all)) := by
  have plain : HasPlainNames (foreignContext.registry.resolve .all) := by
    constructor
    case toHasPlainCommands =>
      constructor
      case commands => decide +kernel
      case fallbacks => decide +kernel
    case profile => decide +kernel
    case enumerants => decide +kernel
    case requirers => decide +kernel
  have lists := lists_commands foreignContext _ plain
  have statics : staticNames (foreignContext.registry.resolve .all) = ["Initialize"] := by
    decide +kernel
  have calls : commandNames foreignContext (foreignContext.registry.resolve .all)
      = ["eglInitialize"] := by
    decide +kernel
  refine ⟨lists.statics.trans statics, (lists.others .call (by decide)).trans calls, ?_⟩
  intro consistent
  have same := consistent.functions
  rw [lists.others .function (by decide), lists.statics, statics, calls] at same
  revert same
  decide

end ApiBindings.Artifact
