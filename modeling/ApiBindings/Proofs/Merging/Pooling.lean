import ApiBindings.Proofs.Merging.Accounts

/-! What declarations of a command that agree make together.
For each parameter the first group counts that any of them names, and so does the first alias. All
else is what the first declaration says. So is the group of what the command returns, which a later
declaration does not fill in.
-/

namespace ApiBindings

/-- A parameter without its group. -/
def Param.ungrouped (param : Param) : Param :=
  { param with group := none }

namespace Command

-----------------------------------------------------------------------------------------
-- Merging two declarations
-----------------------------------------------------------------------------------------

/-- The group that a command names for the parameter at a place, if it has one there. -/
def groupAt? (index : Nat) (command : Command) : Option String :=
  command.params[index]?.bind Param.group

/-- Merging fills in the group of each parameter from the one at its place. -/
theorem getElem?_mergeParams (old new : List Param) (index : Nat)
    : (mergeParams old new)[index]?
      = old[index]?.map fun param =>
          { param with group := param.group <|> new[index]?.bind Param.group } := by
  fun_induction mergeParams old new generalizing index with
  | case1 old olds new news ih =>
      cases index with
      | zero => rfl
      | succ index => exact ih index
  | case2 olds news noPair =>
      cases olds with
      | nil => rfl
      | cons old olds =>
          cases news with
          | nil => simp
          | cons new news => exact (noPair old olds new news rfl rfl).elim

theorem ungrouped_mergeParams (old new : List Param)
    : (mergeParams old new).map Param.ungrouped = old.map Param.ungrouped := by
  fun_induction mergeParams old new with
  | case1 old olds new news ih => rw [List.map_cons, ih, List.map_cons]; rfl
  | case2 => rfl

theorem length_mergeParams (old new : List Param) : (mergeParams old new).length = old.length := by
  simpa using congrArg List.length (ungrouped_mergeParams old new)

theorem signature_eq_of_ungrouped {command other : Command}
    (returns : command.returns = other.returns)
    (params : command.params.map Param.ungrouped = other.params.map Param.ungrouped)
    : command.signature = other.signature := by
  have types (params : List Param)
      : params.map Param.type = (params.map Param.ungrouped).map Param.type := by
    rw [List.map_map]
    rfl
  rw [signature, signature, returns, types, params, ← types]

-----------------------------------------------------------------------------------------
-- Merging any number of declarations
-----------------------------------------------------------------------------------------

/-- What a command has of its first declaration, whatever the later ones say. -/
structure Keeps (first command : Command) : Prop where
  name : command.name = first.name
  params : command.params.map Param.ungrouped = first.params.map Param.ungrouped
  returns : command.returns = first.returns
  returnGroup : command.returnGroup = first.returnGroup
  suffix : command.suffix = first.suffix
  source : command.source = first.source

/-- What a command has of the first of its declarations that says anything of it. -/
structure Pools (declarations : List Command) (command : Command) : Prop where
  groups
    : ∀ index < command.params.length,
        command.groupAt? index = declarations.findSome? (groupAt? index)
  aliasOf : command.aliasOf = declarations.findSome? Command.aliasOf

variable {first command : Command} {rest : List Command}

theorem Keeps.agrees (keeps : first.Keeps command) {other : Command}
    (same : other.signature = first.signature)
    : command.agrees other = true := by
  rw [Command.agrees, beq_iff_eq, same]
  exact signature_eq_of_ungrouped keeps.returns keeps.params

/-- One more declaration that agrees fills in what none before it has named. -/
theorem merge_of_agrees {other : Command} (agrees : command.agrees other = true)
    : command.merge other
      = { command with
          params := mergeParams command.params other.params
          aliasOf := command.aliasOf <|> other.aliasOf
          origin := command.origin.merge other.origin } :=
  if_pos agrees

theorem Keeps.merge {other : Command} (keeps : first.Keeps command)
    (agrees : command.agrees other = true)
    : first.Keeps (command.merge other) := by
  rw [merge_of_agrees agrees]
  exact { keeps with params := (ungrouped_mergeParams _ _).trans keeps.params }

theorem Pools.merge {other : Command} {declarations : List Command}
    (pools : Pools declarations command) (agrees : command.agrees other = true)
    : Pools (declarations ++ [other]) (command.merge other) := by
  rw [merge_of_agrees agrees]
  constructor
  · intro index inside
    rw [length_mergeParams] at inside
    have earlier := pools.groups index inside
    rw [List.findSome?_append, ← earlier]
    simp [groupAt?, getElem?_mergeParams, inside]
  · rw [List.findSome?_append, ← pools.aliasOf]
    simp

/-- By induction on the declarations behind the first one, from the back. -/
theorem exists_entry (agree : ∀ other ∈ rest, other.signature = first.signature)
    : ∃ command,
        (mergeRule.account (first :: rest)).entry = some command
        ∧ first.Keeps command
        ∧ Pools (first :: rest) command := by
  induction rest using List.reverseRecOn with
  | nil =>
      refine ⟨first, rfl, ⟨rfl, rfl, rfl, rfl, rfl, rfl⟩, ?_, ?_⟩
      · intro index _
        cases named : first.groupAt? index <;> simp [named]
      · cases named : first.aliasOf <;> simp [named]
  | append_singleton rest last ih =>
      obtain ⟨command, found, keeps, pools⟩ :=
        ih fun other member => agree other (List.mem_append_left _ member)
      have agrees : command.agrees last = true := keeps.agrees (agree last (by simp))
      refine ⟨command.merge last, ?_, keeps.merge agrees, ?_⟩
      · rw [← List.cons_append, MergeRule.account_concat, MergeRule.declare, found]
        rfl
      · rw [← List.cons_append]
        exact pools.merge agrees

/-- What a command is to be that a first declaration and further ones make together. -/
structure IsPooled (first : Command) (rest : List Command) (command : Command) : Prop
    extends Pools (first :: rest) command where
  name : command.name = first.name
  params : command.params.map Param.ungrouped = first.params.map Param.ungrouped
  source : command.source = first.source
  returnGroup : command.returnGroup = (first :: rest).findSome? Command.returnGroup

/-- The group of the first declaration that names one is that of the first declaration, unless
only a later one names any.
-/
theorem returnGroup_eq_findSome?_iff
    : first.returnGroup = (first :: rest).findSome? Command.returnGroup
      ↔ first.returnGroup = none → ∀ other ∈ rest, other.returnGroup = none := by
  cases named : first.returnGroup with
  | none =>
      rw [List.findSome?_cons, named, eq_comm]
      simp
  | some group => simp [named]

/-- Nothing but the group of what is returned can be missing. -/
theorem isPooled_iff (keeps : first.Keeps command) (pools : Pools (first :: rest) command)
    : first.IsPooled rest command
      ↔ first.returnGroup = none → ∀ other ∈ rest, other.returnGroup = none := by
  rw [← returnGroup_eq_findSome?_iff, ← keeps.returnGroup]
  constructor
  · exact IsPooled.returnGroup
  · intro returnGroup
    exact { pools with
      name := keeps.name
      params := keeps.params
      source := keeps.source
      returnGroup }

end Command

-----------------------------------------------------------------------------------------
-- The command of a registry
-----------------------------------------------------------------------------------------

namespace Registry

/-- Declarations of a command that agree leave one command, which has all else of the first of
them and pools the groups of the parameters and the alias. It pools the group of what is returned
exactly if no later declaration is the first one to name one.
-/
theorem pooled_command_iff (api : Api) (sources : List Records) {name : String}
    {first : Command} {rest : List Command}
    (declared : commandDeclarations sources name = first :: rest)
    (agree : ∀ other ∈ rest, other.signature = first.signature)
    : ∃ command,
        (ofRecords api sources).commands.find? name = some command
        ∧ first.Keeps command
        ∧ Command.Pools (first :: rest) command
        ∧ (first.IsPooled rest command
          ↔ first.returnGroup = none → ∀ other ∈ rest, other.returnGroup = none) := by
  obtain ⟨command, found, keeps, pools⟩ := Command.exists_entry agree
  refine ⟨command, ?_, keeps, pools, Command.isPooled_iff keeps pools⟩
  rw [find?_commands, declared, found]

/-- A source that declares how shaders are created, with the groups that it names. -/
def shaderSource (source : String) (kind returned other : Option String) : Records where
  source := source
  commands :=
    [{
      Command.declare "glCreateShader" "GLuint"
        [{ Param.declare "type" "GLenum" with group := kind }] (.extension "GL_EXT_foo") source with
      returnGroup := returned
      aliasOf := other
    }]

/-- Each of the sources has something that those before it do not have. -/
def gatheredShader : List Records :=
  [
    shaderSource "a" none (some "Shader") none,
    shaderSource "b" (some "ShaderType") (some "Object") none,
    shaderSource "c" (some "Kind") none (some "glMakeShader")
  ]

theorem gatheredShader_pooled
    : ∃ command,
        (ofRecords .gl gatheredShader).commands.find? "glCreateShader" = some command
        ∧ command.source = "a"
        ∧ command.groupAt? 0 = some "ShaderType"
        ∧ command.aliasOf = some "glMakeShader"
        ∧ command.returnGroup = some "Shader" := by
  have declared
      : commandDeclarations gatheredShader "glCreateShader"
        = (shaderSource "a" none (some "Shader") none).commands
          ++ (shaderSource "b" (some "ShaderType") (some "Object") none).commands
          ++ (shaderSource "c" (some "Kind") none (some "glMakeShader")).commands := by
    decide
  obtain ⟨command, found, keeps, pools, pooled⟩ :=
    pooled_command_iff .gl gatheredShader declared (by decide)
  have length : command.params.length = 1 := by
    rw [← List.length_map Param.ungrouped, keeps.params]
    rfl
  refine ⟨command, found, keeps.source, ?_, pools.aliasOf, (pooled.mpr (by decide)).returnGroup⟩
  exact pools.groups 0 (by omega)

/-- The second source is the first one that says what group is returned. -/
def lateShaderGroup : List Records :=
  [
    shaderSource "a" none none none,
    shaderSource "b" (some "ShaderType") (some "Object") none
  ]

theorem lateShaderGroup_not_pooled
    : ¬ ∀ first rest,
          commandDeclarations lateShaderGroup "glCreateShader" = first :: rest
          → (∀ other ∈ rest, other.signature = first.signature)
          → ∃ command,
              (ofRecords .gl lateShaderGroup).commands.find? "glCreateShader" = some command
              ∧ first.IsPooled rest command := by
  intro everyPooled
  obtain ⟨command, found, pooled⟩ := everyPooled _ _ rfl (by decide)
  have returned := pooled.returnGroup
  cases found
  revert returned
  decide

end Registry

end ApiBindings
