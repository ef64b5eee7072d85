import ApiBindings.Proofs.Merging.Rule

/-! The account of a name: its entry in the table of its kind, and the conflicts about it.
Every declaration of the name takes one step from account to account, and nothing else that a
source holds changes it. What a registry has under a name is therefore decided by the
declarations of that name alone.
-/

namespace ApiBindings

/-- What merging has made of one name. -/
structure Account (α : Type) where
  entry : Option α := none
  conflicts : List Conflict := []

namespace MergeRule

variable {α : Type} (rule : MergeRule α)

/-- The step that a declaration of the name takes. -/
def declare (account : Account α) (new : α) : Account α where
  entry := some (account.entry.elim new fun old => rule.merge old new)
  conflicts :=
    account.conflicts ++ (account.entry.bind fun old => rule.conflict? old new).toList

/-- The account of a name that has been declared by a list of declarations. -/
def account (declarations : List α) : Account α :=
  declarations.foldl rule.declare {}

theorem account_concat (front : List α) (last : α)
    : rule.account (front ++ [last]) = rule.declare (rule.account front) last := by
  simp only [account, List.foldl_append, List.foldl_cons, List.foldl_nil]

/-- What every declaration has and merging two of them keeps, the entry has. By induction on the
declarations from the back.
-/
theorem entry_of_merge (holds : α → Prop)
    (merges : ∀ {old new}, holds old → holds new → holds (rule.merge old new))
    {declarations : List α} (declared : ∀ declaration ∈ declarations, holds declaration)
    {entry : α} (found : (rule.account declarations).entry = some entry)
    : holds entry := by
  induction declarations using List.reverseRecOn generalizing entry with
  | nil => cases found
  | append_singleton front last ih =>
      have lastHolds := declared last (by simp)
      rw [account_concat, declare, Option.some.injEq] at found
      subst found
      cases earlier : (rule.account front).entry with
      | none => exact lastHolds
      | some old =>
          exact merges (ih (fun other member => declared other (by simp [member])) earlier)
            lastHolds

/-- The entry of a name has that name, like all of its declarations. -/
theorem name_entry {name : String} {declarations : List α}
    (named : ∀ declaration ∈ declarations, rule.name declaration = name) {entry : α}
    (found : (rule.account declarations).entry = some entry)
    : rule.name entry = name :=
  rule.entry_of_merge (fun symbol => rule.name symbol = name)
    (fun oldNamed newNamed =>
      (rule.name_merge (oldNamed.trans newNamed.symm)).trans newNamed)
    named found

/-- A conflict is about the name that the new declaration has, whatever it says of both. -/
theorem conflict?_about {old new : α} {conflict : Conflict}
    (found : rule.conflict? old new = some conflict)
    : conflict.kind = rule.kind ∧ conflict.name = rule.name new := by
  rw [rule.conflict?_eq] at found
  split at found
  · cases found
  · obtain rfl := Option.some.inj found
    exact ⟨rfl, rfl⟩

end MergeRule

def Conflict.isAbout (kind : SymbolKind) (name : String) (conflict : Conflict) : Bool :=
  conflict.kind = kind ∧ conflict.name = name

theorem Conflict.forall_about_iff {kind : SymbolKind} {name : String}
    {conflicts : List Conflict} {holds : Conflict → Prop}
    : (∀ conflict ∈ conflicts.filter (isAbout kind name), holds conflict)
      ↔ ∀ conflict ∈ conflicts,
          conflict.kind = kind → conflict.name = name → holds conflict := by
  simp [isAbout]

/-- Of the conflict that a declaration brings, nothing is about any other name or kind. -/
theorem MergeRule.filter_conflict {α : Type} (rule : MergeRule α) (entry : Option α)
    (new : α) (kind : SymbolKind) (name : String)
    : (entry.bind fun old => rule.conflict? old new).toList.filter
          (Conflict.isAbout kind name)
      = if rule.kind = kind ∧ rule.name new = name then
          (entry.bind fun old => rule.conflict? old new).toList
        else
          [] := by
  cases found : entry.bind fun old => rule.conflict? old new with
  | none => simp
  | some conflict =>
      obtain ⟨old, _, clash⟩ := Option.bind_eq_some_iff.mp found
      obtain ⟨sameKind, sameName⟩ := rule.conflict?_about clash
      by_cases about : rule.kind = kind ∧ rule.name new = name
      · simp [Conflict.isAbout, sameKind, sameName, about]
      · simp [Conflict.isAbout, sameKind, sameName, about]

/-- A view that only some items move is moved by these items alone, one after the other. By
induction on the items.
-/
theorem foldl_follows {α σ ν : Type} (view : σ → ν) (step : σ → α → σ) (own : ν → α → ν)
    (concerns : α → Bool)
    (follows
      : ∀ state item,
          view (step state item)
          = if concerns item then own (view state) item else view state)
    (items : List α) (state : σ)
    : view (items.foldl step state) = (items.filter concerns).foldl own (view state) := by
  induction items generalizing state with
  | nil => rfl
  | cons item rest ih =>
      rw [List.foldl_cons, ih, follows, List.filter_cons]
      split <;> rfl

/-- A view that no item moves is the same after any number of them. -/
theorem foldl_keeps {α σ ν : Type} (view : σ → ν) (step : σ → α → σ)
    (keeps : ∀ state item, view (step state item) = view state) (items : List α) (state : σ)
    : view (items.foldl step state) = view state := by
  induction items generalizing state with
  | nil => rfl
  | cons item rest ih => rw [List.foldl_cons, ih, keeps]

-----------------------------------------------------------------------------------------
-- Accounts in a builder
-----------------------------------------------------------------------------------------

namespace MergeRule

variable {α β : Type}

/-- The account of a name in a table and among the conflicts of all kinds and names. -/
def accountIn (rule : MergeRule α) (name : String) (table : Table α)
    (conflicts : List Conflict)
    : Account α where
  entry := table.find? name
  conflicts := conflicts.filter (Conflict.isAbout rule.kind name)

/-- Merging a declaration into a table is a step for its own name and none for any other. -/
theorem accountIn_upsert (rule : MergeRule α) (name : String) (table : Table α)
    (conflicts : List Conflict) (new : α)
    : rule.accountIn name (table.upsert (rule.name new) new rule.merge)
          (conflicts
            ++ ((table.find? (rule.name new)).bind fun old =>
                  rule.conflict? old new).toList)
      = if rule.name new = name then
          rule.declare (rule.accountIn name table conflicts) new
        else
          rule.accountIn name table conflicts := by
  unfold accountIn
  rw [List.filter_append, rule.filter_conflict]
  by_cases same : rule.name new = name
  · subst same
    simp [declare, Table.find?_upsert_self]
  · simp [same, Table.find?_upsert_of_ne _ _ (Ne.symm same)]

/-- The conflicts that a declaration of another kind brings are about that kind. -/
theorem accountIn_append_conflict (rule : MergeRule α) (other : MergeRule β)
    (differ : other.kind ≠ rule.kind) (name : String) (table : Table α)
    (conflicts : List Conflict) (entry : Option β) (new : β)
    : rule.accountIn name table
          (conflicts ++ (entry.bind fun old => other.conflict? old new).toList)
      = rule.accountIn name table conflicts := by
  unfold accountIn
  rw [List.filter_append, other.filter_conflict, if_neg (fun about => differ about.1),
    List.append_nil]

end MergeRule

namespace Registry.Builder

def enumAccount (name : String) (builder : Builder) : Account Enumerant :=
  Enumerant.mergeRule.accountIn name builder.enums builder.conflicts

def commandAccount (name : String) (builder : Builder) : Account Command :=
  Command.mergeRule.accountIn name builder.commands builder.conflicts

theorem enumAccount_addEnumerant (name : String) (builder : Builder) (new : Enumerant)
    : (builder.addEnumerant new).enumAccount name
      = if new.name = name then
          Enumerant.mergeRule.declare (builder.enumAccount name) new
        else
          builder.enumAccount name :=
  Enumerant.mergeRule.accountIn_upsert name builder.enums builder.conflicts new

theorem commandAccount_addEnumerant (name : String) (builder : Builder) (new : Enumerant)
    : (builder.addEnumerant new).commandAccount name = builder.commandAccount name :=
  Command.mergeRule.accountIn_append_conflict Enumerant.mergeRule (by decide) name
    builder.commands builder.conflicts _ new

theorem commandAccount_addCommand (name : String) (builder : Builder) (new : Command)
    : (builder.addCommand new).commandAccount name
      = if new.name = name then
          Command.mergeRule.declare (builder.commandAccount name) new
        else
          builder.commandAccount name :=
  Command.mergeRule.accountIn_upsert name builder.commands builder.conflicts new

theorem enumAccount_addCommand (name : String) (builder : Builder) (new : Command)
    : (builder.addCommand new).enumAccount name = builder.enumAccount name :=
  Enumerant.mergeRule.accountIn_append_conflict Command.mergeRule (by decide) name
    builder.enums builder.conflicts _ new

/-- The builder behind the symbols of a source, before anything else of it is taken in. -/
def ingestSymbols (builder : Builder) (records : Records) : Builder :=
  records.commands.foldl addCommand
    (records.enums.foldl addEnumerant
      { builder with faults := builder.faults ++ records.faults })

/-- A view of the symbols does not see what else a source holds. -/
theorem view_ingest {ν : Type} (view : Builder → ν)
    (ofSymbols
      : ∀ (builder : Builder) types features extensions groupMembers bitmaskGroups,
          view { builder with types, features, extensions, groupMembers, bitmaskGroups }
          = view builder)
    (builder : Builder) (records : Records)
    : view (builder.ingest records) = view (builder.ingestSymbols records) := by
  have types (builder : Builder) : view (records.types.foldl addType builder) = view builder :=
    foldl_keeps view addType (fun _ _ => ofSymbols _ _ _ _ _ _) _ _
  have features (builder : Builder)
      : view (records.features.foldl addFeature builder) = view builder :=
    foldl_keeps view addFeature (fun _ _ => ofSymbols _ _ _ _ _ _) _ _
  have extensions (builder : Builder)
      : view (records.extensions.foldl addExtension builder) = view builder :=
    foldl_keeps view addExtension (fun _ _ => ofSymbols _ _ _ _ _ _) _ _
  unfold ingest
  refine (ofSymbols _ _ _ _ _ _).trans ?_
  rw [extensions, features, types]
  rfl

/-- A source moves the account of an enumerant by its declarations of that name. -/
theorem enumAccount_ingest (name : String) (builder : Builder) (records : Records)
    : (builder.ingest records).enumAccount name
      = (records.enums.filter fun new => new.name = name).foldl
          Enumerant.mergeRule.declare (builder.enumAccount name) := by
  rw [view_ingest (enumAccount name) (fun _ _ _ _ _ _ => rfl), ingestSymbols,
    foldl_keeps (enumAccount name) addCommand (enumAccount_addCommand name)]
  refine foldl_follows (enumAccount name) addEnumerant _ _ (fun builder new => ?_) _ _
  simp only [enumAccount_addEnumerant, decide_eq_true_eq]

/-- A source moves the account of a command by its declarations of that name. -/
theorem commandAccount_ingest (name : String) (builder : Builder) (records : Records)
    : (builder.ingest records).commandAccount name
      = (records.commands.filter fun new => new.name = name).foldl
          Command.mergeRule.declare (builder.commandAccount name) := by
  have follows (builder : Builder) (new : Command)
      : (builder.addCommand new).commandAccount name
        = if decide (new.name = name) then
            Command.mergeRule.declare (builder.commandAccount name) new
          else
            builder.commandAccount name := by
    simp only [commandAccount_addCommand, decide_eq_true_eq]
  rw [view_ingest (commandAccount name) (fun _ _ _ _ _ _ => rfl), ingestSymbols,
    foldl_follows (commandAccount name) addCommand _ _ follows,
    foldl_keeps (commandAccount name) addEnumerant (commandAccount_addEnumerant name)]
  rfl

/-- The names of the enumerants after a source: those that were there, and then the new ones. -/
theorem enumNames_ingest (builder : Builder) (records : Records)
    : (builder.ingest records).enums.names
      = (records.enums.map Enumerant.name).foldl addNew builder.enums.names := by
  rw [view_ingest (fun builder => builder.enums.names) (fun _ _ _ _ _ _ => rfl),
    ingestSymbols,
    foldl_keeps (fun builder => builder.enums.names) addCommand (fun _ _ => rfl),
    List.foldl_map]
  refine (List.foldl_hom (fun builder : Builder => builder.enums.names) ?_).symm
  exact fun builder new => (Table.names_upsert builder.enums new.name new _).symm

/-- The names of the commands after a source: those that were there, and then the new ones. -/
theorem commandNames_ingest (builder : Builder) (records : Records)
    : (builder.ingest records).commands.names
      = (records.commands.map Command.name).foldl addNew builder.commands.names := by
  have enums
      : (records.enums.foldl addEnumerant
            { builder with faults := builder.faults ++ records.faults }).commands.names
        = builder.commands.names :=
    foldl_keeps (fun builder => builder.commands.names) addEnumerant (fun _ _ => rfl) _ _
  rw [view_ingest (fun builder => builder.commands.names) (fun _ _ _ _ _ _ => rfl),
    ingestSymbols, List.foldl_map, ← enums]
  refine (List.foldl_hom (fun builder : Builder => builder.commands.names) ?_).symm
  exact fun builder new => (Table.names_upsert builder.commands new.name new _).symm

/-- Listed members wait behind those of earlier sources; no other part of a source adds any. -/
theorem groupMembers_ingest (builder : Builder) (records : Records)
    : (builder.ingest records).groupMembers
      = builder.groupMembers ++ records.groupMembers := by
  unfold ingest
  dsimp only
  rw [foldl_keeps groupMembers addExtension (fun _ _ => rfl),
    foldl_keeps groupMembers addFeature (fun _ _ => rfl),
    foldl_keeps groupMembers addType (fun _ _ => rfl),
    foldl_keeps groupMembers addCommand (fun _ _ => rfl),
    foldl_keeps groupMembers addEnumerant (fun _ _ => rfl)]

end Registry.Builder

-----------------------------------------------------------------------------------------
-- Accounts in a registry
-----------------------------------------------------------------------------------------

/-- The enumerants that sources declare, in the order in which they are ingested. -/
def declaredEnums (sources : List Records) : List Enumerant :=
  sources.flatMap fun source => source.enums

/-- The commands that sources declare, in the order in which they are ingested. -/
def declaredCommands (sources : List Records) : List Command :=
  sources.flatMap fun source => source.commands

/-- The declarations of one enumerant, in the order in which they are ingested. -/
def enumDeclarations (sources : List Records) (name : String) : List Enumerant :=
  (declaredEnums sources).filter fun enumerant => enumerant.name = name

/-- The declarations of one command, in the order in which they are ingested. -/
def commandDeclarations (sources : List Records) (name : String) : List Command :=
  (declaredCommands sources).filter fun command => command.name = name

theorem name_of_mem_enumDeclarations (sources : List Records) (name : String)
    : ∀ declared ∈ enumDeclarations sources name, declared.name = name := by
  intro declared member
  simpa using (List.mem_filter.mp member).2

theorem name_of_mem_commandDeclarations (sources : List Records) (name : String)
    : ∀ declared ∈ commandDeclarations sources name, declared.name = name := by
  intro declared member
  simpa using (List.mem_filter.mp member).2

/-- The groups that sources list an enumerant in, apart from the enumerant itself. -/
def listedGroups (sources : List Records) (name : String) : List String :=
  ((sources.flatMap fun source => source.groupMembers).filter fun member =>
    member.2 = name).map Prod.fst

namespace Registry

/-- What a builder has taken in of a list of sources. -/
def built (api : Api) (sources : List Records) : Builder :=
  sources.foldl Builder.ingest { api }

theorem enumAccount_built (api : Api) (sources : List Records) (name : String)
    : (built api sources).enumAccount name
      = Enumerant.mergeRule.account (enumDeclarations sources name) := by
  rw [enumDeclarations, declaredEnums, List.filter_flatMap, MergeRule.account,
    List.foldl_flatMap]
  refine (List.foldl_hom (Builder.enumAccount name) fun builder source => ?_).symm
  exact (Builder.enumAccount_ingest name builder source).symm

theorem commandAccount_built (api : Api) (sources : List Records) (name : String)
    : (built api sources).commandAccount name
      = Command.mergeRule.account (commandDeclarations sources name) := by
  rw [commandDeclarations, declaredCommands, List.filter_flatMap, MergeRule.account,
    List.foldl_flatMap]
  refine (List.foldl_hom (Builder.commandAccount name) fun builder source => ?_).symm
  exact (Builder.commandAccount_ingest name builder source).symm

theorem enumNames_built (api : Api) (sources : List Records)
    : (built api sources).enums.names
      = ((declaredEnums sources).map Enumerant.name).eraseDups := by
  rw [declaredEnums, List.map_flatMap, ← foldl_addNew, List.foldl_flatMap]
  refine (List.foldl_hom (fun builder : Builder => builder.enums.names)
    fun builder source => ?_).symm
  exact (Builder.enumNames_ingest builder source).symm

theorem commandNames_built (api : Api) (sources : List Records)
    : (built api sources).commands.names
      = ((declaredCommands sources).map Command.name).eraseDups := by
  rw [declaredCommands, List.map_flatMap, ← foldl_addNew, List.foldl_flatMap]
  refine (List.foldl_hom (fun builder : Builder => builder.commands.names)
    fun builder source => ?_).symm
  exact (Builder.commandNames_ingest builder source).symm

/-- The members that sources list, by induction on the sources for any builder before them. -/
theorem groupMembers_built (api : Api) (sources : List Records)
    : (built api sources).groupMembers = sources.flatMap fun source => source.groupMembers := by
  have behind (builder : Builder)
      : (sources.foldl Builder.ingest builder).groupMembers
        = builder.groupMembers ++ sources.flatMap fun source => source.groupMembers := by
    induction sources generalizing builder with
    | nil => simp
    | cons source rest ih =>
        rw [List.foldl_cons, ih, Builder.groupMembers_ingest, List.flatMap_cons,
          List.append_assoc]
  exact behind _

/-- The end of merging puts every enumerant into the groups that list it. -/
theorem enums_ofRecords (api : Api) (sources : List Records)
    : (ofRecords api sources).enums
      = (built api sources).enums.map fun name enumerant =>
          enumerant.addGroups (listedGroups sources name) := by
  refine (Table.foldl_modify (built api sources).groupMembers Prod.snd
    (fun member enumerant => enumerant.addGroup member.1) (built api sources).enums).trans ?_
  simp only [groupMembers_built, listedGroups, Enumerant.addGroups, List.foldl_map]

theorem enumNames_ofRecords (api : Api) (sources : List Records)
    : (ofRecords api sources).enums.names = (built api sources).enums.names := by
  rw [enums_ofRecords, Table.names_map]

/-- The enumerant of a registry is what its declarations make, in the groups that list it. -/
theorem find?_enums (api : Api) (sources : List Records) (name : String)
    : (ofRecords api sources).enums.find? name
      = (Enumerant.mergeRule.account (enumDeclarations sources name)).entry.map
          fun enumerant => enumerant.addGroups (listedGroups sources name) := by
  rw [enums_ofRecords, Table.find?_map, ← enumAccount_built api]
  rfl

/-- The command of a registry is what its declarations make. -/
theorem find?_commands (api : Api) (sources : List Records) (name : String)
    : (ofRecords api sources).commands.find? name
      = (Command.mergeRule.account (commandDeclarations sources name)).entry := by
  rw [← commandAccount_built api]
  rfl

/-- The conflicts about an enumerant are those between its declarations. -/
theorem filter_enumConflicts (api : Api) (sources : List Records) (name : String)
    : (ofRecords api sources).conflicts.filter (Conflict.isAbout .enumerant name)
      = (Enumerant.mergeRule.account (enumDeclarations sources name)).conflicts := by
  rw [← enumAccount_built api]
  rfl

/-- The conflicts about a command are those between its declarations. -/
theorem filter_commandConflicts (api : Api) (sources : List Records) (name : String)
    : (ofRecords api sources).conflicts.filter (Conflict.isAbout .command name)
      = (Command.mergeRule.account (commandDeclarations sources name)).conflicts := by
  rw [← commandAccount_built api]
  rfl

end Registry

end ApiBindings
