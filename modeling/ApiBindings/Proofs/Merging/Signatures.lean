import ApiBindings.Proofs.Merging.Accounts
import ApiBindings.Proofs.Reading.ParameterTypes

/-! What the signature of a command says.
The commas in a type stand inside of its brackets, so the types that a signature joins with commas
are found again by cutting it outside of all brackets. Commands that agree have the same types
therefore, and merging them pairs each parameter with the one at its place.
-/

namespace ApiBindings

open Text

-----------------------------------------------------------------------------------------
-- Signatures
-----------------------------------------------------------------------------------------

/-- Items that make the same list are the same. -/
theorem eq_of_intercalate_eq {first second : List (List Char)}
    (items : ∀ text ∈ first, IsItem text) (items' : ∀ text ∈ second, IsItem text)
    (same : ", ".toList.intercalate first = ", ".toList.intercalate second)
    : first = second := by
  have pieces {texts : List (List Char)} (items : ∀ text ∈ texts, IsItem text)
      : ∀ text ∈ texts, IsPiece ',' 0 text := fun text member =>
    (items text member).uncut.isPiece (items text member).closed
  have nothing : cutOutside ',' 0 (", ".toList.intercalate []) = [[]] := rfl
  have cut := congrArg (cutOutside ',' 0) same
  cases first with
  | nil =>
      cases second with
      | nil => rfl
      | cons b bs =>
          rw [nothing, cutOutside_intercalate (pieces items')] at cut
          exact absurd (List.cons.inj cut).1.symm (items' b List.mem_cons_self).nonempty
  | cons a as =>
      cases second with
      | nil =>
          rw [nothing, cutOutside_intercalate (pieces items)] at cut
          exact absurd (List.cons.inj cut).1 (items a List.mem_cons_self).nonempty
      | cons b bs =>
          rw [cutOutside_intercalate (pieces items), cutOutside_intercalate (pieces items')] at cut
          obtain ⟨rfl, others⟩ := List.cons.inj cut
          have spaced : Function.Injective (fun text : List Char => ' ' :: text) :=
            List.cons_injective
          rw [List.map_injective_iff.mpr spaced others]

namespace Command

variable {a b : Command}

/-- The types of a command say where they end: no parenthesis is part of the return type, and the
types of the parameters can be listed.
-/
structure IsTyped (command : Command) : Prop where
  returns : '(' ∉ command.returns.toList
  params : ∀ param ∈ command.params, IsItem param.type.toList

theorem toList_signature (command : Command)
    : command.signature.toList
      = command.returns.toList ++ [' ']
        ++ '(' :: (", ".toList.intercalate (command.params.map fun param => param.type.toList)
          ++ [')']) := by
  simp [signature, String.toList_intercalate, Function.comp_def]

/-- What stands in front of the first parenthesis and what stands behind it. -/
theorem eq_of_append_cons_eq {front front' back back' : List Char} (absent : '(' ∉ front)
    (absent' : '(' ∉ front') (same : front ++ '(' :: back = front' ++ '(' :: back')
    : front = front' ∧ back = back' := by
  have cut := congrArg (List.takeWhile (· != '(')) same
  rw [List.takeWhile_append_of_pos (bne_of_not_mem absent),
    List.takeWhile_append_of_pos (bne_of_not_mem absent')] at cut
  obtain rfl : front = front' := by simpa using cut
  exact ⟨rfl, (List.cons.inj (List.append_cancel_left same)).2⟩

theorem signature_eq_iff_of_isTyped (typed : a.IsTyped) (typed' : b.IsTyped)
    : a.signature = b.signature
      ↔ a.returns = b.returns ∧ a.params.map Param.type = b.params.map Param.type := by
  have front {command : Command} (typed : command.IsTyped)
      : '(' ∉ command.returns.toList ++ [' '] :=
    List.not_mem_append typed.returns (by decide)
  have items {command : Command} (typed : command.IsTyped)
      : ∀ text ∈ command.params.map fun param => param.type.toList, IsItem text :=
    List.forall_mem_map.mpr typed.params
  constructor
  · intro same
    rw [← String.toList_inj, toList_signature, toList_signature] at same
    obtain ⟨returns, params⟩ := eq_of_append_cons_eq (front typed) (front typed') same
    refine ⟨String.toList_inj.mp (List.append_cancel_right returns), ?_⟩
    have types :=
      eq_of_intercalate_eq (items typed) (items typed') (List.append_cancel_right params)
    have whole (params : List Param)
        : (params.map fun param => param.type.toList)
          = (params.map Param.type).map String.toList := by
      rw [List.map_map]
      rfl
    rw [whole, whole] at types
    exact List.map_injective_iff.mpr (fun _ _ => String.toList_inj.mp) types
  · rintro ⟨returns, params⟩
    rw [signature, signature, returns, params]

/-- Merging keeps the types of one of the commands. -/
theorem IsTyped.merge (typed : a.IsTyped) (typed' : b.IsTyped) : (a.merge b).IsTyped := by
  unfold Command.merge
  split
  · refine ⟨typed.returns, fun param member => ?_⟩
    have type : param.type ∈ (mergeParams a.params b.params).map Param.type :=
      List.mem_map_of_mem member
    rw [type_mergeParams] at type
    obtain ⟨old, isOld, same⟩ := List.mem_map.mp type
    rw [← same]
    exact typed.params old isOld
  · split
    · exact typed'
    · exact typed

end Command

-----------------------------------------------------------------------------------------
-- Types
-----------------------------------------------------------------------------------------

/-- Signatures tell types apart. -/
structure SignaturesTellTypes : Prop where
  /-- Commands whose types say where they end have the same signature exactly if they have the same
  types.
  -/
  signature_eq_iff
    : ∀ {a b : Command},
        a.IsTyped
        → b.IsTyped
        → (a.signature = b.signature
          ↔ a.returns = b.returns ∧ a.params.map Param.type = b.params.map Param.type)
  /-- So a declaration that agrees with the entry that those before it have made has as many
  parameters, of the same types.
  -/
  paired
    : ∀ {sources name front new back old},
        (∀ command ∈ declaredCommands sources, command.IsTyped)
        → commandDeclarations sources name = front ++ new :: back
        → (Command.mergeRule.account front).entry = some old
        → old.agrees new = true
        → old.params.length = new.params.length
          ∧ old.params.map Param.type = new.params.map Param.type
  /-- The parameters of a header have such types, if the brackets between the parentheses of their
  prototype are nested.
  -/
  read
    : ∀ {text params},
        IsNested text
        → Header.readParams text = .ok params
        → ∀ param ∈ params, IsItem param.type.toList

theorem signatures_tellTypes : SignaturesTellTypes where
  signature_eq_iff := Command.signature_eq_iff_of_isTyped
  paired := by
    intro sources name front new back old typed declared entry agrees
    have each : ∀ command ∈ front ++ new :: back, command.IsTyped := fun command member =>
      typed command (List.mem_filter.mp (declared ▸ member)).1
    have isNew := each new (by simp)
    have isOld : old.IsTyped :=
      Command.mergeRule.entry_of_merge Command.IsTyped Command.IsTyped.merge
        (fun command member => each command (List.mem_append_left _ member)) entry
    have types := ((Command.signature_eq_iff_of_isTyped isOld isNew).mp (beq_iff_eq.mp agrees)).2
    exact ⟨by simpa using congrArg List.length types, types⟩
  read := Header.isItem_of_mem_readParams

/-- A source that declares how debug messages are handled, with the group that it names. -/
def callbackSource (source : String) (group : Option String) : Records where
  source := source
  commands :=
    [Command.declare "glDebugMessageCallback" "void"
      [
        Param.declare "callback" "void (*)(GLenum source, GLenum type)",
        { Param.declare "kind" "GLenum" with group := group }
      ] (.extension "GL_KHR_debug") source]

/-- The comma in the type of a function does not count as one between parameters. -/
theorem callbackSources_paired
    : let sources := [callbackSource "a" none, callbackSource "b" (some "DebugType")]
      ∃ old new,
        (∀ command ∈ declaredCommands sources, command.IsTyped)
        ∧ commandDeclarations sources "glDebugMessageCallback" = [old] ++ new :: []
        ∧ (Command.mergeRule.account [old]).entry = some old
        ∧ old.agrees new = true
        ∧ old.params.length = new.params.length
        ∧ old.params.map Param.type = new.params.map Param.type := by
  intro sources
  have typed : ∀ command ∈ declaredCommands sources, command.IsTyped := by
    have isFunction : IsItem "void (*)(GLenum source, GLenum type)".toList :=
      IsNested.isItem (by decide +kernel) (by decide +kernel) (by decide +kernel)
    have isNumber : IsItem "GLenum".toList :=
      IsNested.isItem (by decide +kernel) (by decide +kernel) (by decide +kernel)
    have noParenthesis : '(' ∉ "void".toList := by decide
    have one (group : Option String) (source : String)
        : ∀ command ∈ (callbackSource source group).commands, command.IsTyped :=
      List.forall_mem_singleton.mpr
        ⟨noParenthesis,
          List.forall_mem_cons.mpr ⟨isFunction, List.forall_mem_singleton.mpr isNumber⟩⟩
    exact List.forall_mem_flatMap.mpr
      (List.forall_mem_cons.mpr ⟨one none "a", List.forall_mem_singleton.mpr (one _ "b")⟩)
  have declared
      : commandDeclarations sources "glDebugMessageCallback"
        = (callbackSource "a" none).commands
          ++ (callbackSource "b" (some "DebugType")).commands := by
    decide +kernel
  exact ⟨_, _, typed, declared, rfl, by decide +kernel,
    signatures_tellTypes.paired typed declared rfl (by decide +kernel)⟩

/-- A comma outside of brackets, which no such type has, would be taken for one. -/
example
    : (Command.declare "f" "int" [Param.declare "x" "int, int"] .unattributed "a").signature =
        (Command.declare "f" "int" [Param.declare "x" "int", Param.declare "y" "int"]
          .unattributed "a").signature := by
  decide +kernel

end ApiBindings
