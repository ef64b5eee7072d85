import ApiBindings.Proofs.Merging.Accounts

/-! Which declaration of a name stands in the end: the first one by a feature, or else the first.
The invariant is on accounts. After any declarations the entry says what the canonical one of them
said, for the same origin, and one more declaration changes both in the same way.
-/

namespace ApiBindings

/-- The declaration that is to stand: the first one by a feature, or else the first one. -/
def canonical? {α : Type} (origin : α → Origin) (declarations : List α) : Option α :=
  (declarations.find? fun declaration => (origin declaration).isFeature).or
    declarations.head?

/-- The first of the declarations stands until a feature comes. -/
theorem canonical?_of_none {α : Type} {origin : α → Origin} {declarations : List α}
    (none : declarations.find? (fun declaration => (origin declaration).isFeature) = none)
    : canonical? origin declarations = declarations.head? := by
  rw [canonical?, none, Option.none_or]

theorem canonical?_mem {α : Type} {origin : α → Origin} {declarations : List α} {found : α}
    (canonical : canonical? origin declarations = some found)
    : found ∈ declarations := by
  rcases Option.or_eq_some_iff.mp canonical with feature | ⟨_, first⟩
  · exact List.mem_of_find?_eq_some feature
  · exact List.mem_of_head? first

/-- As long as no feature stands, the first declaration does. -/
theorem eq_first_of_canonical? {α : Type} {origin : α → Origin} {first standing : α}
    {rest : List α} (canonical : canonical? origin (first :: rest) = some standing)
    (noFeature : (origin standing).isFeature = false)
    : standing = first := by
  rcases Option.or_eq_some_iff.mp canonical with feature | ⟨-, isFirst⟩
  · exact absurd (List.find?_some feature) (by simp [noFeature])
  · exact (Option.some.inj isFirst).symm

/-- A feature that stands is the first one. -/
theorem canonical?_eq_some_feature_iff {α : Type} {origin : α → Origin} {declarations : List α}
    {feature : α} (isFeature : (origin feature).isFeature = true)
    : canonical? origin declarations = some feature
      ↔ ∃ before after,
          declarations = before ++ feature :: after
          ∧ ∀ other ∈ before, (origin other).isFeature = false := by
  have first
      : canonical? origin declarations = some feature
        ↔ (declarations.find? fun declared => (origin declared).isFeature) = some feature := by
    rw [canonical?, Option.or_eq_some_iff, or_iff_left_iff_imp]
    rintro ⟨none, isFirst⟩
    exact absurd isFeature (List.find?_eq_none.mp none feature (List.mem_of_head? isFirst))
  rw [first, List.find?_eq_some_iff_append]
  simp [isFeature]

namespace MergeRule

variable {α : Type} (rule : MergeRule α)

/-- What a symbol says and for which origin; precedence is about nothing else. -/
def stance (symbol : α) : Content × Origin :=
  (rule.content symbol, rule.origin symbol)

theorem stance_merge (old new : α)
    : rule.stance (rule.merge old new) = rule.stance (rule.winner old new) :=
  Prod.ext (rule.content_merge old new) (rule.origin_merge old new)

/-- Who wins against a symbol depends on the symbol's stance alone. -/
theorem stance_winner {old other : α} (same : rule.stance old = rule.stance other) (new : α)
    : rule.stance (rule.winner old new) = rule.stance (rule.winner other new) := by
  have origins : rule.origin old = rule.origin other := congrArg Prod.snd same
  unfold MergedKind.winner
  rw [origins]
  split
  · rfl
  · exact same

/-- One more declaration is canonical exactly if it wins against the canonical one before. -/
theorem canonical?_concat (front : List α) (last : α)
    : canonical? rule.origin (front ++ [last])
      = some ((canonical? rule.origin front).elim last fun old => rule.winner old last) := by
  cases first : front.find? fun declaration => (rule.origin declaration).isFeature with
  | some feature =>
      have isFeature := List.find?_some first
      simp [canonical?, first, MergedKind.winner, Origin.yieldsTo, isFeature]
  | none =>
      cases front with
      | nil => cases h : (rule.origin last).isFeature <;> simp [canonical?, h]
      | cons head rest =>
          have other : (rule.origin head).isFeature = false := by
            simpa using List.find?_eq_none.mp first head List.mem_cons_self
          rw [canonical?_of_none first, canonical?, List.find?_append, first]
          cases h : (rule.origin last).isFeature
          · simp [MergedKind.winner, Origin.yieldsTo, h]
          · simp [MergedKind.winner, Origin.yieldsTo, h, other]

/-- The entry of a name has the stance of the canonical declaration. By induction on the
declarations from the back.
-/
theorem stance_entry (declarations : List α)
    : (rule.account declarations).entry.map rule.stance
      = (canonical? rule.origin declarations).map rule.stance := by
  induction declarations using List.reverseRecOn with
  | nil => rfl
  | append_singleton front last ih =>
      rw [account_concat, canonical?_concat, declare]
      cases entry : (rule.account front).entry with
      | none =>
          rw [entry, Option.map_none, eq_comm, Option.map_eq_none_iff] at ih
          rw [ih]
          rfl
      | some old =>
          rw [entry, Option.map_some, eq_comm, Option.map_eq_some_iff] at ih
          obtain ⟨canonical, found, same⟩ := ih
          rw [found]
          simp only [Option.elim_some, Option.map_some, Option.some.injEq]
          rw [rule.stance_merge]
          exact rule.stance_winner same.symm last

/-- Both the name and the stance of an entry are those of the canonical declaration. -/
theorem entry_canonical {name : String} {declarations : List α}
    (named : ∀ declaration ∈ declarations, rule.name declaration = name)
    : (rule.account declarations).entry.map
          (fun symbol => (rule.name symbol, rule.stance symbol))
      = (canonical? rule.origin declarations).map
          fun symbol => (rule.name symbol, rule.stance symbol) := by
  have stances := rule.stance_entry declarations
  cases entry : (rule.account declarations).entry with
  | none =>
      rw [entry, Option.map_none, eq_comm, Option.map_eq_none_iff] at stances
      rw [stances]
  | some old =>
      rw [entry, Option.map_some, eq_comm, Option.map_eq_some_iff] at stances
      obtain ⟨canonical, found, same⟩ := stances
      have sameName : rule.name canonical = rule.name old :=
        (named canonical (canonical?_mem found)).trans (rule.name_entry named entry).symm
      rw [found, Option.map_some, Option.map_some, same, sameName]

end MergeRule

-----------------------------------------------------------------------------------------
-- Precedence in a registry
-----------------------------------------------------------------------------------------

/-- An equation of views carries over to whatever the views decide. -/
theorem map_eq_map_of {α ν μ : Type} {view : α → ν} {decided : α → μ}
    (decides : ∀ {left right}, view left = view right → decided left = decided right)
    {left right : Option α} (same : left.map view = right.map view)
    : left.map decided = right.map decided := by
  cases left with
  | none =>
      rw [Option.map_none, eq_comm, Option.map_eq_none_iff] at same
      rw [same]
  | some value =>
      rw [Option.map_some, eq_comm, Option.map_eq_some_iff] at same
      obtain ⟨other, rfl, equal⟩ := same
      exact congrArg some (decides equal.symm)

/-- Every declared name is in its table once, in the order of the first declarations. What it
stands for is what the first feature that declares it says, or else what its first declaration
says, and the origin is that declaration's.
-/
theorem Registry.merge_precedence (api : Api) (sources : List Records)
    : let registry := Registry.ofRecords api sources
      registry.enums.names = ((declaredEnums sources).map Enumerant.name).eraseDups
      ∧ registry.commands.names = ((declaredCommands sources).map Command.name).eraseDups
      ∧ (∀ name,
          (registry.enums.find? name).map
              (fun enumerant => (enumerant.name, enumerant.value.bits, enumerant.origin))
          = (canonical? Enumerant.origin (enumDeclarations sources name)).map
              fun enumerant => (enumerant.name, enumerant.value.bits, enumerant.origin))
      ∧ ∀ name,
          (registry.commands.find? name).map
              (fun command => (command.name, command.signature, command.origin))
          = (canonical? Command.origin (commandDeclarations sources name)).map
              fun command => (command.name, command.signature, command.origin) := by
  intro registry
  refine ⟨?_, commandNames_built api sources, ?_, ?_⟩
  · exact (enumNames_ofRecords api sources).trans (enumNames_built api sources)
  · intro name
    have canonical :=
      Enumerant.mergeRule.entry_canonical (name_of_mem_enumDeclarations sources name)
    simp only [registry, find?_enums, Option.map_map, Function.comp_def,
      Enumerant.name_addGroups, Enumerant.value_addGroups, Enumerant.origin_addGroups]
    refine map_eq_map_of (fun same => ?_) canonical
    obtain ⟨sameName, sameStance⟩ := Prod.mk.inj same
    obtain ⟨sameContent, sameOrigin⟩ := Prod.mk.inj sameStance
    exact Prod.ext sameName (Prod.ext (Content.bits.inj sameContent) sameOrigin)
  · intro name
    have canonical :=
      Command.mergeRule.entry_canonical (name_of_mem_commandDeclarations sources name)
    simp only [registry, find?_commands]
    refine map_eq_map_of (fun same => ?_) canonical
    obtain ⟨sameName, sameStance⟩ := Prod.mk.inj same
    obtain ⟨sameContent, sameOrigin⟩ := Prod.mk.inj sameStance
    exact Prod.ext sameName (Prod.ext (Content.signature.inj sameContent) sameOrigin)

end ApiBindings
