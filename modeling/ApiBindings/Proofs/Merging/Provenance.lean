import ApiBindings.Proofs.Merging.Precedence

/-! Where the two sides of a conflict come from.
The new side is the declaration that brings the conflict. The other side is the entry of that
moment, which says what the canonical declaration said and for its origin. Its source is another
matter: a feature that agrees with the entry gives it the origin and not the source. Later conflicts
then show the feature with the source of the first declaration, which nobody may have declared.
-/

namespace ApiBindings

/-- What a side of a conflict shows: what was said, and the text of the origin and the source. -/
def Declaration.shown (declaration : Declaration) : Content × String :=
  (declaration.declared.content, declaration.origin)

/-- The text for an origin and a source. -/
def Origin.label (origin : Origin) (source : String) : String :=
  origin.text ++ " (" ++ source ++ ")"

/-- A rule whose entries keep their source as long as declarations agree, and whose declarations
show origin and source.
-/
structure SourcedRule (α : Type) extends MergeRule α where
  source : α → String
  shown_declaration
    : ∀ symbol,
        (declaration symbol).shown
        = (toMergedKind.content symbol, (origin symbol).label (source symbol))
  source_merge
    : ∀ old new,
        source (merge old new)
        = if toMergedKind.content old = toMergedKind.content new then
            source old
          else
            source (toMergedKind.winner old new)

@[simp] theorem Enumerant.source_addGroups (enumerant : Enumerant) (groups : List String)
    : (enumerant.addGroups groups).source = enumerant.source := by
  rw [addGroups_eq]

def Enumerant.sourcedRule : SourcedRule Enumerant where
  toMergeRule := mergeRule
  source := Enumerant.source
  shown_declaration := fun _ => rfl
  source_merge := by
    intro old new
    simp only [mergeRule, MergedKind.content, MergedKind.winner, declaration, Declared.content,
      Content.bits.injEq]
    unfold merge
    by_cases same : old.value.bits = new.value.bits
    · simp [agrees, same]
    · by_cases wins : old.origin.yieldsTo new.origin = true <;> simp [agrees, same, wins]

def Command.sourcedRule : SourcedRule Command where
  toMergeRule := mergeRule
  source := Command.source
  shown_declaration := fun _ => rfl
  source_merge := by
    intro old new
    simp only [mergeRule, MergedKind.content, MergedKind.winner, declaration, Declared.content,
      Content.signature.injEq]
    unfold merge
    by_cases same : old.signature = new.signature
    · simp [agrees, same]
    · by_cases wins : old.origin.yieldsTo new.origin = true <;> simp [agrees, same, wins]

-----------------------------------------------------------------------------------------
-- The moment of a conflict
-----------------------------------------------------------------------------------------

namespace MergeRule

variable {α : Type} (rule : MergeRule α)

/-- A conflict that has been reported stays, by induction on what is declared behind it. -/
theorem mem_conflicts_foldl {conflict : Conflict} {account : Account α}
    (reported : conflict ∈ account.conflicts) (declarations : List α)
    : conflict ∈ (declarations.foldl rule.declare account).conflicts := by
  induction declarations generalizing account with
  | nil => exact reported
  | cons next rest ih => exact ih (List.mem_append_left _ reported)

/-- Every conflict was brought by a declaration that met the entry of its moment. By induction on
the declarations from the back.
-/
theorem mem_conflicts_iff {conflict : Conflict} {declarations : List α}
    : conflict ∈ (rule.account declarations).conflicts
      ↔ ∃ front new back old,
          declarations = front ++ new :: back
          ∧ (rule.account front).entry = some old
          ∧ rule.conflict? old new = some conflict := by
  constructor
  · induction declarations using List.reverseRecOn with
    | nil => exact fun member => absurd member List.not_mem_nil
    | append_singleton front last ih =>
        intro member
        rw [account_concat] at member
        rcases List.mem_append.mp member with earlier | brought
        · obtain ⟨before, new, back, old, shape, entry, clash⟩ := ih earlier
          exact ⟨before, new, back ++ [last], old, by simp [shape], entry, clash⟩
        · rw [Option.mem_toList, Option.bind_eq_some_iff] at brought
          obtain ⟨old, entry, clash⟩ := brought
          exact ⟨front, last, [], old, rfl, entry, clash⟩
  · rintro ⟨front, new, back, old, rfl, entry, clash⟩
    rw [account, List.foldl_append, List.foldl_cons]
    refine rule.mem_conflicts_foldl (List.mem_append_right _ ?_) back
    rw [← account, entry, Option.bind_some, clash]
    exact List.mem_singleton_self _

end MergeRule

-----------------------------------------------------------------------------------------
-- What the entry of a moment shows
-----------------------------------------------------------------------------------------

namespace SourcedRule

variable {α : Type} (rule : SourcedRule α)

/-- What a conflict shows of a symbol. -/
def shown (symbol : α) : Content × String :=
  (rule.declaration symbol).shown

/-- An entry shows the content and the origin of the declaration that stands. The source is that of
the first declaration if the two agree.
-/
structure Shows (first standing entry : α) : Prop where
  stance : rule.stance entry = rule.stance standing
  source
    : rule.source entry
      = if rule.content first = rule.content standing then
          rule.source first
        else
          rule.source standing

variable {rule}

theorem Shows.merge {first standing entry new : α} (shows : rule.Shows first standing entry)
    (early : (rule.origin standing).isFeature = false → standing = first)
    : rule.Shows first (rule.winner standing new) (rule.merge entry new) where
  stance := (rule.stance_merge entry new).trans (rule.stance_winner shows.stance new)
  source := by
    obtain ⟨content, origin⟩ := Prod.mk.inj shows.stance
    rw [rule.source_merge, content, MergedKind.winner, MergedKind.winner, origin]
    cases wins : (rule.origin standing).yieldsTo (rule.origin new) with
    | false => simp [shows.source]
    | true =>
        have noFeature : (rule.origin standing).isFeature = false := by
          simp only [Origin.yieldsTo, Bool.and_eq_true, Bool.not_eq_true'] at wins
          exact wins.2
        obtain rfl := early noFeature
        simp [shows.source]

/-- By induction on the declarations behind the first one, from the back. -/
theorem exists_shows (rule : SourcedRule α) (first : α) (rest : List α)
    : ∃ standing entry,
        canonical? rule.origin (first :: rest) = some standing
        ∧ (rule.account (first :: rest)).entry = some entry
        ∧ rule.Shows first standing entry := by
  induction rest using List.reverseRecOn with
  | nil =>
      refine ⟨first, first, ?_, rfl, rfl, by simp⟩
      cases isFeature : (rule.origin first).isFeature <;> simp [canonical?, isFeature]
  | append_singleton rest last ih =>
      obtain ⟨standing, entry, canonical, found, shows⟩ := ih
      refine ⟨rule.winner standing last, rule.merge entry last, ?_, ?_,
        shows.merge (eq_first_of_canonical? canonical)⟩
      · rw [← List.cons_append, rule.canonical?_concat, canonical]
        rfl
      · rw [← List.cons_append, rule.account_concat, MergeRule.declare, found]
        rfl

theorem Shows.shown_eq {first standing entry : α} (shows : rule.Shows first standing entry)
    : rule.shown entry
      = (rule.content standing,
          (rule.origin standing).label
            (if rule.content first = rule.content standing then
              rule.source first
            else
              rule.source standing)) := by
  obtain ⟨content, origin⟩ := Prod.mk.inj shows.stance
  rw [shown, rule.shown_declaration, content, origin, shows.source]

/-- If it also has the source of the declaration that stands, then it shows that declaration. -/
theorem Shows.shown_standing {first standing entry : α} (shows : rule.Shows first standing entry)
    (own : rule.source entry = rule.source standing)
    : rule.shown standing = rule.shown entry := by
  obtain ⟨content, origin⟩ := Prod.mk.inj shows.stance
  rw [shown, shown, rule.shown_declaration, rule.shown_declaration, content, origin, own]

-----------------------------------------------------------------------------------------
-- Sides that were declared
-----------------------------------------------------------------------------------------

/-- A side of a conflict shows what one of the declarations shows. -/
def IsMade (rule : SourcedRule α) (declarations : List α) (side : Declaration) : Prop :=
  ∃ declared ∈ declarations, rule.shown declared = side.shown

/-- Where what is shown of every entry was declared: the first feature does not take over an entry
of another source that it agrees with, or nothing disagrees with it later, or someone declared the
same for this feature in that other source.
-/
def IsTraceable (rule : SourcedRule α) (declarations : List α) : Prop :=
  ∀ first early feature late,
    declarations = first :: early ++ feature :: late
    → (∀ other ∈ first :: early, (rule.origin other).isFeature = false)
    → (rule.origin feature).isFeature = true
    → rule.content first = rule.content feature
    → (∃ other ∈ late, rule.content other ≠ rule.content feature)
    → ∃ declared ∈ declarations,
        rule.shown declared
        = (rule.content feature, (rule.origin feature).label (rule.source first))

theorem exists_conflict (rule : SourcedRule α) {old new : α}
    (differ : rule.content old ≠ rule.content new)
    : ∃ conflict, rule.conflict? old new = some conflict :=
  ⟨_, (rule.conflict?_eq old new).trans (if_neg differ)⟩

/-- The sides of a conflict are the entry and the new declaration, in the one order or the other. -/
theorem sides_of_conflict {old new : α} {conflict : Conflict}
    (clash : rule.conflict? old new = some conflict)
    : rule.content old ≠ rule.content new
      ∧ ((conflict.kept = rule.declaration old ∧ conflict.rejected = rule.declaration new)
        ∨ (conflict.kept = rule.declaration new ∧ conflict.rejected = rule.declaration old)) := by
  rw [rule.conflict?_eq] at clash
  split at clash
  · cases clash
  · rename_i differ
    obtain rfl := Option.some.inj clash
    refine ⟨differ, ?_⟩
    dsimp only [MergedKind.winner, MergedKind.loser]
    split
    · exact Or.inr ⟨rfl, rfl⟩
    · exact Or.inl ⟨rfl, rfl⟩

theorem isMade_declaration {declarations : List α} {symbol : α} (member : symbol ∈ declarations)
    : rule.IsMade declarations (rule.declaration symbol) :=
  ⟨symbol, member, rfl⟩

/-- The entry that a new declaration disagrees with shows something that was declared, if all
declarations are traceable. By cases on whether it has the source of the declaration that stands.
-/
theorem isMade_entry {front back : List α} {new old : α}
    (traceable : rule.IsTraceable (front ++ new :: back))
    (found : (rule.account front).entry = some old)
    (differ : rule.content old ≠ rule.content new)
    : rule.IsMade (front ++ new :: back) (rule.declaration old) := by
  cases front with
  | nil => cases found
  | cons first rest =>
      obtain ⟨standing, entry, canonical, isEntry, shows⟩ := rule.exists_shows first rest
      obtain rfl : entry = old := Option.some.inj (isEntry.symm.trans found)
      by_cases own : rule.source entry = rule.source standing
      · have member : standing ∈ first :: rest ++ new :: back :=
          List.mem_append_left _ (canonical?_mem canonical)
        exact ⟨standing, member, shows.shown_standing own⟩
      · -- Only a feature that has agreed with the first declaration stands with another source.
        have agree : rule.content first = rule.content standing := by
          by_contra differs
          exact own (by rw [shows.source, if_neg differs])
        have notFirst : standing ≠ first := by
          rintro rfl
          exact own (by rw [shows.source, if_pos rfl])
        have isFeature : (rule.origin standing).isFeature = true := by
          by_contra noFeature
          exact notFirst (eq_first_of_canonical? canonical (by simpa using noFeature))
        obtain ⟨before, after, shape, noFeature⟩ :=
          (canonical?_eq_some_feature_iff isFeature).mp canonical
        cases before with
        | nil => exact absurd (List.cons.inj shape).1.symm notFirst
        | cons _ early =>
            obtain ⟨rfl, rfl⟩ := List.cons.inj shape
            have content : rule.content entry = rule.content standing :=
              congrArg Prod.fst shows.stance
            obtain ⟨declared, member, same⟩ :=
              traceable first early standing (after ++ new :: back) (by simp) noFeature
                isFeature agree ⟨new, by simp, content ▸ differ.symm⟩
            refine ⟨declared, member, same.trans (Eq.trans ?_ shows.shown_eq.symm)⟩
            rw [if_pos agree]

/-- Both sides of every conflict about a name were declared exactly if its declarations are
traceable. Only the entry is in question, so both directions look at the moment of the conflict.
-/
theorem made_iff_isTraceable (declarations : List α)
    : (∀ conflict ∈ (rule.account declarations).conflicts,
          rule.IsMade declarations conflict.kept ∧ rule.IsMade declarations conflict.rejected)
      ↔ rule.IsTraceable declarations := by
  constructor
  · rintro made first early feature late rfl before isFeature agree ⟨other, among, differ⟩
    obtain ⟨between, back, rfl⟩ := List.mem_iff_append.mp among
    obtain ⟨standing, entry, canonical, found, shows⟩ :=
      rule.exists_shows first (early ++ feature :: between)
    obtain rfl : feature = standing := Option.some.inj
      (((canonical?_eq_some_feature_iff isFeature).mpr
        ⟨first :: early, between, rfl, before⟩).symm.trans canonical)
    have content : rule.content entry = rule.content feature := congrArg Prod.fst shows.stance
    obtain ⟨conflict, clash⟩ := rule.exists_conflict (content ▸ differ.symm)
    have member
        : conflict
          ∈ (rule.account
              (first :: early ++ feature :: (between ++ other :: back))).conflicts :=
      rule.mem_conflicts_iff.mpr
        ⟨first :: early ++ feature :: between, other, back, entry, by simp, found, clash⟩
    obtain ⟨declared, among, same⟩
        : rule.IsMade (first :: early ++ feature :: (between ++ other :: back))
            (rule.declaration entry) := by
      obtain ⟨kept, rejected⟩ := made conflict member
      rcases (sides_of_conflict clash).2 with ⟨isKept, -⟩ | ⟨-, isRejected⟩
      · exact isKept ▸ kept
      · exact isRejected ▸ rejected
    refine ⟨declared, among, same.trans (shows.shown_eq.trans ?_)⟩
    rw [if_pos agree]
  · intro traceable conflict member
    obtain ⟨front, new, back, old, rfl, found, clash⟩ := rule.mem_conflicts_iff.mp member
    obtain ⟨differ, sides⟩ := sides_of_conflict clash
    have oldMade := isMade_entry traceable found differ
    have newMade : rule.IsMade (front ++ new :: back) (rule.declaration new) :=
      isMade_declaration (by simp)
    rcases sides with ⟨kept, rejected⟩ | ⟨kept, rejected⟩
    · exact ⟨kept ▸ oldMade, rejected ▸ newMade⟩
    · exact ⟨kept ▸ newMade, rejected ▸ oldMade⟩

end SourcedRule

-----------------------------------------------------------------------------------------
-- The conflicts of a registry
-----------------------------------------------------------------------------------------

/-- What sources declared of a symbol, each declaration as conflicts show it. -/
def shownDeclarations (sources : List Records) (name : String)
    : SymbolKind → List (Content × String)
  | .enumerant =>
      (enumDeclarations sources name).map fun enumerant => enumerant.declaration.shown
  | .command => (commandDeclarations sources name).map fun command => command.declaration.shown

/-- Each side of a conflict shows what some declaration of its name said, with the origin and the
source of that declaration.
-/
def Conflict.WasDeclared (conflict : Conflict) (sources : List Records) : Prop :=
  conflict.kept.shown ∈ shownDeclarations sources conflict.name conflict.kind
  ∧ conflict.rejected.shown ∈ shownDeclarations sources conflict.name conflict.kind

instance (conflict : Conflict) (sources : List Records)
    : Decidable (conflict.WasDeclared sources) :=
  inferInstanceAs (Decidable (_ ∧ _))

/-- The conflicts of a registry about a name were declared if those in the account of the name were.
-/
theorem SourcedRule.wasDeclared_iff_isTraceable {α : Type} (rule : SourcedRule α)
    {registry : Registry} {sources : List Records} {name : String} {declarations : List α}
    (shows : shownDeclarations sources name rule.kind = declarations.map rule.shown)
    (conflicts
      : registry.conflicts.filter (Conflict.isAbout rule.kind name)
        = (rule.account declarations).conflicts)
    : (∀ conflict ∈ registry.conflicts,
          conflict.kind = rule.kind → conflict.name = name → conflict.WasDeclared sources)
      ↔ rule.IsTraceable declarations := by
  rw [← made_iff_isTraceable, ← conflicts, Conflict.forall_about_iff]
  refine forall₂_congr fun conflict _ => forall₂_congr fun sameKind sameName => ?_
  rw [Conflict.WasDeclared, sameKind, sameName, shows, List.mem_map, List.mem_map]
  rfl

namespace Registry

/-- Both sides of all conflicts about a name were really declared exactly if the declarations of
the name are traceable.
-/
theorem conflicts_wasDeclared_iff (api : Api) (sources : List Records)
    : let registry := Registry.ofRecords api sources
      (∀ name,
        (∀ conflict ∈ registry.conflicts,
            conflict.kind = .enumerant
            → conflict.name = name
            → conflict.WasDeclared sources)
        ↔ Enumerant.sourcedRule.IsTraceable (enumDeclarations sources name))
      ∧ ∀ name,
          (∀ conflict ∈ registry.conflicts,
              conflict.kind = .command
              → conflict.name = name
              → conflict.WasDeclared sources)
          ↔ Command.sourcedRule.IsTraceable (commandDeclarations sources name) := by
  refine ⟨fun name => ?_, fun name => ?_⟩
  · exact Enumerant.sourcedRule.wasDeclared_iff_isTraceable rfl
      (filter_enumConflicts api sources name)
  · exact Command.sourcedRule.wasDeclared_iff_isTraceable rfl
      (filter_commandConflicts api sources name)

/-- An extension, a feature that agrees with it, and an extension that disagrees with both. -/
def agreeingFeature : List Records :=
  [
    { source := "x1", enums := [.declare "FOO" (.ofBits 1) (.extension "X1") "x1"] },
    {
      source := "core"
      enums := [.declare "FOO" (.ofBits 1) (.feature "gl" "GL_VERSION_1_0" ⟨1, 0⟩) "core"]
    },
    { source := "x2", enums := [.declare "FOO" (.ofBits 2) (.extension "X2") "x2"] }
  ]

/-- The conflict shows the feature with the source of the first extension. -/
theorem agreeingFeature_not_declared
    : ¬ ∀ conflict ∈ (Registry.ofRecords .gl agreeingFeature).conflicts,
          conflict.WasDeclared agreeingFeature := by
  decide

end Registry

end ApiBindings
