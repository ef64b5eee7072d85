import ApiBindings.Proofs.Merging.Precedence

/-! Which conflicts about a name are reported, and which of them name what stands in the end.
While a declaration stands, all that disagree with it are reported against it. The first feature
takes the place of whatever stood before it, and nothing takes the place of that feature. A report
from before the feature is not corrected when it comes.
-/

namespace ApiBindings

/-- What the two sides of a conflict declared, and whether their origins settle it. -/
structure Sides where
  kept : Content
  rejected : Content
  settlement : Settlement
  deriving DecidableEq

def Conflict.sides (conflict : Conflict) : Sides where
  kept := conflict.kept.declared.content
  rejected := conflict.rejected.declared.content
  settlement := conflict.settlement

/-- Which of two origins came first does not matter for whether they settle a conflict. -/
theorem Settlement.between_comm (old new : Origin)
    : Settlement.between old new = Settlement.between new old := by
  unfold between
  rw [bne_comm]

namespace MergeRule

variable {α : Type} (rule : MergeRule α)

-----------------------------------------------------------------------------------------
-- Reports against a declaration that stands
-----------------------------------------------------------------------------------------

/-- The reports of those declarations that disagree with the one that stands. -/
def clashes (standing : α) (others : List α) : List Sides :=
  (others.filter fun other => rule.content other ≠ rule.content standing).map fun other => {
    kept := rule.content standing
    rejected := rule.content other
    settlement := .between (rule.origin standing) (rule.origin other)
  }

theorem clashes_append (standing : α) (front back : List α)
    : rule.clashes standing (front ++ back)
      = rule.clashes standing front ++ rule.clashes standing back := by
  simp only [clashes, List.filter_append, List.map_append]

/-- There is no report exactly if all agree with what stands. -/
theorem clashes_eq_nil_iff {standing : α} {others : List α}
    : rule.clashes standing others = []
      ↔ ∀ other ∈ others, rule.content other = rule.content standing := by
  simp [clashes, List.filter_eq_nil_iff]

/-- Every report against what stands has it on one side and something else on the other. -/
theorem sides_of_clash {standing : α} {others : List α} {sides : Sides}
    (member : sides ∈ rule.clashes standing others)
    : sides.kept = rule.content standing ∧ sides.rejected ≠ rule.content standing := by
  obtain ⟨other, filtered, rfl⟩ := List.mem_map.mp member
  exact ⟨rfl, by simpa using (List.mem_filter.mp filtered).2⟩

theorem clashes_singleton (standing other : α)
    : rule.clashes standing [other]
      = if rule.content other = rule.content standing then
          []
        else
          [{
            kept := rule.content standing
            rejected := rule.content other
            settlement := .between (rule.origin standing) (rule.origin other)
          }] := by
  by_cases agree : rule.content other = rule.content standing
  · simp [clashes, agree]
  · simp [clashes, agree]

/-- A report depends on the stances of its two sides alone. -/
theorem clashes_congr {standing other rejected reworded : α}
    (sameStanding : rule.stance standing = rule.stance other)
    (sameRejected : rule.stance rejected = rule.stance reworded)
    : rule.clashes standing [rejected] = rule.clashes other [reworded] := by
  obtain ⟨standingContent, standingOrigin⟩ := Prod.mk.inj sameStanding
  obtain ⟨rejectedContent, rejectedOrigin⟩ := Prod.mk.inj sameRejected
  rw [clashes_singleton, clashes_singleton, standingContent, standingOrigin, rejectedContent,
    rejectedOrigin]

theorem stance_loser {old other : α} (same : rule.stance old = rule.stance other) (new : α)
    : rule.stance (rule.loser old new) = rule.stance (rule.loser other new) := by
  have origins : rule.origin old = rule.origin other := congrArg Prod.snd same
  unfold MergedKind.loser
  rw [origins]
  split
  · exact same
  · rfl

/-- The conflict that a declaration brings is the report of the loser against the winner. -/
theorem sides_conflict? (old new : α)
    : (rule.conflict? old new).toList.map Conflict.sides
      = rule.clashes (rule.winner old new) [rule.loser old new] := by
  rw [rule.conflict?_eq, clashes_singleton]
  by_cases agree : rule.content old = rule.content new
  · have sameSides : rule.content (rule.loser old new) = rule.content (rule.winner old new) := by
      unfold MergedKind.loser MergedKind.winner
      split
      · exact agree
      · exact agree.symm
    rw [if_pos agree, if_pos sameSides]
    rfl
  · rw [if_neg agree]
    unfold MergedKind.loser MergedKind.winner
    split
    · rw [Settlement.between_comm]
      rfl
    · rw [if_neg (Ne.symm agree)]
      rfl

/-- An account in which one declaration stands, with the reports so far. -/
structure Stands (standing : α) (reported : List Sides) (account : Account α) : Prop where
  entry : account.entry.map rule.stance = some (rule.stance standing)
  conflicts : account.conflicts.map Conflict.sides = reported

variable {rule}

/-- The first declaration of a name stands without any report. -/
theorem Stands.first (first : α) : rule.Stands first [] (rule.declare {} first) :=
  ⟨rfl, rfl⟩

/-- Behind one more declaration the winner stands, and the loser is reported if it disagrees. -/
theorem Stands.declare {standing : α} {reported : List Sides} {account : Account α}
    (stands : rule.Stands standing reported account) (new : α)
    : rule.Stands (rule.winner standing new)
        (reported ++ rule.clashes (rule.winner standing new) [rule.loser standing new])
        (rule.declare account new) := by
  obtain ⟨old, found, same⟩ := Option.map_eq_some_iff.mp stands.entry
  constructor
  · rw [MergeRule.declare, found, Option.elim_some, Option.map_some, rule.stance_merge,
      rule.stance_winner same]
  · rw [MergeRule.declare, found, List.map_append, stands.conflicts, Option.bind_some,
      sides_conflict?, rule.clashes_congr (rule.stance_winner same new)
        (rule.stance_loser same new)]

theorem Stands.kept {standing new : α} {reported : List Sides} {account : Account α}
    (stands : rule.Stands standing reported account)
    (wins : (rule.origin standing).yieldsTo (rule.origin new) = false)
    : rule.Stands standing (reported ++ rule.clashes standing [new])
        (rule.declare account new) := by
  have declared := stands.declare new
  simpa only [MergedKind.winner, MergedKind.loser, wins, Bool.false_eq_true, if_false]
    using declared

theorem Stands.replaced {standing new : α} {reported : List Sides} {account : Account α}
    (stands : rule.Stands standing reported account)
    (wins : (rule.origin standing).yieldsTo (rule.origin new) = true)
    : rule.Stands new (reported ++ rule.clashes new [standing])
        (rule.declare account new) := by
  have declared := stands.declare new
  simpa only [MergedKind.winner, MergedKind.loser, wins, if_true] using declared

/-- Nothing wins for a while: what disagrees is reported. By induction on the declarations. -/
theorem Stands.foldl_kept {standing : α} {others : List α}
    (wins
      : ∀ other ∈ others, (rule.origin standing).yieldsTo (rule.origin other) = false)
    {reported : List Sides} {account : Account α}
    (stands : rule.Stands standing reported account)
    : rule.Stands standing (reported ++ rule.clashes standing others)
        (others.foldl rule.declare account) := by
  induction others generalizing reported account with
  | nil => simpa [clashes] using stands
  | cons next rest ih =>
      have later := ih (fun other member => wins other (List.mem_cons_of_mem _ member))
        (stands.kept (wins next List.mem_cons_self))
      rwa [List.append_assoc, ← clashes_append] at later

-----------------------------------------------------------------------------------------
-- All reports about a name
-----------------------------------------------------------------------------------------

/-- Declarations none of which is by a feature are reported against the first of them. -/
theorem stands_early {first : α} {rest : List α}
    (early : ∀ other ∈ first :: rest, (rule.origin other).isFeature = false)
    : rule.Stands first (rule.clashes first rest) (rule.account (first :: rest)) := by
  refine (Stands.first first).foldl_kept fun other member => ?_
  simp [Origin.yieldsTo, early other (List.mem_cons_of_mem _ member)]

/-- A feature that comes first is what all other declarations are reported against. -/
theorem stands_feature {feature : α} (isFeature : (rule.origin feature).isFeature)
    (late : List α)
    : rule.Stands feature (rule.clashes feature late) (rule.account (feature :: late)) := by
  refine (Stands.first feature).foldl_kept fun other _ => ?_
  simp [Origin.yieldsTo, isFeature]

/-- Behind a feature that has replaced the first declaration, both that declaration and all later
ones are reported against the feature. What was reported before stays as it is.
-/
theorem stands_late {first : α} {early : List α} {feature : α}
    (before : ∀ other ∈ first :: early, (rule.origin other).isFeature = false)
    (isFeature : (rule.origin feature).isFeature) (late : List α)
    : rule.Stands feature
        (rule.clashes first early ++ rule.clashes feature (first :: late))
        (rule.account (first :: early ++ feature :: late)) := by
  have wins : (rule.origin first).yieldsTo (rule.origin feature) = true := by
    simp [Origin.yieldsTo, isFeature, before first List.mem_cons_self]
  have keeps : ∀ other ∈ late, (rule.origin feature).yieldsTo (rule.origin other) = false := by
    intro other _
    simp [Origin.yieldsTo, isFeature]
  have later := ((stands_early before).replaced wins).foldl_kept keeps
  rw [List.append_assoc, ← clashes_append, List.singleton_append] at later
  simpa only [account, List.foldl_append, List.foldl_cons] using later

-----------------------------------------------------------------------------------------
-- Conflicts that the entry upholds
-----------------------------------------------------------------------------------------

/-- The entry of a name says what a conflict shows as kept, and not what it shows as rejected. -/
def Upholds (rule : MergeRule α) (account : Account α) (sides : Sides) : Prop :=
  account.entry.map rule.content = some sides.kept
  ∧ account.entry.map rule.content ≠ some sides.rejected

/-- Where no conflict about a name is out of date in the end: the first feature that declares it
replaces nothing that differs, or what it replaces had not been reported against before.
-/
def IsSettled (rule : MergeRule α) (declarations : List α) : Prop :=
  ∀ first early feature late,
    declarations = first :: early ++ feature :: late
    → (∀ other ∈ first :: early, (rule.origin other).isFeature = false)
    → (rule.origin feature).isFeature = true
    → rule.content first = rule.content feature
      ∨ ∀ other ∈ early, rule.content other = rule.content first

theorem Stands.upholds_iff {standing : α} {reported : List Sides} {account : Account α}
    (stands : rule.Stands standing reported account) {sides : Sides}
    : rule.Upholds account sides
      ↔ sides.kept = rule.content standing ∧ sides.rejected ≠ rule.content standing := by
  have content : account.entry.map rule.content = some (rule.content standing) := by
    obtain ⟨old, found, same⟩ := Option.map_eq_some_iff.mp stands.entry
    rw [found]
    exact congrArg some (congrArg Prod.fst same)
  rw [Upholds, content, Option.some.injEq, ne_eq, Option.some.injEq, eq_comm,
    eq_comm (b := sides.rejected)]

theorem Stands.sides_mem {standing : α} {reported : List Sides} {account : Account α}
    (stands : rule.Stands standing reported account) {conflict : Conflict}
    (member : conflict ∈ account.conflicts)
    : conflict.sides ∈ reported :=
  stands.conflicts ▸ List.mem_map_of_mem member

/-- All conflicts about a name are upheld in the end exactly if its declarations settle it. By
cases on whether a feature is among them and what comes before the first one.
-/
theorem upholds_iff_isSettled (declarations : List α)
    : (∀ conflict ∈ (rule.account declarations).conflicts,
          rule.Upholds (rule.account declarations) conflict.sides)
      ↔ rule.IsSettled declarations := by
  constructor
  · intro upheld first early feature late shape before isFeature
    subst shape
    have stands := stands_late before isFeature late
    -- Any report from before the feature shows the first declaration as kept, so one is enough.
    rcases (rule.clashes first early).eq_nil_or_concat with none | ⟨front, sides, some⟩
    · exact Or.inr (rule.clashes_eq_nil_iff.mp none)
    · have clash : sides ∈ rule.clashes first early := by simp [some]
      have reported := List.mem_append_left (rule.clashes feature (first :: late)) clash
      rw [← stands.conflicts] at reported
      obtain ⟨conflict, member, rfl⟩ := List.mem_map.mp reported
      have kept := (stands.upholds_iff.mp (upheld conflict member)).1
      exact Or.inl ((rule.sides_of_clash clash).1.symm.trans kept)
  · intro settled conflict member
    cases found : declarations.find? fun other => (rule.origin other).isFeature with
    | none =>
        have early : ∀ other ∈ declarations, (rule.origin other).isFeature = false := by
          simpa using List.find?_eq_none.mp found
        cases declarations with
        | nil => cases member
        | cons first rest =>
            have stands := stands_early early
            exact stands.upholds_iff.mpr (rule.sides_of_clash (stands.sides_mem member))
    | some feature =>
        obtain ⟨isFeature, before, late, rfl, none⟩ :=
          List.find?_eq_some_iff_append.mp found
        cases before with
        | nil =>
            have stands := stands_feature isFeature late
            exact stands.upholds_iff.mpr (rule.sides_of_clash (stands.sides_mem member))
        | cons first early =>
            have before : ∀ other ∈ first :: early, (rule.origin other).isFeature = false := by
              simpa using none
            have stands := stands_late before isFeature late
            refine stands.upholds_iff.mpr ?_
            rcases List.mem_append.mp (stands.sides_mem member) with clash | clash
            · rcases settled first early feature late rfl before isFeature with same | agree
              · exact same ▸ rule.sides_of_clash clash
              · rw [rule.clashes_eq_nil_iff.mpr agree] at clash
                cases clash
            · exact rule.sides_of_clash clash

end MergeRule

-----------------------------------------------------------------------------------------
-- Conflicts that a registry upholds
-----------------------------------------------------------------------------------------

/-- What a registry holds under a name. -/
def Registry.content? (registry : Registry) (name : String) : SymbolKind → Option Content
  | .enumerant =>
      (registry.enums.find? name).map fun enumerant => .bits enumerant.value.bits
  | .command => (registry.commands.find? name).map fun command => .signature command.signature

/-- What a conflict shows as kept is what the registry holds, and what it shows as rejected is
something else.
-/
def Conflict.IsUpheldBy (conflict : Conflict) (registry : Registry) : Prop :=
  registry.content? conflict.name conflict.kind = some conflict.kept.declared.content
  ∧ registry.content? conflict.name conflict.kind ≠ some conflict.rejected.declared.content

instance (conflict : Conflict) (registry : Registry) : Decidable (conflict.IsUpheldBy registry) :=
  inferInstanceAs (Decidable (_ ∧ _))

/-- The conflicts about a name are upheld by a registry as they are by the account of the name. -/
theorem MergeRule.isUpheldBy_iff_upholds {α : Type} (rule : MergeRule α)
    {registry : Registry} {name : String} {account : Account α}
    (content : registry.content? name rule.kind = account.entry.map rule.content)
    (conflicts
      : registry.conflicts.filter (Conflict.isAbout rule.kind name) = account.conflicts)
    : (∀ conflict ∈ registry.conflicts,
          conflict.kind = rule.kind → conflict.name = name → conflict.IsUpheldBy registry)
      ↔ ∀ conflict ∈ account.conflicts, rule.Upholds account conflict.sides := by
  rw [← conflicts, Conflict.forall_about_iff]
  refine forall₂_congr fun conflict _ => forall₂_congr fun sameKind sameName => ?_
  rw [Conflict.IsUpheldBy, sameKind, sameName, content]
  rfl

namespace Registry

theorem enumContent?_eq (api : Api) (sources : List Records) (name : String)
    : (ofRecords api sources).content? name .enumerant
      = (Enumerant.mergeRule.account (enumDeclarations sources name)).entry.map
          Enumerant.mergeRule.content := by
  rw [content?, find?_enums, Option.map_map]
  exact Option.map_congr fun enumerant _ =>
    congrArg (fun value : Value => Content.bits value.bits) (enumerant.value_addGroups _)

theorem commandContent?_eq (api : Api) (sources : List Records) (name : String)
    : (ofRecords api sources).content? name .command
      = (Command.mergeRule.account (commandDeclarations sources name)).entry.map
          Command.mergeRule.content := by
  rw [content?, find?_commands]
  rfl

/-- A registry upholds all conflicts about a name exactly if the declarations of the name settle
it: no feature comes late, or it agrees with the first declaration, or all declarations before it
agree with each other.
-/
theorem conflicts_upheld_iff (api : Api) (sources : List Records)
    : let registry := Registry.ofRecords api sources
      (∀ name,
        (∀ conflict ∈ registry.conflicts,
            conflict.kind = .enumerant
            → conflict.name = name
            → conflict.IsUpheldBy registry)
        ↔ Enumerant.mergeRule.IsSettled (enumDeclarations sources name))
      ∧ ∀ name,
          (∀ conflict ∈ registry.conflicts,
              conflict.kind = .command
              → conflict.name = name
              → conflict.IsUpheldBy registry)
          ↔ Command.mergeRule.IsSettled (commandDeclarations sources name) := by
  refine ⟨fun name => ?_, fun name => ?_⟩
  · rw [← MergeRule.upholds_iff_isSettled]
    exact Enumerant.mergeRule.isUpheldBy_iff_upholds (enumContent?_eq api sources name)
      (filter_enumConflicts api sources name)
  · rw [← MergeRule.upholds_iff_isSettled]
    exact Command.mergeRule.isUpheldBy_iff_upholds (commandContent?_eq api sources name)
      (filter_commandConflicts api sources name)

/-- Two extensions that disagree, and then a feature that disagrees with both. -/
def lateFeature : List Records :=
  [
    { source := "x1", enums := [.declare "FOO" (.ofBits 1) (.extension "X1") "x1"] },
    { source := "x2", enums := [.declare "FOO" (.ofBits 2) (.extension "X2") "x2"] },
    {
      source := "core"
      enums := [.declare "FOO" (.ofBits 3) (.feature "gl" "GL_VERSION_1_0" ⟨1, 0⟩) "core"]
    }
  ]

/-- The conflict between the extensions keeps showing the first of them as kept. -/
theorem lateFeature_not_upheld
    : ¬ ∀ conflict ∈ (Registry.ofRecords .gl lateFeature).conflicts,
          conflict.IsUpheldBy (Registry.ofRecords .gl lateFeature) := by
  decide

end Registry

end ApiBindings
