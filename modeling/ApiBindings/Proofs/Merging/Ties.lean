import ApiBindings.Proofs.Merging.Conflicts

/-! Which names have conflicts that their origins leave unresolved.
Origins settle a conflict if exactly one of its sides is by a feature. What stays unresolved is a
tie: declarations that disagree before any feature has come, or features that disagree.
-/

namespace ApiBindings

theorem Conflict.isUnresolved_eq_false_iff {conflict : Conflict}
    : conflict.isUnresolved = false ↔ conflict.settlement = .byFeature := by
  cases settled : conflict.settlement <;> simp [isUnresolved, settled]

theorem Settlement.between_eq_byFeature_iff {old new : Origin}
    : Settlement.between old new = .byFeature ↔ old.isFeature ≠ new.isFeature := by
  simp [between]

namespace MergeRule

variable {α : Type} (rule : MergeRule α)

-----------------------------------------------------------------------------------------
-- Declarations that tie
-----------------------------------------------------------------------------------------

def AllAgree (declarations : List α) : Prop :=
  ∀ one ∈ declarations, ∀ other ∈ declarations, rule.content one = rule.content other

instance (declarations : List α) : Decidable (rule.AllAgree declarations) :=
  inferInstanceAs (Decidable (∀ one ∈ declarations, ∀ other ∈ declarations, _ = _))

/-- No declarations of the same rank disagree: none of those that come before the first feature,
and no two features.
-/
structure IsUntied (declarations : List α) : Prop where
  early
    : rule.AllAgree
        (declarations.takeWhile fun declaration => !(rule.origin declaration).isFeature)
  features
    : rule.AllAgree (declarations.filter fun declaration => (rule.origin declaration).isFeature)

variable {rule}

theorem allAgree_nil : rule.AllAgree [] := by
  intro one member
  cases member

/-- To agree among each other is to agree with the first. -/
theorem allAgree_cons_iff {first : α} {rest : List α}
    : rule.AllAgree (first :: rest)
      ↔ ∀ other ∈ rest, rule.content other = rule.content first := by
  constructor
  · intro agree other member
    exact agree other (List.mem_cons_of_mem _ member) first List.mem_cons_self
  · intro agree
    have withFirst : ∀ other ∈ first :: rest, rule.content other = rule.content first := by
      intro other member
      rcases List.mem_cons.mp member with rfl | later
      · rfl
      · exact agree other later
    intro one oneMember other otherMember
    exact (withFirst one oneMember).trans (withFirst other otherMember).symm

/-- Declarations that all agree have no conflicts. By induction on the declarations from the back.
-/
theorem AllAgree.conflicts_eq_nil {declarations : List α} (agree : rule.AllAgree declarations)
    : (rule.account declarations).conflicts = [] := by
  induction declarations using List.reverseRecOn with
  | nil => rfl
  | append_singleton front last ih =>
      have earlier := ih fun one member other among =>
        agree one (List.mem_append_left _ member) other (List.mem_append_left _ among)
      rw [account_concat, declare, earlier, List.nil_append]
      cases entry : (rule.account front).entry with
      | none => rfl
      | some old =>
          have same : rule.content old = rule.content last :=
            rule.entry_of_merge (fun declared => rule.content declared = rule.content last)
              (fun {old new} first second => by
                rw [rule.content_merge, MergedKind.winner]
                split
                · exact second
                · exact first)
              (fun declared member =>
                agree declared (List.mem_append_left _ member) last List.mem_concat_self)
              entry
          rw [Option.bind_some, rule.conflict?_eq, if_pos same]
          rfl

/-- Nothing ties before a feature that comes first, and nothing but features ties behind it. -/
theorem isUntied_feature_iff {feature : α} (isFeature : (rule.origin feature).isFeature)
    {late : List α}
    : rule.IsUntied (feature :: late)
      ↔ ∀ other ∈ late,
          (rule.origin other).isFeature → rule.content other = rule.content feature := by
  have features
      : rule.AllAgree ((feature :: late).filter fun other => (rule.origin other).isFeature)
        ↔ ∀ other ∈ late,
            (rule.origin other).isFeature → rule.content other = rule.content feature := by
    rw [List.filter_cons, if_pos isFeature, allAgree_cons_iff]
    simp only [List.mem_filter, and_imp]
  constructor
  · intro untied
    exact features.mp untied.features
  · intro agree
    refine ⟨?_, features.mpr agree⟩
    rw [List.takeWhile_cons_of_neg (by simp [isFeature])]
    exact allAgree_nil

/-- What comes before the first feature may tie, and so may what comes from there on. -/
theorem isUntied_append_iff {early late : List α}
    (before : ∀ other ∈ early, (rule.origin other).isFeature = false)
    (after : ∀ feature ∈ late.head?, (rule.origin feature).isFeature)
    : rule.IsUntied (early ++ late) ↔ rule.AllAgree early ∧ rule.IsUntied late := by
  have takesEarly
      : (early ++ late).takeWhile (fun other => !(rule.origin other).isFeature) = early := by
    rw [List.takeWhile_append_of_pos (by simpa using before)]
    cases late with
    | nil => simp
    | cons feature rest => simp [after feature rfl]
  have takesNone : late.takeWhile (fun other => !(rule.origin other).isFeature) = [] := by
    cases late with
    | nil => rfl
    | cons feature rest => simp [after feature rfl]
  have features
      : (early ++ late).filter (fun other => (rule.origin other).isFeature)
        = late.filter fun other => (rule.origin other).isFeature := by
    rw [List.filter_append, List.filter_eq_nil_iff.mpr (by simpa using before),
      List.nil_append]
  constructor
  · intro untied
    refine ⟨takesEarly ▸ untied.early, ?_, features ▸ untied.features⟩
    rw [takesNone]
    exact allAgree_nil
  · rintro ⟨agree, untied⟩
    exact ⟨takesEarly.symm ▸ agree, features.symm ▸ untied.features⟩

-----------------------------------------------------------------------------------------
-- Reports of ties
-----------------------------------------------------------------------------------------

/-- The reports against what stands are settled unless something of its rank disagrees. -/
theorem settled_clashes_iff {standing : α} {others : List α}
    : (∀ sides ∈ rule.clashes standing others, sides.settlement = .byFeature)
      ↔ ∀ other ∈ others,
          (rule.origin other).isFeature = (rule.origin standing).isFeature
          → rule.content other = rule.content standing := by
  simp only [clashes, List.forall_mem_map, List.mem_filter, decide_eq_true_eq, and_imp,
    Settlement.between_eq_byFeature_iff]
  refine forall₂_congr fun other _ => ?_
  constructor
  · intro differ sameRank
    by_contra clash
    exact differ clash sameRank.symm
  · intro agree clash sameRank
    exact clash (agree sameRank.symm)

theorem Stands.settled_iff {standing : α} {reported : List Sides} {account : Account α}
    (stands : rule.Stands standing reported account)
    : account.conflicts.filter Conflict.isUnresolved = []
      ↔ ∀ sides ∈ reported, sides.settlement = .byFeature := by
  rw [← stands.conflicts, List.forall_mem_map, List.filter_eq_nil_iff]
  refine forall₂_congr fun conflict _ => ?_
  rw [Bool.not_eq_true, Conflict.isUnresolved_eq_false_iff]
  rfl

/-- Every conflict about a name is settled exactly if its declarations do not tie. By cases on
whether a feature is among them and what comes before the first one.
-/
theorem settled_iff_isUntied (declarations : List α)
    : (rule.account declarations).conflicts.filter Conflict.isUnresolved = []
      ↔ rule.IsUntied declarations := by
  cases found : declarations.find? fun other => (rule.origin other).isFeature with
  | none =>
      have early : ∀ other ∈ declarations, (rule.origin other).isFeature = false := by
        simpa using List.find?_eq_none.mp found
      have untied : rule.IsUntied (declarations ++ []) ↔ rule.AllAgree declarations := by
        rw [isUntied_append_iff early (by simp)]
        exact and_iff_left ⟨allAgree_nil, allAgree_nil⟩
      rw [← List.append_nil declarations, untied, List.append_nil]
      cases declarations with
      | nil => exact iff_of_true rfl allAgree_nil
      | cons first rest =>
          rw [(stands_early early).settled_iff, settled_clashes_iff, allAgree_cons_iff]
          refine forall₂_congr fun other member => ?_
          simp [early first List.mem_cons_self, early other (List.mem_cons_of_mem _ member)]
  | some feature =>
      obtain ⟨isFeature, earlier, late, rfl, none⟩ := List.find?_eq_some_iff_append.mp found
      have before : ∀ other ∈ earlier, (rule.origin other).isFeature = false := by
        simpa using none
      rw [isUntied_append_iff before (by simpa using isFeature),
        isUntied_feature_iff isFeature]
      cases earlier with
      | nil =>
          rw [List.nil_append, (stands_feature isFeature late).settled_iff,
            settled_clashes_iff, isFeature, and_iff_right allAgree_nil]
      | cons first early =>
          -- The first declaration loses against the feature, which is of another rank.
          have loses : (rule.origin first).isFeature = false := before first List.mem_cons_self
          rw [(stands_late before isFeature late).settled_iff, List.forall_mem_append,
            settled_clashes_iff, settled_clashes_iff, List.forall_mem_cons, isFeature, loses,
            allAgree_cons_iff]
          simp only [Bool.false_eq_true, false_imp_iff, true_and]
          refine and_congr_left' (forall₂_congr fun other member => ?_)
          simp [before other (List.mem_cons_of_mem _ member)]

end MergeRule

-----------------------------------------------------------------------------------------
-- Unresolved conflicts of a registry
-----------------------------------------------------------------------------------------

namespace Registry

/-- A registry has no conflicts if under every name all declarations agree. -/
theorem conflicts_eq_nil (api : Api) {sources : List Records}
    (enums : ∀ name, Enumerant.mergeRule.AllAgree (enumDeclarations sources name))
    (commands : ∀ name, Command.mergeRule.AllAgree (commandDeclarations sources name))
    : (ofRecords api sources).conflicts = [] := by
  refine List.eq_nil_iff_forall_not_mem.mpr fun conflict member => ?_
  have about : conflict ∈ (ofRecords api sources).conflicts.filter
      (Conflict.isAbout conflict.kind conflict.name) :=
    List.mem_filter.mpr ⟨member, decide_eq_true ⟨rfl, rfl⟩⟩
  cases kind : conflict.kind with
  | enumerant =>
      rw [kind, filter_enumConflicts, (enums conflict.name).conflicts_eq_nil] at about
      cases about
  | command =>
      rw [kind, filter_commandConflicts, (commands conflict.name).conflicts_eq_nil] at about
      cases about

/-- A registry has no unresolved conflict about a name exactly if the declarations of the name do
not tie: those before the first feature agree, and all features agree.
-/
theorem unresolved_eq_nil_iff (api : Api) (sources : List Records)
    : let unresolved := (Registry.ofRecords api sources).unresolvedConflicts
      (∀ name,
        unresolved.filter (Conflict.isAbout .enumerant name) = []
        ↔ Enumerant.mergeRule.IsUntied (enumDeclarations sources name))
      ∧ ∀ name,
          unresolved.filter (Conflict.isAbout .command name) = []
          ↔ Command.mergeRule.IsUntied (commandDeclarations sources name) := by
  refine ⟨fun name => ?_, fun name => ?_⟩
  · rw [← MergeRule.settled_iff_isUntied, ← filter_enumConflicts api, unresolvedConflicts,
      List.filter_filter, List.filter_filter]
    simp only [Bool.and_comm]
  · rw [← MergeRule.settled_iff_isUntied, ← filter_commandConflicts api, unresolvedConflicts,
      List.filter_filter, List.filter_filter]
    simp only [Bool.and_comm]

/-- A feature that comes behind a tie of extensions decides it, and the tie stays reported. -/
theorem lateFeature_unresolved
    : ¬ ((∃ declared ∈ enumDeclarations lateFeature "FOO", declared.origin.isFeature)
          ∧ Enumerant.mergeRule.AllAgree
              ((enumDeclarations lateFeature "FOO").filter fun declared =>
                declared.origin.isFeature)
          → (ofRecords .gl lateFeature).unresolvedConflicts.filter
                (Conflict.isAbout .enumerant "FOO")
              = []) := by
  decide

end Registry

end ApiBindings
