import ApiBindings.Proofs.Reading.Parts
import Mathlib.Data.List.Forall2

/-! The share that each of several items has in what they are read into together.
An item is read with what those before it have left, so its share depends on them.
-/

namespace ApiBindings.Findings

variable {σ β : Type} {read : σ → β → Findings × σ}

/-- The items, each with what it is read into behind those before it. -/
def shares (read : σ → β → Findings × σ) : σ → List β → List (β × Findings)
  | _, [] => []
  | state, item :: rest => (item, (read state item).1) :: shares read (read state item).2 rest

theorem collect_eq_join_shares (state : σ) (items : List β)
    : (collect read state items).1 = join ((shares read state items).map Prod.snd) := by
  induction items generalizing state with
  | nil => rfl
  | cons item rest ih => exact congrArg ((read state item).1 ++ ·) (ih _)

/-- What holds of an item and its share in any state holds of all shares. By induction on the items
for any state before them.
-/
theorem forall_shares {holds : β → Findings → Prop}
    (reads : ∀ state item, holds item (read state item).1) (state : σ) (items : List β)
    : ∀ share ∈ shares read state items, holds share.1 share.2 := by
  induction items generalizing state with
  | nil => exact List.forall_mem_nil _
  | cons item rest ih => exact List.forall_mem_cons.mpr ⟨reads state item, ih _⟩

/-- A part of all findings is in one of the shares. -/
theorem Part.mem_collect_iff {α : Type} (part : Part α) {state : σ} {items : List β} {value : α}
    : value ∈ part.of (collect read state items).1
      ↔ ∃ share ∈ shares read state items, value ∈ part.of share.2 := by
  rw [collect_eq_join_shares, part.of_join, List.flatMap_map, List.mem_flatMap]

/-- What holds of a part of the findings of each item holds of that part of all findings. By
induction on the items for any state before them.
-/
theorem Part.forall_mem_collect {α : Type} (part : Part α) {holds : α → Prop} {items : List β}
    (reads : ∀ item ∈ items, ∀ state, ∀ value ∈ part.of (read state item).1, holds value)
    (state : σ)
    : ∀ value ∈ part.of (collect read state items).1, holds value := by
  induction items generalizing state with
  | nil =>
      intro value member
      rw [collect, part.of_empty] at member
      cases member
  | cons item rest ih =>
      obtain ⟨first, others⟩ := List.forall_mem_cons.mp reads
      intro value member
      rw [collect, part.of_append] at member
      rcases List.mem_append.mp member with member | member
      · exact first state value member
      · exact ih others _ value member

/-- What an item has in any state is among all findings. -/
theorem Part.mem_collect_of_mem {α : Type} (part : Part α) {items : List β} {item : β} {value : α}
    (member : item ∈ items) (reads : ∀ state, value ∈ part.of (read state item).1) (state : σ)
    : value ∈ part.of (collect read state items).1 := by
  induction items generalizing state with
  | nil => cases member
  | cons first rest ih =>
      rw [collect, part.of_append]
      rcases List.mem_cons.mp member with rfl | member
      · exact List.mem_append_left _ (reads state)
      · exact List.mem_append_right _ (ih member _)

-----------------------------------------------------------------------------------------
-- Items that are read in the same way
-----------------------------------------------------------------------------------------

theorem collect_cons (state : σ) (item : β) (rest : List β)
    : collect read state (item :: rest)
      = ((read state item).1 ++ (collect read (read state item).2 rest).1,
        (collect read (read state item).2 rest).2) :=
  rfl

/-- What items are read into does not depend on what follows them. By induction on the items. -/
theorem Part.of_collect_append {α : Type} (part : Part α) (state : σ) (front back : List β)
    : part.of (collect read state (front ++ back)).1
      = part.of (collect read state front).1
        ++ part.of (collect read (collect read state front).2 back).1 := by
  induction front generalizing state with
  | nil =>
      rw [collect, part.of_empty]
      rfl
  | cons item front ih =>
      rw [List.cons_append, collect_cons, collect_cons, part.of_append, part.of_append, ih,
        List.append_assoc]

/-- Items are read like others that they stand for, by induction on the items. -/
theorem collect_map {γ : Type} {other : σ → γ → Findings × σ} {change : β → γ} {items : List β}
    (same : ∀ item ∈ items, ∀ state, read state item = other state (change item)) (state : σ)
    : collect read state items = collect other state (items.map change) := by
  induction items generalizing state with
  | nil => rfl
  | cons item rest ih =>
      obtain ⟨first, others⟩ := List.forall_mem_cons.mp same
      rw [List.map_cons, collect_cons, collect_cons, first state, ih others]

/-- Items that leave everything as it is need not be read, by induction on the items. -/
theorem collect_filter {keeps : β → Bool} {items : List β}
    (dropped
      : ∀ item ∈ items, keeps item = false → ∀ state, read state item = ({}, state))
    (state : σ)
    : collect read state items = collect read state (items.filter keeps) := by
  induction items generalizing state with
  | nil => rfl
  | cons item rest ih =>
      obtain ⟨first, others⟩ := List.forall_mem_cons.mp dropped
      cases kept : keeps item with
      | true => rw [List.filter_cons_of_pos kept, collect_cons, collect_cons, ih others]
      | false =>
          rw [List.filter_cons_of_neg (by simp [kept]), ← ih others, collect_cons, first kept]
          rfl

/-- Reading items apart is reading them one after the other when nothing is kept between them. -/
theorem join_map_eq_collect (read : β → Findings) (items : List β)
    : join (items.map read) = (collect (fun (_ : Unit) item => (read item, ())) () items).1 := by
  induction items with
  | nil => rfl
  | cons item rest ih => exact congrArg (read item ++ ·) ih

-----------------------------------------------------------------------------------------
-- Outcomes of items
-----------------------------------------------------------------------------------------

/-- Findings are made of one outcome for each item, in the order of the items. -/
def SharedBy (outcome : β → Findings → Prop) (items : List β) (found : Findings) : Prop :=
  ∃ shares, List.Forall₂ outcome items shares ∧ found = join shares

/-- Items that are read one after the other have the outcomes that each has in any state. By
induction on the items for any state before them.
-/
theorem sharedBy_collect {outcome : β → Findings → Prop} {items : List β}
    (reads : ∀ item ∈ items, ∀ state, outcome item (read state item).1) (state : σ)
    : SharedBy outcome items (collect read state items).1 := by
  induction items generalizing state with
  | nil => exact ⟨[], .nil, rfl⟩
  | cons item rest ih =>
      obtain ⟨first, others⟩ := List.forall_mem_cons.mp reads
      obtain ⟨shares, outcomes, whole⟩ := ih others (read state item).2
      refine ⟨(read state item).1 :: shares, .cons (first state) outcomes, ?_⟩
      exact congrArg ((read state item).1 ++ ·) whole

theorem sharedBy_join_map {outcome : β → Findings → Prop} {read : β → Findings} {items : List β}
    (reads : ∀ item ∈ items, outcome item (read item))
    : SharedBy outcome items (join (items.map read)) := by
  refine ⟨items.map read, ?_, rfl⟩
  rw [List.forall₂_map_right_iff, List.forall₂_same]
  exact reads

/-- What maps findings piece by piece maps the outcomes of items. -/
theorem SharedBy.map {outcome mapped : β → Findings → Prop} {change : Findings → Findings}
    (empty : change {} = {})
    (append : ∀ earlier later, change (earlier ++ later) = change earlier ++ change later)
    (closed : ∀ item found, outcome item found → mapped item (change found)) {items : List β}
    {found : Findings} (shared : SharedBy outcome items found)
    : SharedBy mapped items (change found) := by
  obtain ⟨shares, outcomes, rfl⟩ := shared
  refine ⟨shares.map change, ?_, ?_⟩
  · exact List.forall₂_map_right_iff.mpr (outcomes.imp closed)
  · clear outcomes
    induction shares with
    | nil => exact empty
    | cons first rest ih =>
        refine (append first (join rest)).trans ?_
        rw [ih]
        rfl

end ApiBindings.Findings
