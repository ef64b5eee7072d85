import ApiBindings.Table
import Mathlib.Data.List.Induction
import Mathlib.Data.List.Nodup

/-! The entries of a table as its names and lookups see them, and lists kept without repetition.
A table that is changed name by name is the table with every entry changed once, by all the
changes to its name in their order.
-/

namespace ApiBindings

-----------------------------------------------------------------------------------------
-- Lists that keep the first occurrence of everything
-----------------------------------------------------------------------------------------

/-- Appends an element that is not there yet. -/
def addNew {α : Type} [DecidableEq α] (seen : List α) (next : α) : List α :=
  if next ∈ seen then seen else seen ++ [next]

/-- One more element is kept exactly if it is new, by erasing what the front already has. -/
theorem eraseDups_concat {α : Type} [DecidableEq α] (front : List α) (last : α)
    : (front ++ [last]).eraseDups = addNew front.eraseDups last := by
  rw [List.eraseDups_append, addNew]
  split <;> rename_i seen
  · rw [List.mem_eraseDups] at seen
    simp [List.removeAll, seen]
  · rw [List.mem_eraseDups] at seen
    simp [List.removeAll, seen, List.eraseDups_cons]

theorem nodup_addNew {α : Type} [DecidableEq α] {seen : List α} (unique : seen.Nodup)
    (next : α)
    : (addNew seen next).Nodup := by
  unfold addNew
  split
  · exact unique
  · rename_i new
    refine List.nodup_append.mpr ⟨unique, by simp, ?_⟩
    intro earlier member other hother same
    obtain rfl := List.mem_singleton.mp hother
    exact new (same ▸ member)

/-- Nothing is left twice, by induction from the back. -/
theorem nodup_eraseDups {α : Type} [DecidableEq α] (list : List α) : list.eraseDups.Nodup := by
  induction list using List.reverseRecOn with
  | nil => exact List.nodup_nil
  | append_singleton front last ih => exact eraseDups_concat front last ▸ nodup_addNew ih last

/-- Adding the elements of a list one by one leaves the first occurrence of each. -/
theorem foldl_addNew {α : Type} [DecidableEq α] (list : List α)
    : list.foldl addNew [] = list.eraseDups := by
  induction list using List.reverseRecOn with
  | nil => rfl
  | append_singleton front last ih =>
      rw [List.foldl_append, ih, eraseDups_concat, List.foldl_cons, List.foldl_nil]

theorem mem_foldl_addNew {α : Type} [DecidableEq α] {list : List α} {value : α}
    : value ∈ list.foldl addNew [] ↔ value ∈ list := by
  rw [foldl_addNew, List.mem_eraseDups]

theorem mem_addNew {α : Type} [DecidableEq α] {seen : List α} {next value : α}
    : value ∈ addNew seen next ↔ value ∈ seen ∨ value = next := by
  unfold addNew
  split
  · rename_i known
    exact ⟨Or.inl, fun found => found.elim id fun same => same ▸ known⟩
  · rw [List.mem_append, List.mem_singleton]

/-- Nothing is added that is there, by induction on what is to be added. -/
theorem foldl_addNew_of_subset {α : Type} [DecidableEq α] {list seen : List α}
    (known : list ⊆ seen)
    : list.foldl addNew seen = seen := by
  induction list with
  | nil => rfl
  | cons next rest ih =>
      obtain ⟨first, later⟩ := List.cons_subset.mp known
      rw [List.foldl_cons, addNew, if_pos first]
      exact ih later

/-- Nothing is new in a second round. -/
theorem eraseDups_append_self {α : Type} [DecidableEq α] (list : List α)
    : (list ++ list).eraseDups = list.eraseDups := by
  rw [← foldl_addNew, ← foldl_addNew, List.foldl_append]
  exact foldl_addNew_of_subset fun _ member => mem_foldl_addNew.mpr member

/-- Leaving out elements and erasing repetitions can be done in either order. By induction from the
back.
-/
theorem eraseDups_filter {α : Type} [DecidableEq α] (keeps : α → Bool) (list : List α)
    : (list.filter keeps).eraseDups = list.eraseDups.filter keeps := by
  induction list using List.reverseRecOn with
  | nil => rfl
  | append_singleton front last ih =>
      have among
          : last ∈ (front.filter keeps).eraseDups
            ↔ last ∈ front.eraseDups ∧ keeps last = true := by
        rw [ih, List.mem_filter]
      rw [List.filter_append, List.filter_singleton, eraseDups_concat front, addNew]
      cases kept : keeps last with
      | false =>
          rw [cond_false, List.append_nil, ih]
          split <;> simp [kept]
      | true =>
          rw [cond_true, eraseDups_concat, addNew]
          by_cases seen : last ∈ front.eraseDups
          · rw [if_pos seen, if_pos (among.mpr ⟨seen, kept⟩), ih]
          · rw [if_neg seen, if_neg (fun member => seen (among.mp member).1), ih]
            simp [kept]

-----------------------------------------------------------------------------------------
-- What several declarations of one name make
-----------------------------------------------------------------------------------------

/-- What a new declaration makes of the one that is there, if there is one. -/
def joined {α : Type} (join : α → α → α) (found : Option α) (new : α) : Option α :=
  some (found.elim new fun old => join old new)

def joinAll {α : Type} (join : α → α → α) (declarations : List α) : Option α :=
  declarations.foldl (joined join) none

theorem foldl_joined {α : Type} (join : α → α → α) (old : α) (declarations : List α)
    : declarations.foldl (joined join) (some old) = some (declarations.foldl join old) := by
  induction declarations generalizing old with
  | nil => rfl
  | cons next rest ih => exact ih (join old next)

theorem joinAll_cons {α : Type} (join : α → α → α) (first : α) (rest : List α)
    : joinAll join (first :: rest) = some (rest.foldl join first) :=
  foldl_joined join first rest

/-- Where no two elements have the same key, each is what is found under its own. By induction on
the elements.
-/
theorem mem_iff_find?_eq_some {α κ : Type} [DecidableEq κ] {key : α → κ} {list : List α}
    (unique : (list.map key).Nodup) {value : α}
    : value ∈ list ↔ (list.find? fun other => key other = key value) = some value := by
  constructor
  · intro member
    induction list with
    | nil => cases member
    | cons first rest ih =>
        obtain ⟨absent, restUnique⟩ := List.nodup_cons.mp unique
        rcases List.mem_cons.mp member with rfl | later
        · simp
        · have differ : key first ≠ key value := by
            intro same
            exact absent (same ▸ List.mem_map_of_mem later)
          rw [List.find?_cons_of_neg (by simpa using differ)]
          exact ih restUnique later
  · exact List.mem_of_find?_eq_some

namespace Table

variable {α β σ : Type}

-----------------------------------------------------------------------------------------
-- Entries and lookups
-----------------------------------------------------------------------------------------

/-- A table is its entries: two tables with the same ones are equal. -/
theorem ext {left right : Table α} (same : left.entries = right.entries) : left = right := by
  cases left
  cases right
  cases same
  rfl

/-- The entries of a table are what is found under its names, by induction on the entries. -/
theorem mem_entries_iff {table : Table α} {name : String} {value : α}
    : (name, value) ∈ table.entries ↔ table.find? name = some value := by
  obtain ⟨entries, nodup⟩ := table
  unfold find?
  dsimp only
  induction entries with
  | nil => simp
  | cons entry rest ih =>
      obtain ⟨key, first⟩ := entry
      obtain ⟨absent, unique⟩ := List.nodup_cons.mp nodup
      rw [List.mem_cons, ih unique, List.lookup_cons]
      by_cases same : name = key
      · subst same
        have later : rest.lookup name = none := by
          refine List.lookup_eq_none_iff.mpr fun other member => ?_
          refine bne_iff_ne.mpr fun equal => absent ?_
          exact List.mem_map.mpr ⟨other, member, equal.symm⟩
        simp [later, eq_comm]
      · simp [same, beq_eq_false_iff_ne.mpr same]

theorem find?_eq_none_iff {table : Table α} {name : String}
    : table.find? name = none ↔ name ∉ table.names := by
  rw [← contains_iff, contains, Bool.not_eq_true, Option.isSome_eq_false_iff,
    Option.isNone_iff_eq_none]

/-- Two tables with the same names in the same order are equal if the same is found under each. -/
theorem ext_find? {left right : Table α} (names : left.names = right.names)
    (same : ∀ name, left.find? name = right.find? name)
    : left = right := by
  have found (table : Table α)
      : (table.entries.map fun entry => (entry.1, some entry.2))
        = table.names.map fun name => (name, table.find? name) := by
    rw [Table.names, List.map_map]
    exact List.map_congr_left fun entry member =>
      Prod.ext rfl (mem_entries_iff.mp member).symm
  have injective : Function.Injective fun entry : String × α => (entry.1, some entry.2) := by
    rintro ⟨name, value⟩ ⟨other, another⟩ equal
    simpa using equal
  refine ext (List.map_injective_iff.mpr injective ?_)
  simp only [found, names, same]

theorem values_map (table : Table α) (change : α → β)
    : (table.map fun _ => change).values = table.values.map change := by
  simp only [values, map, List.map_map, Function.comp_def]

/-- Two changes that agree on what is in a table make the same of it. -/
theorem map_congr {table : Table α} {change other : String → α → β}
    (same : ∀ name ∈ table.names, ∀ value, change name value = other name value)
    : table.map change = table.map other :=
  ext (List.map_congr_left fun entry member =>
    Prod.ext rfl (same entry.1 (List.mem_map_of_mem member) entry.2))

/-- What is found after entries have been changed or dropped was found before. -/
theorem find?_filterMap (table : Table α) (change : α → Option β) (name : String)
    : (table.filterMap change).find? name = (table.find? name).bind change := by
  refine Option.ext fun value => ?_
  rw [← mem_entries_iff, Option.bind_eq_some_iff]
  simp only [filterMap, List.mem_filterMap, Option.map_eq_some_iff, Prod.mk.injEq]
  constructor
  · rintro ⟨⟨key, old⟩, member, new, changed, rfl, rfl⟩
    exact ⟨old, mem_entries_iff.mp member, changed⟩
  · rintro ⟨old, found, changed⟩
    exact ⟨(name, old), mem_entries_iff.mpr found, value, changed, rfl, rfl⟩

/-- No two values of a table have the same key if that is the name that they stand under. -/
theorem nodup_map_values {table : Table α} (key : α → String)
    (keyed : ∀ {name value}, table.find? name = some value → key value = name)
    : (table.values.map key).Nodup := by
  have names : table.values.map key = table.entries.map Prod.fst := by
    rw [values, List.map_map]
    exact List.map_congr_left fun entry member => keyed (mem_entries_iff.mp member)
  exact names ▸ table.nodup

/-- No two values of a table are the same if each can tell the name that it stands under. -/
theorem nodup_values {table : Table α} (key : α → String)
    (keyed : ∀ {name value}, table.find? name = some value → key value = name)
    : table.values.Nodup :=
  List.Nodup.of_map key (nodup_map_values key keyed)

-----------------------------------------------------------------------------------------
-- Changing entries by name
-----------------------------------------------------------------------------------------

theorem map_map {γ : Type} (table : Table α) (first : String → α → β)
    (second : String → β → γ)
    : (table.map first).map second
      = table.map fun name value => second name (first name value) :=
  ext (by simp only [map, List.map_map, Function.comp_def])

theorem map_id (table : Table α) : (table.map fun _ value => value) = table :=
  ext (by simp only [map, List.map_id'])

/-- Changes to single names, one after the other, change every entry by those to its own name.
By induction on the changes.
-/
theorem foldl_modify (steps : List σ) (key : σ → String) (change : σ → α → α)
    (table : Table α)
    : steps.foldl (fun table step => table.modify (key step) (change step)) table
      = table.map fun name value =>
          (steps.filter fun step => key step = name).foldl
            (fun value step => change step value) value := by
  induction steps generalizing table with
  | nil => exact (map_id table).symm
  | cons step rest ih =>
      rw [List.foldl_cons, ih, modify, map_map]
      congr
      funext name value
      by_cases same : key step = name
      · simp [same]
      · simp [same, Ne.symm same]

end Table

end ApiBindings
