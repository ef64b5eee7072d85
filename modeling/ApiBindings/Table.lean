/-! Tables of named things, in the order in which the names were first put in. Every name has one
entry, and putting in a name that is there changes its entry where it stands.
-/

namespace ApiBindings

/-- Named entries, no two of which have the same name. -/
structure Table (α : Type) where
  entries : List (String × α)
  nodup : (entries.map Prod.fst).Nodup
  deriving Repr

namespace Table

variable {α β : Type}

def empty : Table α where
  entries := []
  nodup := List.nodup_nil

def find? (table : Table α) (name : String) : Option α :=
  table.entries.lookup name

def contains (table : Table α) (name : String) : Bool :=
  (table.find? name).isSome

def names (table : Table α) : List String :=
  table.entries.map Prod.fst

def values (table : Table α) : List α :=
  table.entries.map Prod.snd

/-- Changes every entry, given its name. -/
def map (table : Table α) (change : String → α → β) : Table β where
  entries := table.entries.map fun entry => (entry.1, change entry.1 entry.2)
  nodup := by
    simpa only [List.map_map, Function.comp_def] using table.nodup

/-- Changes every entry or drops it. -/
def filterMap (table : Table α) (change : α → Option β) : Table β where
  entries := table.entries.filterMap fun entry =>
    (change entry.2).map fun changed => (entry.1, changed)
  nodup := by
    refine List.Nodup.sublist ?_ table.nodup
    generalize table.entries = entries
    induction entries with
    | nil => exact List.Sublist.slnil
    | cons entry rest ih =>
        cases h : change entry.2 with
        | none =>
            simp only [List.filterMap_cons, h, Option.map_none]
            exact ih.cons _
        | some changed =>
            simp only [List.filterMap_cons, h, Option.map_some]
            exact ih.cons_cons _

/-- Changes the entry of a name, if there is one. -/
def modify (table : Table α) (name : String) (change : α → α) : Table α :=
  table.map fun other old => if other = name then change old else old

theorem contains_iff {table : Table α} {name : String}
    : table.contains name = true ↔ name ∈ table.names := by
  unfold contains find? names
  generalize table.entries = entries
  induction entries with
  | nil => simp
  | cons entry rest ih =>
      obtain ⟨key, value⟩ := entry
      by_cases h : name = key
      · simp [h]
      · simp [List.lookup_cons, beq_eq_false_iff_ne.mpr h, h, ih]

theorem nodup_add {table : Table α} {name : String} (new : α)
    (h : table.contains name = false)
    : ((table.entries ++ [(name, new)]).map Prod.fst).Nodup := by
  have absent : name ∉ table.names := fun present => by
    rw [contains_iff.mpr present] at h
    cases h
  rw [List.map_append, List.nodup_append]
  refine ⟨table.nodup, by simp, ?_⟩
  intro other member last hlast same
  obtain rfl : last = name := by simpa using hlast
  exact absent (same ▸ member)

/-- Puts an entry under its name. If the name is in the table, its entry stays at its place and
becomes what `merge` makes of it and the new one. -/
def upsert (table : Table α) (name : String) (new : α) (merge : α → α → α) : Table α :=
  if h : table.contains name then
    table.modify name fun old => merge old new
  else
    {
      entries := table.entries ++ [(name, new)]
      nodup := nodup_add new (Bool.eq_false_iff.mpr h)
    }

/-- Changing entries by their names changes what is found under each name. -/
theorem find?_map (table : Table α) (change : String → α → β) (name : String)
    : (table.map change).find? name = (table.find? name).map (change name) := by
  unfold map find?
  dsimp only
  generalize table.entries = entries
  induction entries with
  | nil => rfl
  | cons entry rest ih =>
      obtain ⟨key, value⟩ := entry
      by_cases h : name = key
      · simp [h]
      · simp [List.lookup_cons, beq_eq_false_iff_ne.mpr h, ih]

theorem names_map (table : Table α) (change : String → α → β)
    : (table.map change).names = table.names := by
  simp only [names, map, List.map_map, Function.comp_def]

/-- Putting in a name adds it behind all others, unless it is there. -/
theorem names_upsert (table : Table α) (name : String) (new : α) (merge : α → α → α)
    : (table.upsert name new merge).names
      = if name ∈ table.names then table.names else table.names ++ [name] := by
  unfold upsert
  split
  · rename_i h
    rw [if_pos (contains_iff.mp h)]
    exact names_map ..
  · rename_i h
    rw [if_neg (fun present => h (contains_iff.mpr present))]
    simp only [names, List.map_append, List.map_cons, List.map_nil]

/-- What is found under a name that has been put in. -/
theorem find?_upsert_self (table : Table α) (name : String) (new : α) (merge : α → α → α)
    : (table.upsert name new merge).find? name
      = some ((table.find? name).elim new fun old => merge old new) := by
  unfold upsert
  split
  · rename_i h
    obtain ⟨old, found⟩ := Option.isSome_iff_exists.mp h
    simp only [modify, find?_map, found, Option.map_some, Option.elim_some, if_pos]
  · rename_i h
    have absent : table.find? name = none := by
      simpa only [contains, Bool.not_eq_true, Option.isSome_eq_false_iff,
        Option.isNone_iff_eq_none] using h
    rw [absent]
    unfold find? at absent ⊢
    dsimp only
    rw [List.lookup_append, absent]
    simp

/-- Putting in a name leaves all others as they are. -/
theorem find?_upsert_of_ne {table : Table α} {name other : String} (new : α)
    (merge : α → α → α) (h : other ≠ name)
    : (table.upsert name new merge).find? other = table.find? other := by
  unfold upsert
  split
  · simp only [modify, find?_map, if_neg h, Option.map_id']
  · unfold find?
    dsimp only
    rw [List.lookup_append]
    simp [List.lookup_cons, beq_eq_false_iff_ne.mpr h]

end Table

end ApiBindings
