import ApiBindings.Proofs.Tables.Entries
import ApiBindings.Registry.Merge

/-! The one rule by which enumerants and commands are merged.
Of two declarations of a name one wins. The merged entry says what the winner said, and a conflict
shows the winner as kept.
-/

namespace ApiBindings

/-- What two declarations of one name have to share in order to agree. -/
inductive Content where
  | bits (pattern : BitVec 64)
  | signature (text : String)
  deriving DecidableEq

def Declared.content : Declared → Content
  | .value v => .bits v.bits
  | .signature s => .signature s

-----------------------------------------------------------------------------------------
-- The rule that both kinds of symbols are merged by
-----------------------------------------------------------------------------------------

/-- A kind of symbol that is merged by name. -/
structure MergedKind (α : Type) where
  kind : SymbolKind
  name : α → String
  origin : α → Origin
  declaration : α → Declaration
  merge : α → α → α
  conflict? : α → α → Option Conflict

namespace MergedKind

variable {α : Type} (merged : MergedKind α)

def content (symbol : α) : Content :=
  (merged.declaration symbol).declared.content

/-- The one of two declarations that stands, and the one that does not. -/
def winner (old new : α) : α :=
  if (merged.origin old).yieldsTo (merged.origin new) then new else old

def loser (old new : α) : α :=
  if (merged.origin old).yieldsTo (merged.origin new) then old else new

end MergedKind

/-- A kind whose merged entries say what the winner said, and say it for the winner's origin, and
whose conflicts show the winner as kept and the loser as rejected.
-/
structure MergeRule (α : Type) extends MergedKind α where
  name_merge : ∀ {old new}, name old = name new → name (merge old new) = name new
  content_merge
    : ∀ old new,
        toMergedKind.content (merge old new)
        = toMergedKind.content (toMergedKind.winner old new)
  origin_merge : ∀ old new, origin (merge old new) = origin (toMergedKind.winner old new)
  conflict?_eq
    : ∀ old new,
        conflict? old new
        = if toMergedKind.content old = toMergedKind.content new then
            none
          else
            some {
              name := name new
              kind
              kept := declaration (toMergedKind.winner old new)
              rejected := declaration (toMergedKind.loser old new)
              settlement := .between (origin old) (origin new)
            }

-----------------------------------------------------------------------------------------
-- Enumerants and commands follow the rule
-----------------------------------------------------------------------------------------

/-- Groups are all that adding groups changes, by induction on the groups. -/
theorem Enumerant.addGroups_eq (enumerant : Enumerant) (groups : List String)
    : enumerant.addGroups groups
      = { enumerant with groups := (enumerant.addGroups groups).groups } := by
  induction groups generalizing enumerant with
  | nil => rfl
  | cons group rest ih =>
      have step := ih (enumerant.addGroup group)
      unfold addGroup at step
      split at step
      · rename_i known
        simpa only [addGroups, List.foldl_cons, addGroup, if_pos known] using step
      · rename_i fresh
        simpa only [addGroups, List.foldl_cons, addGroup, if_neg fresh] using step

@[simp] theorem Enumerant.name_addGroups (enumerant : Enumerant) (groups : List String)
    : (enumerant.addGroups groups).name = enumerant.name := by
  rw [addGroups_eq]

@[simp] theorem Enumerant.value_addGroups (enumerant : Enumerant) (groups : List String)
    : (enumerant.addGroups groups).value = enumerant.value := by
  rw [addGroups_eq]

@[simp] theorem Enumerant.origin_addGroups (enumerant : Enumerant) (groups : List String)
    : (enumerant.addGroups groups).origin = enumerant.origin := by
  rw [addGroups_eq]

/-- Enumerants are merged by name, and two of them agree if they have the same bits. -/
def Enumerant.mergeRule : MergeRule Enumerant where
  kind := .enumerant
  name := Enumerant.name
  origin := Enumerant.origin
  declaration := Enumerant.declaration
  merge := Enumerant.merge
  conflict? := Enumerant.conflict?
  name_merge := by
    intro old new same
    unfold merge
    split
    · simpa using same
    · split
      · simp
      · simpa using same
  content_merge := by
    intro old new
    simp only [MergedKind.content, MergedKind.winner, declaration, Declared.content,
      Content.bits.injEq]
    unfold merge
    split
    · rename_i same
      split
      · simpa [agrees] using same
      · simp
    · split <;> simp
  origin_merge := by
    intro old new
    unfold merge MergedKind.winner
    split
    · unfold Origin.merge
      split <;> rfl
    · split <;> simp
  conflict?_eq := by
    intro old new
    simp only [MergedKind.content, MergedKind.winner, MergedKind.loser, declaration,
      Declared.content, Content.bits.injEq, conflict?, agrees, beq_iff_eq]

/-- What a merged parameter list says of groups leaves the types alone. -/
theorem Command.type_mergeParams (old new : List Param)
    : (mergeParams old new).map Param.type = old.map Param.type := by
  fun_induction mergeParams old new with
  | case1 old olds new news ih => simp only [List.map_cons, ih]
  | case2 => rfl

/-- Commands are merged by name, and two of them agree if they have the same signature. -/
def Command.mergeRule : MergeRule Command where
  kind := .command
  name := Command.name
  origin := Command.origin
  declaration := Command.declaration
  merge := Command.merge
  conflict? := Command.conflict?
  name_merge := by
    intro old new same
    unfold merge
    split
    · exact same
    · split
      · rfl
      · exact same
  content_merge := by
    intro old new
    simp only [MergedKind.content, MergedKind.winner, declaration, Declared.content,
      Content.signature.injEq]
    unfold merge
    split
    · rename_i same
      have kept : old.signature = new.signature := by simpa [agrees] using same
      split
      · simpa only [signature, type_mergeParams] using kept
      · simp only [signature, type_mergeParams]
    · split <;> rfl
  origin_merge := by
    intro old new
    unfold merge MergedKind.winner
    split
    · unfold Origin.merge
      split <;> rfl
    · split <;> rfl
  conflict?_eq := by
    intro old new
    simp only [MergedKind.content, MergedKind.winner, MergedKind.loser, declaration,
      Declared.content, Content.signature.injEq, conflict?, agrees, beq_iff_eq]

end ApiBindings
