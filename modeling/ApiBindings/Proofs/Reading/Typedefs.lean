import ApiBindings.Proofs.Reading.Headers
import ApiBindings.Proofs.Text.Layout
import ApiBindings.Proofs.Text.Search

/-! What is recorded of the type definitions of headers.
A header is cut at every semicolon outside of all braces, and the semicolon belongs to no statement.
So the text of a type definition has a semicolon only if it has a brace, and it never ends in one.
-/

namespace ApiBindings.Header

open ApiBindings.Text
open Findings

-----------------------------------------------------------------------------------------
-- Semicolons
-----------------------------------------------------------------------------------------

/-- There is a semicolon in a text only if there is an opening brace. -/
def IsBraced (text : List Char) : Prop :=
  ';' ∈ text → '\x7b' ∈ text

theorem IsBraced.reverse {text : List Char} (braced : IsBraced text) : IsBraced text.reverse := by
  intro member
  rw [List.mem_reverse] at member ⊢
  exact braced member

/-- A text in which only one sign is new is braced if the text was. -/
theorem IsBraced.cons {text : List Char} {c : Char} (braced : IsBraced text) (other : c ≠ ';')
    : IsBraced (c :: text) := by
  intro member
  rcases List.mem_cons.mp member with same | member
  · exact absurd same.symm other
  · exact List.mem_cons_of_mem c (braced member)

theorem IsBraced.collapse {text : List Char} (braced : IsBraced text)
    : IsBraced (collapse text) := by
  intro member
  rcases mem_collapse member with same | ⟨inside, -⟩
  · cases same
  · exact mem_collapse_of_mem (braced inside) (by decide)

namespace Cutter

variable {cutter : Cutter}

/-- A semicolon is kept in braces only, and an open brace is in the statement. -/
structure Encloses (cutter : Cutter) : Prop where
  statement : IsBraced cutter.statement
  depth : 0 < cutter.depth → '\x7b' ∈ cutter.statement
  items : ∀ text line, .statement text line ∈ cutter.items → IsBraced text

theorem Encloses.take (encloses : cutter.Encloses) {c : Char} (other : c ≠ ';') (line : Nat)
    : (cutter.take line c).Encloses where
  statement := encloses.statement.cons other
  depth := fun inside => List.mem_cons_of_mem c (encloses.depth inside)
  items := encloses.items

/-- Behind a statement the next one starts outside of all braces. -/
theorem Encloses.clear
    (items : ∀ text line, .statement text line ∈ cutter.items → IsBraced text)
    (outside : cutter.depth = 0)
    : cutter.clear.Encloses where
  statement := fun member => absurd member List.not_mem_nil
  depth := fun inside => absurd outside (Nat.ne_of_gt inside)
  items := items

/-- What one character does, by cases on its role. -/
theorem Encloses.read (encloses : cutter.Encloses) (line : Nat) (c : Char)
    : (Cutter.read line cutter c).Encloses := by
  unfold Cutter.read
  split
  · rename_i opens
    subst opens
    exact ⟨fun _ => List.mem_cons_self, fun _ => List.mem_cons_self, encloses.items⟩
  · split
    · rename_i closes
      subst closes
      split
      · exact encloses
      · rename_i inside
        have brace := encloses.depth (Nat.pos_of_ne_zero inside)
        dsimp only
        split
        · rename_i outside
          have level := (Bool.and_eq_true_iff.mp outside).1
          exact Encloses.clear encloses.items (of_decide_eq_true level)
        · exact ⟨fun _ => List.mem_cons_of_mem _ brace, fun _ => List.mem_cons_of_mem _ brace,
            encloses.items⟩
    · split
      · rename_i ends
        refine Encloses.clear (fun text line member => ?_) ends.2
        rcases List.mem_cons.mp member with same | member
        · cases same
          exact encloses.statement.reverse
        · exact encloses.items text line member
      · rename_i goes
        by_cases semicolon : c = ';'
        · have brace := encloses.depth (Nat.pos_of_ne_zero fun level => goes ⟨semicolon, level⟩)
          exact ⟨fun _ => List.mem_cons_of_mem c brace, fun _ => List.mem_cons_of_mem c brace,
            encloses.items⟩
        · exact encloses.take semicolon line

theorem Encloses.foldl_read (encloses : cutter.Encloses) (line : Nat) (cs : List Char)
    : (cs.foldl (Cutter.read line) cutter).Encloses := by
  induction cs generalizing cutter with
  | nil => exact encloses
  | cons c rest ih => exact ih (encloses.read line c)

theorem Encloses.readLine (encloses : cutter.Encloses) (numbered : Nat × List Char)
    : (cutter.readLine numbered).Encloses := by
  unfold Cutter.readLine
  dsimp only
  split
  · refine ⟨encloses.statement, encloses.depth, fun text line member => ?_⟩
    rcases List.mem_cons.mp member with same | member
    · cases same
    · exact encloses.items text line member
  · have read := encloses.foldl_read numbered.1 numbered.2
    exact ⟨read.statement.cons (by decide),
      fun deeper => List.mem_cons_of_mem _ (read.depth deeper), read.items⟩

theorem Encloses.foldl_readLine (encloses : cutter.Encloses) (lines : List (Nat × List Char))
    : (lines.foldl Cutter.readLine cutter).Encloses := by
  induction lines generalizing cutter with
  | nil => exact encloses
  | cons line rest ih => exact ih (encloses.readLine line)

end Cutter

/-- No statement of a header has a semicolon outside of braces. -/
theorem isBraced_of_mem_items {cs text : List Char} {line : Nat}
    (member : .statement text line ∈ items cs)
    : IsBraced text := by
  have start : Cutter.Encloses (Cutter.clear {}) :=
    .clear (fun _ _ member => absurd member List.not_mem_nil) rfl
  exact (start.foldl_readLine (numberedLines cs)).items text line (List.mem_reverse.mp member)

-----------------------------------------------------------------------------------------
-- Declarations of types
-----------------------------------------------------------------------------------------

/-- The text of a type definition starts as such, and there is a semicolon in it only if there is a
brace.
-/
structure IsTypedef (decl : TypeDecl) : Prop where
  starts : (strip? "typedef ".toList decl.c.toList).isSome
  braced : IsBraced decl.c.toList

theorem types_skipsConstants : Part.types.SkipsConstants :=
  fun _ _ => rfl

theorem types_skipsPrototypes : Part.types.SkipsPrototypes :=
  fun _ _ => rfl

/-- A type is declared with the whole text of its definition. -/
theorem types_readTypedef {context : Context} {line : Nat} {scope : Constant.Scope}
    {text : List Char} {decl : TypeDecl}
    (declared : decl ∈ (readTypedef context line scope text).1.types)
    : decl.c = String.ofList text := by
  have of_name (name : Option String) (declared : decl ∈ (declareType context name text).types)
      : decl.c = String.ofList text := by
    obtain ⟨name, -, rfl⟩ := List.mem_map.mp declared
    rfl
  unfold readTypedef at declared
  split at declared
  · dsimp only at declared
    split at declared
    · rcases List.mem_append.mp declared with enums | declared
      · have absent (group : Option String)
            : decl ∉ (readEnum context group line scope text).1.types :=
          List.eq_nil_iff_forall_not_mem.mp
            (of_readEnum types_skipsConstants context group line scope text) decl
        exact absurd enums (absent _)
      · exact of_name _ declared
    · exact of_name _ declared
  · exact of_name _ declared

/-- What follows `extern` has every sign of the statement that is not in that word. -/
theorem isBraced_of_extern {whole : List Char} (braced : IsBraced whole)
    : IsBraced ((strip? "extern ".toList whole).getD whole) := by
  cases stripped : strip? "extern ".toList whole with
  | none => exact braced
  | some text =>
      have shape := eq_append_of_strip? stripped
      intro member
      have inside := braced (shape ▸ List.mem_append_right _ member)
      rw [shape] at inside
      exact (List.mem_append.mp inside).resolve_left (by decide)

/-- The types of a statement are declared with its words behind `extern`, if it defines types. -/
theorem types_readStatement {context : Context} {line : Nat} {scope : Constant.Scope}
    {raw : List Char} {decl : TypeDecl}
    (declared : decl ∈ (readStatement context line scope raw).1.types)
    : let text := (strip? "extern ".toList (collapse raw)).getD (collapse raw)
      (strip? "typedef ".toList text).isSome = true ∧ decl.c.toList = text := by
  have absent {found : Findings} (none : Part.types.of found = []) : decl ∉ found.types :=
    List.eq_nil_iff_forall_not_mem.mp none decl
  unfold readStatement at declared
  dsimp only at declared ⊢
  generalize (strip? "extern ".toList (collapse raw)).getD (collapse raw) = text at *
  split at declared
  · rename_i starts
    exact ⟨starts, by rw [types_readTypedef declared, String.toList_ofList]⟩
  · split at declared
    · have none := of_readEnum types_skipsConstants context
      exact absurd declared (absent (none _ line scope text))
    · split at declared
      · have none := of_readPrototype types_skipsPrototypes context line text
        exact absurd declared (absent none)
      · exact absurd declared (absent rfl)

theorem isTypedef_of_mem_readItem {context : Context} {scope : Constant.Scope} {item : Item}
    {decl : TypeDecl} (braced : ∀ text line, item = .statement text line → IsBraced text)
    (declared : decl ∈ (readItem context scope item).1.types)
    : IsTypedef decl := by
  cases item with
  | directive text =>
      have none := of_readDirective types_skipsConstants context scope text
      exact absurd declared (List.eq_nil_iff_forall_not_mem.mp none decl)
  | statement raw line =>
      have braced := isBraced_of_extern (braced raw line rfl).collapse
      obtain ⟨starts, same⟩ := types_readStatement declared
      exact ⟨by rw [same, starts], same ▸ braced⟩

/-- Of a header only type definitions are recorded as types. -/
theorem isTypedef_of_mem_read {dialect : Dialect} {fragments : List Fragment} {decl : TypeDecl}
    (declared : decl ∈ (read dialect fragments).types)
    : IsTypedef decl := by
  refine Part.types.forall_mem_collect (fun fragment _ scope decl declared => ?_)
    Constant.Scope.initial decl declared
  unfold readFragment at declared
  rcases List.mem_append.mp declared with declared | declared
  · refine Part.types.forall_mem_collect (fun item member scope decl declared => ?_) scope decl
      declared
    refine isTypedef_of_mem_readItem (fun text line same => ?_) declared
    exact isBraced_of_mem_items (same ▸ member)
  · unfold standFor at declared
    split at declared <;> cases declared

end ApiBindings.Header
