import ApiBindings.Api
import ApiBindings.Code.Spelling
import ApiBindings.Code.Literal
import ApiBindings.Code.TypeItem
import ApiBindings.Proofs.Reading.Enumerations
import ApiBindings.Proofs.Text.Numerals

/-! Identifiers, types, literals and items of generated code have no line feed, whatever the names
and types of a registry have.
-/

namespace ApiBindings.Code

open ApiBindings.Text

-----------------------------------------------------------------------------------------
-- Texts without line feeds
-----------------------------------------------------------------------------------------

/-- A text is a part of one line. -/
def IsUnbroken (text : String) : Prop :=
  '\n' ∉ text.toList

instance (text : String) : Decidable (IsUnbroken text) :=
  inferInstanceAs (Decidable (¬_))

@[simp]
theorem isUnbroken_append {front back : String}
    : IsUnbroken (front ++ back) ↔ IsUnbroken front ∧ IsUnbroken back := by
  simp [IsUnbroken]

theorem isUnbroken_ofList {chars : List Char} (solid : '\n' ∉ chars)
    : IsUnbroken (String.ofList chars) := by
  rwa [IsUnbroken, String.toList_ofList]

/-- A fixed text is split by its characters. -/
theorem ofList_eq_append {whole front back : List Char} (same : whole = front ++ back)
    : String.ofList whole = String.ofList front ++ String.ofList back := by
  rw [same, String.ofList_append]

theorem not_mem_intercalate {c : Char} {separator : String} (apart : c ∉ separator.toList)
    {parts : List String} (absent : ∀ part ∈ parts, c ∉ part.toList)
    : c ∉ (separator.intercalate parts).toList := by
  induction parts with
  | nil => simp
  | cons first rest ih =>
      obtain ⟨here, later⟩ := List.forall_mem_cons.mp absent
      cases rest with
      | nil => rwa [String.intercalate_singleton]
      | cons second rest =>
          rw [String.intercalate_cons_cons, String.toList_append, String.toList_append]
          exact List.not_mem_append (List.not_mem_append here apart) (ih later)

theorem isUnbroken_intercalate {separator : String} (apart : IsUnbroken separator)
    {parts : List String} (solid : ∀ part ∈ parts, IsUnbroken part)
    : IsUnbroken (separator.intercalate parts) :=
  not_mem_intercalate apart solid

theorem isUnbroken_of_words {name : String} (words : ∀ c ∈ name.toList, isWordChar c = true)
    : IsUnbroken name := by
  intro member
  have word := words '\n' member
  revert word
  decide

theorem isUnbroken_map {part : Char → Char} {chars : List Char} (solid : '\n' ∉ chars.map part)
    : IsUnbroken ((String.ofList chars).map part) := by
  rwa [IsUnbroken, String.toList_map, String.toList_ofList]

theorem isUnbroken_title (api : Api) : IsUnbroken api.title := by
  cases api <;> exact isUnbroken_map (by decide)

-----------------------------------------------------------------------------------------
-- Identifiers
-----------------------------------------------------------------------------------------

theorem isWordChar_of_isAlphanum {c : Char} (alphanum : c.isAlphanum = true)
    : isWordChar c = true := by
  rcases Bool.or_eq_true_iff.mp alphanum with letter | digit
  · exact isWordChar_of_isNameStart (Bool.or_eq_true_iff.mpr (.inl letter))
  · have ascii : c.toNat < 0x80 := by
      simp only [Char.isDigit, Bool.and_eq_true, decide_eq_true_eq] at digit
      have last : c.toNat ≤ 57 := digit.2
      omega
    simp [isWordChar, ascii, alphanum]

theorem isWordChar_identChar (c : Char) : isWordChar (identChar c) = true := by
  unfold identChar
  split
  · rename_i allowed
    rcases Bool.or_eq_true_iff.mp allowed with alphanum | underscore
    · exact isWordChar_of_isAlphanum alphanum
    · rw [eq_of_beq underscore]
      decide
  · decide

/-- Identifiers are made of word characters, by the steps in which they are made. -/
theorem isWordChar_of_mem_ident (name : String)
    : ∀ c ∈ (ident name).toList, isWordChar c = true := by
  have start : ∀ c ∈ guardStart (name.toList.map identChar), isWordChar c = true := by
    have mapped : ∀ c ∈ name.toList.map identChar, isWordChar c = true := by
      simpa using fun c _ => isWordChar_identChar c
    unfold guardStart
    split
    · decide
    · split
      · exact List.forall_mem_cons.mpr ⟨by decide, mapped⟩
      · exact mapped
  unfold ident guardKeyword
  split
  · rw [String.toList_push, String.toList_ofList]
    exact List.forall_mem_append.mpr ⟨start, by decide⟩
  · rwa [String.toList_ofList]

theorem isUnbroken_ident (name : String) : IsUnbroken (ident name) :=
  isUnbroken_of_words (isWordChar_of_mem_ident name)

-----------------------------------------------------------------------------------------
-- Types
-----------------------------------------------------------------------------------------

theorem isUnbroken_of_mem_words {text word : List Char} (member : word ∈ words text)
    : '\n' ∉ word := by
  intro inside
  have blank : isBlank '\n' = false :=
    keeps_of_mem_cut (List.mem_filter.mp member).1 '\n' inside
  revert blank
  decide

theorem mem_base_read {p : CType.Reading} {word other : String}
    (member : other ∈ (p.read word).base)
    : other ∈ p.base ∨ other = word := by
  unfold CType.Reading.read at member
  split at member
  · exact .inl member
  · split at member
    · exact .inl member
    · split at member
      · exact .inl member
      · simpa using member

/-- The base of a type consists of some of its words. By induction on the words. -/
theorem mem_base_foldl_read {words : List String} {p : CType.Reading} {other : String}
    (member : other ∈ (words.foldl CType.Reading.read p).base)
    : other ∈ p.base ∨ other ∈ words := by
  induction words generalizing p with
  | nil => exact .inl member
  | cons word words ih =>
      rcases ih member with earlier | later
      · rcases mem_base_read earlier with before | rfl
        · exact .inl before
        · exact .inr List.mem_cons_self
      · exact .inr (List.mem_cons_of_mem word later)

theorem isUnbroken_of_mem_base {c word : String} (member : word ∈ (CType.parse c).base)
    : IsUnbroken word := by
  rcases mem_base_foldl_read member with absent | among
  · cases absent
  · obtain ⟨chars, cut, rfl⟩ := List.mem_map.mp among
    exact isUnbroken_ofList (isUnbroken_of_mem_words cut)

theorem isUnbroken_primitives : ∀ entry ∈ primitives, IsUnbroken entry.2 := by
  decide +kernel

theorem isUnbroken_spellBase {path : String} (solid : IsUnbroken path) (c : String)
    : IsUnbroken (spellBase path (CType.parse c)) := by
  have last : IsUnbroken ((CType.parse c).base.getLastD "") := by
    rw [List.getLastD_eq_getLast?]
    cases found : (CType.parse c).base.getLast? with
    | none => exact isUnbroken_ofList (by decide)
    | some word => exact isUnbroken_of_mem_base (List.mem_of_getLast? found)
  unfold spellBase
  split
  · split <;> exact isUnbroken_ofList (by decide)
  · split
    · rename_i spelling found
      obtain ⟨front, back, shape, -⟩ := List.lookup_eq_some_iff.mp found
      exact isUnbroken_primitives (_, spelling) (shape ▸ List.mem_append_cons_self)
    · exact isUnbroken_append.mpr ⟨solid, last⟩

theorem isUnbroken_foldl_point (levels : List Bool) {spelling : String}
    (solid : IsUnbroken spelling)
    : IsUnbroken (levels.foldl point spelling) := by
  induction levels generalizing spelling with
  | nil => exact solid
  | cons isConst levels ih =>
      refine ih (isUnbroken_append.mpr ⟨?_, solid⟩)
      cases isConst <;> exact isUnbroken_ofList (by decide)

theorem isUnbroken_spell {path : String} (solid : IsUnbroken path) (c : String)
    : IsUnbroken (spell path (CType.parse c)) := by
  unfold spell
  split
  · exact isUnbroken_ofList (by decide)
  · exact isUnbroken_foldl_point _ (isUnbroken_spellBase solid c)

theorem isUnbroken_paramType (param : Param) : IsUnbroken (paramType param) :=
  isUnbroken_spell (isUnbroken_ofList (by decide)) param.type

theorem isUnbroken_returnType (command : Command) : IsUnbroken (returnType command) :=
  isUnbroken_spell (isUnbroken_ofList (by decide)) command.returns

theorem isUnbroken_typedParam (param : Param) : IsUnbroken (typedParam param) := by
  unfold typedParam
  rw [isUnbroken_append, isUnbroken_append]
  exact ⟨⟨isUnbroken_ident param.name, isUnbroken_ofList (by decide)⟩, isUnbroken_paramType param⟩

-----------------------------------------------------------------------------------------
-- Literals
-----------------------------------------------------------------------------------------

theorem isUnbroken_of_spells {base n : Nat} {digits : String}
    (spells : Spells base digits.toList n) (least : base ≤ 16)
    : IsUnbroken digits := by
  intro member
  have fits := spells.fits '\n' member
  have value : digitValue '\n' = 16 := by decide
  omega

theorem isUnbroken_hex (width n : Nat) : IsUnbroken (hex width n) :=
  isUnbroken_of_spells (spells_hex width n) (Nat.le_refl 16)

theorem isUnbroken_int (n : Int) : IsUnbroken (toString n) := by
  have natural (n : Nat) : IsUnbroken n.repr := isUnbroken_of_spells (spells_repr n) (by decide)
  rw [Int.toString_eq_repr, Int.repr_eq_if]
  split
  · exact natural _
  · exact isUnbroken_append.mpr ⟨isUnbroken_ofList (by decide), natural _⟩

theorem isUnbroken_literal (type : IntType) (value : Value) : IsUnbroken (literal type value) := by
  unfold literal
  split
  · exact isUnbroken_append.mpr ⟨isUnbroken_ofList (by decide), isUnbroken_hex 1 _⟩
  · exact isUnbroken_append.mpr ⟨isUnbroken_ofList (by decide), isUnbroken_hex 4 _⟩
  · split
    · rw [isUnbroken_append, isUnbroken_append]
      exact ⟨⟨isUnbroken_ofList (by decide), isUnbroken_hex 8 _⟩, isUnbroken_ofList (by decide)⟩
    · exact isUnbroken_int _

-----------------------------------------------------------------------------------------
-- Items
-----------------------------------------------------------------------------------------

/-- The items of types start in one of two ways, and are one line. -/
structure IsTypeItem (item : String) : Prop where
  starts : ∃ rest, item = "pub type " ++ rest ∨ item = "#[repr(C)] pub struct " ++ rest
  solid : IsUnbroken item

theorem isTypeItem_alias (name : String) {type : String} (solid : IsUnbroken type)
    : IsTypeItem (aliasItem name type) := by
  have item
      : aliasItem name type = "pub type " ++ (ident name ++ (" = " ++ (type ++ ";"))) := by
    unfold aliasItem
    rw [String.append_assoc, String.append_assoc, String.append_assoc]
  constructor
  · exact ⟨_, .inl item⟩
  · rw [item, isUnbroken_append, isUnbroken_append, isUnbroken_append, isUnbroken_append]
    exact ⟨isUnbroken_ofList (by decide), isUnbroken_ident name, isUnbroken_ofList (by decide),
      solid, isUnbroken_ofList (by decide)⟩

theorem isTypeItem_opaque (name : String) : IsTypeItem (opaqueItem name) := by
  have item
      : opaqueItem name
        = "#[repr(C)] pub struct " ++ (ident name ++ " \x7b _opaque: [u8; 0] \x7d") := by
    unfold opaqueItem
    exact String.append_assoc
  constructor
  · exact ⟨_, .inr item⟩
  · rw [item, isUnbroken_append, isUnbroken_append]
    exact ⟨isUnbroken_ofList (by decide), isUnbroken_ident name, isUnbroken_ofList (by decide)⟩

theorem isUnbroken_of_lengthAtEnd? {cs length : List Char}
    (ends : lengthAtEnd? cs = some (some length))
    : '\n' ∉ length := by
  unfold lengthAtEnd? at ends
  split at ends
  · cases ends
  · rename_i rest
    dsimp only at ends
    split at ends
    · cases ends
      intro member
      have word := List.mem_takeWhile_imp member
      revert word
      decide
    · cases ends
  · cases ends

theorem isUnbroken_of_nameAtEnd? {before : Option Char} {cs declared length : List Char}
    (found : nameAtEnd? before cs = some (declared, some length))
    : '\n' ∉ length := by
  obtain ⟨⟨word, rest⟩, -, found⟩ := Option.bind_eq_some_iff.mp found
  dsimp only at found
  split at found
  · obtain ⟨other, ends, same⟩ := Option.bind_eq_some_iff.mp found
    cases same
    exact isUnbroken_of_lengthAtEnd? ends
  · cases found

theorem isTypeItem_of_definitionItem? {name item : String} {body : List Char}
    (found : definitionItem? name body = some item)
    : IsTypeItem item := by
  unfold definitionItem? at found
  split at found
  · split at found
    · cases found
      exact isTypeItem_alias name (isUnbroken_ofList (by decide))
    · split at found
      · cases found
        exact isTypeItem_alias name (isUnbroken_ofList (by decide))
      · cases found
        exact isTypeItem_opaque name
  · split at found
    · cases found
      exact isTypeItem_alias name (isUnbroken_ofList (by decide))
    · obtain ⟨⟨type, declared, length⟩, finds, found⟩ := Option.bind_eq_some_iff.mp found
      obtain ⟨before, rest, -, ends⟩ := exists_append_of_find? finds
      have path : IsUnbroken "" := isUnbroken_ofList (by decide)
      have spelled := isUnbroken_spell path (String.ofList type)
      dsimp only at found
      split at found
      · split at found
        · cases found
          exact isTypeItem_alias name spelled
        · cases found
          refine isTypeItem_alias name (isUnbroken_append.mpr ?_)
          exact ⟨isUnbroken_ofList (by decide), spelled⟩
        · rename_i length _
          cases found
          have solid := isUnbroken_ofList (isUnbroken_of_nameAtEnd? ends)
          refine isTypeItem_alias name ?_
          rw [isUnbroken_append, isUnbroken_append, isUnbroken_append, isUnbroken_append]
          exact ⟨⟨⟨⟨isUnbroken_ofList (by decide), spelled⟩, isUnbroken_ofList (by decide)⟩, solid⟩,
            isUnbroken_ofList (by decide)⟩
      · cases found

/-- Every type that has an item has it on a line of its own. -/
theorem isTypeItem_of_typeItem? {decl : TypeDecl} {item : String}
    (found : typeItem? decl = some item)
    : IsTypeItem item := by
  unfold typeItem? at found
  split at found
  · exact isTypeItem_of_definitionItem? found
  · split at found
    · cases found
      exact isTypeItem_opaque decl.name
    · cases found

end ApiBindings.Code
