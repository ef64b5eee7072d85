import ApiBindings.Header.Reader
import ApiBindings.Proofs.Reading.Declarators
import ApiBindings.Proofs.Reading.Markers
import ApiBindings.Proofs.Text.Pieces
import Mathlib.Data.List.Forall2

/-! What a header makes of a prototype.
A prototype is a type, a name, and parameters in parentheses, each of them a type, a name, and array
lengths. Read back, its types are collapsed and every array length is one more star. A parameter
whose type is only a qualifier to the reader, or whose name is a word of types, is read as one
without a name.
-/

namespace ApiBindings.Header

open ApiBindings.Text

-----------------------------------------------------------------------------------------
-- Prototypes
-----------------------------------------------------------------------------------------

/-- Words and stars in front of a name, the first of them at the front of the text. -/
structure FrontsName (type : List Char) : Prop where
  chars : IsTypeText type
  starts : StartsWord type
  ends : EndsBefore type

/-- A parameter as it is written: its type, its name, and the lengths in brackets behind it. -/
structure Parameter where
  type : List Char
  name : List Char
  lengths : List (List Char)

namespace Parameter

def brackets (lengths : List (List Char)) : List Char :=
  lengths.flatMap fun length => '[' :: length ++ [']']

def text (param : Parameter) : List Char :=
  param.type ++ (param.name ++ brackets param.lengths)

/-- The parameter with its blanks collapsed. -/
def collapsed (param : Parameter) : Parameter :=
  { param with type := collapseBefore param.type }

/-- One star for each array length. -/
def stars (count : Nat) : List Char :=
  (List.replicate count " *".toList).flatten

/-- What the parameter declares. -/
def declared (param : Parameter) : Param :=
  .declare (String.ofList param.name)
    (String.ofList (collapse param.type ++ stars param.lengths.length))

/-- What the parameter is read as at a position. -/
def readAt (param : Parameter) (position : Nat) : Param :=
  if isType param.type && !typeWords.contains (String.ofList param.name) then
    param.declared
  else
    .declare ("arg" ++ toString position) (String.ofList param.collapsed.text)

/-- The type is in front of a name, and the lengths are words or empty. -/
structure IsWritten (param : Parameter) : Prop where
  type : FrontsName param.type
  name : isIdentifier param.name = true
  lengths : ∀ length ∈ param.lengths, ∀ c ∈ length, isWordChar c = true

/-- The type says more than a qualifier does, the name is no word of a type, and the lengths are
words or empty.
-/
structure IsProper (param : Parameter) : Prop where
  type : FrontsName param.type
  isType : isType param.type = true
  name : isIdentifier param.name = true
  isName : String.ofList param.name ∉ typeWords
  lengths : ∀ length ∈ param.lengths, ∀ c ∈ length, isWordChar c = true

end Parameter

/-- A function as it is written. -/
structure Function where
  returns : List Char
  name : List Char
  params : List Parameter

namespace Function

def inner (function : Function) : List Char :=
  ", ".toList.intercalate (function.params.map Parameter.text)

def text (function : Function) : List Char :=
  function.returns ++ (function.name ++ ('(' :: function.inner ++ [')']))

/-- The function with its blanks collapsed. -/
def collapsed (function : Function) : Function :=
  { function with
    returns := collapseBefore function.returns
    params := function.params.map Parameter.collapsed }

structure IsWritten (function : Function) : Prop where
  returns : FrontsName function.returns
  name : isIdentifier function.name = true
  params : ∀ param ∈ function.params, param.IsWritten

structure IsProper (function : Function) : Prop where
  returns : FrontsName function.returns
  name : isIdentifier function.name = true
  params : ∀ param ∈ function.params, param.IsProper

end Function

-----------------------------------------------------------------------------------------
-- Layout
-----------------------------------------------------------------------------------------

theorem FrontsName.collapsed {type : List Char} (fronts : FrontsName type)
    : FrontsName (collapseBefore type) where
  chars := fronts.chars.collapseBefore
  starts := by
    obtain ⟨c, rest, rfl, word⟩ := fronts.starts
    obtain ⟨rest, shape⟩ := exists_collapseBefore_cons word rest
    exact ⟨c, rest, shape, word⟩
  ends := fronts.ends.collapseBefore

namespace Parameter

variable {param : Parameter}

theorem isBlank_brackets {lengths : List (List Char)}
    (words : ∀ length ∈ lengths, ∀ c ∈ length, isWordChar c = true)
    : ∀ c ∈ brackets lengths, isBlank c = false := by
  intro c member
  obtain ⟨length, among, member⟩ := List.mem_flatMap.mp member
  rcases List.mem_append.mp member with member | member
  · rcases List.mem_cons.mp member with rfl | member
    · decide
    · exact not_isBlank_of_isWordChar (words length among c member)
  · obtain rfl := List.mem_singleton.mp member
    decide

theorem IsProper.isWritten (proper : param.IsProper) : param.IsWritten :=
  ⟨proper.type, proper.name, proper.lengths⟩

theorem IsWritten.collapsed (written : param.IsWritten) : param.collapsed.IsWritten where
  type := written.type.collapsed
  name := written.name
  lengths := written.lengths

theorem isType_collapsed (param : Parameter) : isType param.collapsed.type = isType param.type := by
  rw [collapsed, isType, words_collapseBefore]
  rfl

theorem IsWritten.startsWord (written : param.IsWritten) : StartsWord param.text :=
  written.type.starts.append _

theorem IsWritten.collapseBefore_text (written : param.IsWritten)
    : collapseBefore param.text = param.collapsed.text := by
  have solid : ∀ c ∈ param.name ++ brackets param.lengths, isBlank c = false :=
    List.forall_mem_append.mpr
      ⟨isBlank_of_isIdentifier written.name, isBlank_brackets written.lengths⟩
  have starts := (startsWord_of_isIdentifier written.name).append (brackets param.lengths)
  rw [text, collapseBefore_append starts, collapseBefore_eq_self solid]
  rfl

end Parameter

/-- A name behind a type and in front of parentheses is that of a prototype. -/
theorem prototype?_call {returns name : List Char} (fronts : FrontsName returns)
    (identifier : isIdentifier name = true) (inner : List Char)
    : prototype? (returns ++ (name ++ ('(' :: inner ++ [')']))) =
        some { returns := trim returns, name, params := inner } := by
  have ends : EndsName ('(' :: (inner ++ [')'])) := by
    intro c first
    cases first
    decide
  have opening : trimStart ('(' :: (inner ++ [')'])) = '(' :: (inner ++ [')']) :=
    trimStart_cons (by decide)
  have here (before : Option Char) (outside : ∀ c ∈ before, isWordChar c = false)
      : callAt? before (name ++ ('(' :: (inner ++ [')']))) = some (name, inner) := by
    rw [callAt?, if_pos (isBoundary_of_isIdentifier identifier outside _),
      identifier?_append identifier ends]
    simp [opening, strip?]
  rw [prototype?, find?_append, Option.or_none, List.cons_append, find?_of_some (here _ fronts.ends)]
  · simp
  · intro first c later shape
    have inside := identifier?_in_type fronts.chars fronts.ends identifier shape
      ('(' :: inner ++ [')'])
    rw [callAt?]
    split
    · rcases inside with missing | ⟨word, rest, d, others, found, behind, other, -⟩
      · rw [missing]
        rfl
      · rw [found]
        simp [behind, strip?_cons_of_ne other.symm]
    · rfl

/-- A prototype collapses part by part. -/
theorem collapse_call {returns name : List Char} (identifier : isIdentifier name = true)
    (inner : List Char)
    : collapse (returns ++ (name ++ ('(' :: inner ++ [')']))) =
        collapseBefore returns ++ (name ++ (collapseBefore ('(' :: inner) ++ [')'])) := by
  have opening (cs : List Char) : StartsWord ('(' :: cs) := ⟨'(', cs, rfl, by decide⟩
  have closing : StartsWord [')'] := ⟨')', [], rfl, by decide⟩
  have named := startsWord_of_isIdentifier identifier
  rw [collapse_append (named.append _), List.cons_append, collapse_append (opening _),
    ← List.cons_append, collapse_append closing,
    collapseBefore_eq_self (isBlank_of_isIdentifier identifier), collapse_singleton (by decide)]

/-- Parameters between commas are collapsed one by one. By induction on the parameters. -/
theorem collapseBefore_intercalate {params : List Parameter}
    (written : ∀ param ∈ params, param.IsWritten)
    : collapseBefore (", ".toList.intercalate (params.map Parameter.text)) =
        ", ".toList.intercalate ((params.map Parameter.collapsed).map Parameter.text) := by
  induction params with
  | nil => rfl
  | cons first rest ih =>
      obtain ⟨here, later⟩ := List.forall_mem_cons.mp written
      cases rest with
      | nil => simpa [List.intercalate] using here.collapseBefore_text
      | cons second rest =>
          have comma (cs : List Char) : StartsWord (", ".toList ++ cs) :=
            ⟨',', ' ' :: cs, rfl, by decide⟩
          have step (cs : List Char)
              : collapseBefore (", ".toList ++ cs) = ", ".toList ++ collapseBefore cs := by
            have blank : isBlank ' ' = true := by decide
            change collapseBefore (',' :: ' ' :: cs) = ',' :: ' ' :: collapseBefore cs
            rw [collapseBefore_cons_cons_of_blank (by decide) blank,
              collapseBefore_cons_of_blank blank]
          have ih := ih later
          simp only [List.map_cons] at ih ⊢
          rw [List.intercalate_cons_cons, List.append_assoc, collapseBefore_append (comma _), step,
            ih, here.collapseBefore_text, List.intercalate_cons_cons, List.append_assoc]

namespace Function

variable {function : Function}

theorem IsProper.isWritten (proper : function.IsProper) : function.IsWritten :=
  ⟨proper.returns, proper.name, fun param member => (proper.params param member).isWritten⟩

theorem IsWritten.collapsed (written : function.IsWritten) : function.collapsed.IsWritten where
  returns := written.returns.collapsed
  name := written.name
  params := List.forall_mem_map.mpr fun param member => (written.params param member).collapsed

theorem IsWritten.collapseBefore_inner (written : function.IsWritten)
    : collapseBefore function.inner = function.collapsed.inner :=
  collapseBefore_intercalate written.params

theorem IsWritten.startsWord_inner (written : function.IsWritten) (takes : function.params ≠ [])
    : StartsWord function.inner := by
  obtain ⟨first, rest, shape⟩ := List.exists_cons_of_ne_nil takes
  have front := (written.params first (shape ▸ List.mem_cons_self)).startsWord
  rw [inner, shape, List.map_cons]
  cases rest with
  | nil => simpa using front
  | cons second rest =>
      rw [List.map_cons, List.intercalate_cons_cons, List.append_assoc]
      exact front.append _

theorem IsWritten.collapse_text (written : function.IsWritten)
    : collapse function.text = function.collapsed.text := by
  have inner : collapseBefore ('(' :: function.inner) = '(' :: function.collapsed.inner := by
    rw [← written.collapseBefore_inner]
    by_cases takes : function.params = []
    · rw [Function.inner, takes]
      exact collapseBefore_singleton (by decide)
    · exact collapseBefore_cons_of_startsWord (by decide) (written.startsWord_inner takes)
  rw [text, collapse_call written.name, inner]
  rfl

end Function

-----------------------------------------------------------------------------------------
-- Parameters
-----------------------------------------------------------------------------------------

namespace Parameter

variable {param : Parameter} {lengths : List (List Char)}

theorem brackets_cases (lengths : List (List Char))
    : brackets lengths = [] ∨ ∃ rest, brackets lengths = '[' :: rest := by
  cases lengths with
  | nil => exact .inl rfl
  | cons first rest => exact .inr ⟨_, rfl⟩

theorem trimStart_brackets (lengths : List (List Char))
    : trimStart (brackets lengths) = brackets lengths := by
  rcases brackets_cases lengths with empty | ⟨rest, shape⟩
  · rw [empty]
    rfl
  · rw [shape]
    exact trimStart_cons (by decide)

theorem endsName_brackets (lengths : List (List Char)) : EndsName (brackets lengths) := by
  intro c first
  rcases brackets_cases lengths with empty | ⟨rest, shape⟩
  · rw [empty] at first
    cases first
  · rw [shape] at first
    cases first
    decide

/-- Array lengths in brackets are counted. By induction on the lengths. -/
theorem arrays?_brackets (words : ∀ length ∈ lengths, ∀ c ∈ length, isWordChar c = true)
    : arrays? (brackets lengths) = some lengths.length := by
  induction lengths with
  | nil => rw [brackets, List.flatMap_nil, arrays?, List.length_nil]
  | cons first rest ih =>
      obtain ⟨here, later⟩ := List.forall_mem_cons.mp words
      have plain : '[' ∉ first := fun member => absurd (here _ member) (by decide)
      have unended : ']' ∉ first := fun member => absurd (here _ member) (by decide)
      have passed := bne_of_not_mem unended
      have shape : brackets (first :: rest) = '[' :: (first ++ ']' :: brackets rest) := by
        simp [brackets]
      have behind
          : (first ++ ']' :: brackets rest).dropWhile (· != ']') = ']' :: brackets rest := by
        rw [List.dropWhile_append_of_pos passed]
        simp
      have inside : (first ++ ']' :: brackets rest).takeWhile (· != ']') = first := by
        rw [List.takeWhile_append_of_pos passed]
        simp
      rw [shape, arrays?]
      split
      · rename_i found
        rw [behind] at found
        obtain ⟨rfl, rfl⟩ := List.cons.inj found
        rw [trimStart_brackets, ih later, inside, List.count_eq_zero_of_not_mem plain]
        rfl
      · rename_i missing
        rw [behind] at missing
        cases missing

theorem nameBeforeArrays?_text (written : param.IsWritten)
    : find? (fun _ rest => nameBeforeArrays? rest) none param.text =
        some (param.type, param.name, param.lengths.length) := by
  have here : nameBeforeArrays? (param.name ++ brackets param.lengths) =
      some (param.name, param.lengths.length) := by
    rw [nameBeforeArrays?, identifier?_append written.name (endsName_brackets _)]
    simp [trimStart_brackets, arrays?_brackets written.lengths]
  rw [text, find?_append, find?_of_some here]
  · simp
  · intro first c later shape
    have inside := identifier?_in_type written.type.chars written.type.ends written.name shape
      (brackets param.lengths)
    rcases inside with missing | ⟨word, rest, d, others, found, behind, -, other⟩
    · rw [nameBeforeArrays?, missing]
      rfl
    · rw [nameBeforeArrays?, found]
      simp [behind, arrays?, other]

/-- Stars are words of their own, so they are collapsed already. By induction on their number. -/
theorem collapse_append_stars {type : List Char} (starts : StartsWord type) (count : Nat)
    : collapse (type ++ stars count) = collapse type ++ stars count := by
  induction count with
  | zero => simp [stars]
  | succ count ih =>
      have shape : stars (count + 1) = stars count ++ ' ' :: ['*'] := by
        simp [stars, List.replicate_succ']
      have more := (starts.append (stars count)).words_ne_nil
      rw [shape, ← List.append_assoc,
        collapse_append_cons_of_blank _ _ (by decide) more (by decide), ih, List.append_assoc]
      rfl

/-- There are no parentheses in a parameter. -/
theorem IsWritten.not_mem_text (written : param.IsWritten) : '(' ∉ param.text := by
  have absent : '(' ∉ brackets param.lengths := by
    intro member
    obtain ⟨length, among, member⟩ := List.mem_flatMap.mp member
    rcases List.mem_append.mp member with member | closing
    · rcases List.mem_cons.mp member with opening | member
      · cases opening
      · exact absurd (written.lengths length among _ member) (by decide)
    · cases List.mem_singleton.mp closing
  simp only [text, List.mem_append, not_or]
  exact ⟨written.type.chars.not_mem (by decide) (by decide) (by decide),
    not_mem_of_isIdentifier written.name (by decide), absent⟩

/-- A parameter that is one to the reader reads back as what it declares. -/
theorem IsProper.readAt (proper : param.IsProper) (position : Nat)
    : param.readAt position = param.declared := by
  have isName : typeWords.contains (String.ofList param.name) = false := by
    rw [Bool.eq_false_iff]
    exact fun contains => proper.isName (List.contains_iff_mem.mp contains)
  rw [Parameter.readAt, proper.isType, isName]
  rfl

/-- A parameter reads back with its name, or without one. -/
theorem readParam_text (written : param.IsWritten) (position : Nat)
    : readParam position param.collapsed.text = .ok (param.readAt position) := by
  have collapsed := written.collapsed
  obtain ⟨c, member⟩ := List.exists_mem_of_ne_nil param.name (ne_nil_of_isIdentifier written.name)
  have inside : c ∈ param.collapsed.text :=
    List.mem_append_right _ (List.mem_append_left _ member)
  have full : param.collapsed.text.isEmpty = false := by
    simpa using List.ne_nil_of_mem inside
  have named : param.collapsed.text ≠ "...".toList := by
    intro same
    have plain : ∀ c ∈ "...".toList, isWordChar c = false := by decide
    have word := isWordChar_of_isIdentifier written.name c member
    rw [plain c (same ▸ inside)] at word
    cases word
  have noPointer := findFunctionPointer?_eq_none collapsed.not_mem_text
  have type : Text.collapse (trim param.collapsed.type ++ stars param.lengths.length) =
      Text.collapse param.type ++ stars param.lengths.length := by
    rw [Parameter.collapsed, trim_collapseBefore,
      collapse_append_stars written.type.starts.collapse, collapse_collapse]
  rw [readParam, full, if_neg (by decide), if_neg named, noPointer]
  dsimp only
  rw [nameBeforeArrays?_text collapsed]
  dsimp only
  have name : param.collapsed.name = param.name := rfl
  rw [isType_collapsed, name, readAt, declared, ← type]
  split
  · rfl
  · rfl

/-- A comma does not cut words, blanks and stars. -/
theorem isPiece_of_isTypeText {text : List Char} (type : IsTypeText text) (depth : Nat)
    : IsPiece ',' depth text := by
  have absent : ∀ sign ∈ "()[],".toList, sign ∉ text := by
    have apart : ∀ sign ∈ "()[],".toList,
        isWordChar sign = false ∧ isBlank sign = false ∧ sign ≠ '*' := by decide
    intro sign member
    obtain ⟨word, blank, star⟩ := apart sign member
    exact type.not_mem word blank star
  refine isPiece_of_plain fun c member => ⟨fun sign => ?_, ?_⟩
  · exact absent c (List.mem_append_left [','] sign) member
  · rintro rfl
    exact absent ',' (by decide) member

/-- A comma does not cut array lengths. By induction on the lengths. -/
theorem isPiece_brackets (words : ∀ length ∈ lengths, ∀ c ∈ length, isWordChar c = true)
    : IsPiece ',' 0 (brackets lengths) := by
  induction lengths with
  | nil => exact isPiece_nil
  | cons first rest ih =>
      obtain ⟨here, later⟩ := List.forall_mem_cons.mp words
      have inside := isPiece_of_isTypeText (isTypeText_of_isWordChar here) 1
      rw [brackets, List.flatMap_cons]
      exact (isPiece_bracketed inside (by decide)).append (ih later)

/-- A comma does not cut a parameter. -/
theorem IsWritten.isPiece_text (written : param.IsWritten) : IsPiece ',' 0 param.text := by
  have type := isPiece_of_isTypeText written.type.chars 0
  have name :=
    isPiece_of_isTypeText (isTypeText_of_isWordChar (isWordChar_of_isIdentifier written.name)) 0
  exact type.append (name.append (isPiece_brackets written.lengths))

/-- A parameter ends in its name or in a bracket. -/
theorem IsWritten.exists_concat (written : param.IsWritten)
    : ∃ front last, param.text = front ++ [last] ∧ isBlank last = false := by
  have solid : ∀ c ∈ param.name ++ brackets param.lengths, isBlank c = false :=
    List.forall_mem_append.mpr
      ⟨isBlank_of_isIdentifier written.name, isBlank_brackets written.lengths⟩
  have nonempty : param.name ++ brackets param.lengths ≠ [] :=
    fun empty => ne_nil_of_isIdentifier written.name (List.append_eq_nil_iff.mp empty).1
  have shape := List.dropLast_concat_getLast nonempty
  refine ⟨param.type ++ (param.name ++ brackets param.lengths).dropLast, _, ?_,
    solid _ (List.getLast_mem nonempty)⟩
  rw [List.append_assoc, shape, text]

/-- A parameter has no blanks at its ends once it is collapsed. -/
theorem IsWritten.trim_text (written : param.IsWritten)
    : trim param.collapsed.text = param.collapsed.text := by
  obtain ⟨front, last, shape, word⟩ := written.exists_concat
  rw [← written.collapseBefore_text, shape, collapseBefore_eq_collapse word, trim_collapse]

end Parameter

theorem mem_intercalate_cons {separator first : List Char} {rest : List (List Char)} {c : Char}
    (member : c ∈ first)
    : c ∈ separator.intercalate (first :: rest) := by
  cases rest with
  | nil => simpa using member
  | cons second rest =>
      rw [List.intercalate_cons_cons, List.append_assoc]
      exact List.mem_append_left _ member

/-- Parameters between commas end like the last one. By induction on the parameters. -/
theorem exists_concat_intercalate {params : List Parameter}
    (written : ∀ param ∈ params, param.IsWritten) (nonempty : params ≠ [])
    : ∃ front last,
        ", ".toList.intercalate (params.map Parameter.text) = front ++ [last]
        ∧ isBlank last = false := by
  induction params with
  | nil => exact absurd rfl nonempty
  | cons first rest ih =>
      obtain ⟨here, later⟩ := List.forall_mem_cons.mp written
      cases rest with
      | nil => simpa using here.exists_concat
      | cons second rest =>
          obtain ⟨front, last, shape, word⟩ := ih later (List.cons_ne_nil second rest)
          refine ⟨first.text ++ ", ".toList ++ front, last, ?_, word⟩
          simp only [List.map_cons] at shape ⊢
          rw [List.intercalate_cons_cons, shape, ← List.append_assoc]

/-- Parameters read back one by one, each behind a blank or not. By induction on the parameters. -/
theorem readParamsFrom_texts {params : List Parameter} {texts : List (List Char)}
    (written : ∀ param ∈ params, param.IsWritten)
    (same
      : List.Forall₂ (fun text param => trim text = Parameter.text param.collapsed) texts params)
    (position : Nat)
    : readParamsFrom position texts =
        .ok (params.mapIdx fun index param => param.readAt (position + index)) := by
  induction same generalizing position with
  | nil => rfl
  | @cons text param texts params here later ih =>
      obtain ⟨first, others⟩ := List.forall_mem_cons.mp written
      have shifted (index : Nat) : position + 1 + index = position + (index + 1) := by omega
      rw [readParamsFrom, here, Parameter.readParam_text first, ih others, List.mapIdx_cons]
      simp only [shifted]
      rfl

namespace Function

variable {function : Function}

theorem inner_eq_collapse (written : function.IsWritten)
    : function.collapsed.inner = collapse function.inner := by
  rw [← written.collapseBefore_inner]
  by_cases takes : function.params = []
  · rw [inner, takes]
    rfl
  · obtain ⟨front, last, whole, word⟩ := exists_concat_intercalate written.params takes
    rw [inner, whole, collapseBefore_eq_collapse word]

/-- Where every parameter is one to the reader, they read back as what they declare. -/
theorem IsProper.readAt (proper : function.IsProper)
    : (function.params.mapIdx fun index param => param.readAt index) =
        function.params.map Parameter.declared :=
  List.ext_getElem (by simp) fun index inside _ => by
    have among : index < function.params.length := by simpa using inside
    simpa using (proper.params _ (List.getElem_mem among)).readAt index

/-- A type that ends before a name does not end in a word, so a function that takes parameters does
not take `void`.
-/
theorem IsWritten.inner_ne (written : function.IsWritten) (takes : function.params ≠ [])
    : function.inner ≠ [] ∧ function.inner ≠ "void".toList := by
  obtain ⟨first, rest, shape⟩ := List.exists_cons_of_ne_nil takes
  have type := (written.params first (shape ▸ List.mem_cons_self)).type
  obtain ⟨c, last⟩ : ∃ c, first.type.getLast? = some c :=
    ⟨_, List.getLast?_eq_some_getLast type.starts.ne_nil⟩
  have inside : c ∈ function.inner := by
    rw [inner, shape, List.map_cons]
    exact mem_intercalate_cons (List.mem_append_left _ (List.mem_of_getLast? last))
  refine ⟨List.ne_nil_of_mem inside, fun same => ?_⟩
  have word : ∀ c ∈ "void".toList, isWordChar c = true := by decide
  have void := word c (same ▸ inside)
  rw [type.ends c last] at void
  cases void

/-- What stands between the parentheses reads back parameter by parameter. -/
theorem readParams_inner (written : function.IsWritten)
    : readParams function.collapsed.inner =
        .ok (function.params.mapIdx fun index param => param.readAt index) := by
  have trimmed : trim function.collapsed.inner = function.collapsed.inner := by
    rw [inner_eq_collapse written, trim_collapse]
  rw [readParams, trimmed]
  cases shape : function.params with
  | nil =>
      rw [inner, Function.collapsed, shape]
      rfl
  | cons first rest =>
      have params : ∀ param ∈ first :: rest, param.IsWritten := shape ▸ written.params
      have whole : function.collapsed.inner =
          ", ".toList.intercalate
            (first.collapsed.text :: rest.map fun param => param.collapsed.text) := by
        simp [inner, Function.collapsed, shape, Function.comp_def]
      have some? : (function.collapsed.inner.isEmpty
          || function.collapsed.inner == "void".toList) = false := by
        obtain ⟨full, other⟩ := written.collapsed.inner_ne (by simp [Function.collapsed, shape])
        rw [List.isEmpty_eq_false_iff.mpr full, Bool.false_or]
        exact beq_eq_false_iff_ne.mpr other
      have pieces : ∀ piece ∈ first.collapsed.text :: rest.map fun param => param.collapsed.text,
          IsPiece ',' 0 piece := by
        have piece (param : Parameter) (member : param ∈ first :: rest) :=
          (params param member).collapsed.isPiece_text
        refine List.forall_mem_cons.mpr ⟨piece first List.mem_cons_self, ?_⟩
        exact List.forall_mem_map.mpr fun param member =>
          piece param (List.mem_cons_of_mem first member)
      have each : List.Forall₂ (fun text param => trim text = Parameter.text param.collapsed)
          (first.collapsed.text :: rest.map fun param => ' ' :: param.collapsed.text)
          (first :: rest) := by
        obtain ⟨here, later⟩ := List.forall_mem_cons.mp params
        refine .cons here.trim_text ?_
        rw [List.forall₂_map_left_iff, List.forall₂_same]
        intro param member
        exact (later param member).trim_text
      have read := readParamsFrom_texts params each 0
      simp only [Nat.zero_add] at read
      rw [some?, if_neg (by decide), whole, cutOutside_intercalate pieces, List.map_map]
      exact read

theorem prototype?_text (written : function.IsWritten)
    : prototype? function.text =
        some {
          returns := trim function.returns
          name := function.name
          params := function.inner
        } :=
  prototype?_call written.returns written.name function.inner

end Function

end ApiBindings.Header
