import ApiBindings.Api
import ApiBindings.Code.Ident
import ApiBindings.Proofs.Text.Layout
import ApiBindings.Proofs.Text.Search
import Mathlib.Data.List.Forall2

/-! Which names are given the same identifier.
Identifiers are made from names in steps that lose something: the start of an interface is dropped,
foreign characters become underscores, and what is no identifier yet is escaped.
-/

namespace ApiBindings.Code

variable {a b : List Char}

-----------------------------------------------------------------------------------------
-- Foreign characters
-----------------------------------------------------------------------------------------

/-- Texts that differ at most in places where both have neither a letter nor a digit. -/
def LooksLike (a b : List Char) : Prop :=
  List.Forall₂ (fun c d => c = d ∨ (c.isAlphanum = false ∧ d.isAlphanum = false)) a b

theorem identChar_eq (c : Char) : identChar c = if c.isAlphanum then c else '_' := by
  unfold identChar
  by_cases alphanum : c.isAlphanum = true
  · simp [alphanum]
  · by_cases underscore : c = '_'
    · simp [underscore]
    · simp [alphanum, underscore]

theorem identChar_eq_iff (c d : Char)
    : identChar c = identChar d ↔ c = d ∨ (c.isAlphanum = false ∧ d.isAlphanum = false) := by
  have underscore : '_'.isAlphanum = false := by decide
  rw [identChar_eq, identChar_eq]
  constructor
  · intro same
    split at same <;> split at same
    · exact .inl same
    · rename_i alphanum _
      rw [same, underscore] at alphanum
      cases alphanum
    · rename_i _ alphanum
      rw [← same, underscore] at alphanum
      cases alphanum
    · rename_i first second
      exact .inr ⟨by simpa using first, by simpa using second⟩
  · rintro (rfl | ⟨first, second⟩)
    · rfl
    · simp [first, second]

theorem map_identChar_eq_iff : a.map identChar = b.map identChar ↔ LooksLike a b := by
  rw [← List.forall₂_eq_eq_eq, List.forall₂_map_left_iff, List.forall₂_map_right_iff]
  constructor
  · exact List.Forall₂.imp fun c d => (identChar_eq_iff c d).mp
  · exact List.Forall₂.imp fun c d => (identChar_eq_iff c d).mpr

-----------------------------------------------------------------------------------------
-- Escapes
-----------------------------------------------------------------------------------------

/-- How a text is escaped that is no identifier. -/
inductive Escapes : List Char → List Char → Prop
  | empty : Escapes [] ['_']
  | digit {c cs} (digit : c.isDigit = true) : Escapes (c :: cs) ('_' :: c :: cs)
  | keyword {cs} (reserved : String.ofList cs ∈ keywords) : Escapes cs (cs ++ ['_'])

/-- No keyword starts with a digit, or starts or ends with an underscore, and none is empty. -/
theorem keyword_shape {cs : List Char} (reserved : String.ofList cs ∈ keywords)
    : (∃ c rest, cs = c :: rest ∧ c ≠ '_' ∧ c.isDigit = false) ∧ cs.getLast? ≠ some '_' := by
  have all
      : ∀ word ∈ keywords,
          (word.toList.head?.any fun c => c != '_' && !c.isDigit) = true
          ∧ word.toList.getLast? ≠ some '_' := by
    decide +kernel
  obtain ⟨starts, ends⟩ := all _ reserved
  rw [String.toList_ofList] at starts ends
  refine ⟨?_, ends⟩
  cases cs with
  | nil => cases starts
  | cons c rest => exact ⟨c, rest, rfl, by simpa using starts⟩

theorem Escapes.eq_tail_or_dropLast {escaped : List Char} (escapes : Escapes a escaped)
    : (escaped.head? = some '_' ∧ a = escaped.tail)
      ∨ (escaped.head? ≠ some '_' ∧ a = escaped.dropLast) := by
  cases escapes with
  | empty => exact .inl ⟨rfl, rfl⟩
  | digit => exact .inl ⟨rfl, rfl⟩
  | keyword reserved =>
      obtain ⟨⟨c, rest, rfl, starts, -⟩, -⟩ := keyword_shape reserved
      exact .inr ⟨by simpa using starts, List.dropLast_concat.symm⟩

/-- What is escaped is known from its escape. -/
theorem Escapes.injective {escaped : List Char} (first : Escapes a escaped)
    (second : Escapes b escaped)
    : a = b := by
  rcases first.eq_tail_or_dropLast with ⟨starts, rfl⟩ | ⟨starts, rfl⟩ <;>
    rcases second.eq_tail_or_dropLast with ⟨starts', rfl⟩ | ⟨starts', rfl⟩
  · rfl
  · exact absurd starts starts'
  · exact absurd starts' starts
  · rfl

/-- The identifier of a text without foreign characters. -/
def escape (text : List Char) : List Char :=
  (guardKeyword (String.ofList (guardStart text))).toList

theorem guardKeyword_of_not_mem {cs : List Char} (free : String.ofList cs ∉ keywords)
    : guardKeyword (String.ofList cs) = String.ofList cs := by
  simp [guardKeyword, free]

theorem guardKeyword_of_mem {cs : List Char} (reserved : String.ofList cs ∈ keywords)
    : (guardKeyword (String.ofList cs)).toList = cs ++ ['_'] := by
  have contained : keywords.contains (String.ofList cs) = true :=
    List.contains_iff_mem.mpr reserved
  rw [guardKeyword, if_pos contained, String.toList_push, String.toList_ofList]

theorem not_keyword_of_head {cs : List Char} (starts : cs.head? = some '_')
    : String.ofList cs ∉ keywords := by
  intro reserved
  obtain ⟨⟨c, rest, rfl, other, -⟩, -⟩ := keyword_shape reserved
  exact other (Option.some.inj starts)

theorem guardStart_eq_self {c : Char} (noDigit : c.isDigit = false) (cs : List Char)
    : guardStart (c :: cs) = c :: cs := by
  simp [guardStart, noDigit]

/-- A text is an identifier or is escaped. -/
theorem escape_cases (text : List Char) : escape text = text ∨ Escapes text (escape text) := by
  unfold escape
  cases text with
  | nil =>
      rw [guardStart, guardKeyword_of_not_mem (not_keyword_of_head rfl), String.toList_ofList]
      exact .inr .empty
  | cons c cs =>
      cases digit : c.isDigit with
      | true =>
          rw [guardStart, if_pos digit, guardKeyword_of_not_mem (not_keyword_of_head rfl),
            String.toList_ofList]
          exact .inr (.digit digit)
      | false =>
          rw [guardStart_eq_self digit]
          by_cases reserved : String.ofList (c :: cs) ∈ keywords
          · rw [guardKeyword_of_mem reserved]
            exact .inr (.keyword reserved)
          · exact .inl (by rw [guardKeyword_of_not_mem reserved, String.toList_ofList])

theorem escape_of_escapes (escapes : Escapes a b) : escape a = b ∧ escape b = b := by
  cases escapes with
  | empty => decide +kernel
  | @digit c cs digit =>
      constructor
      · rw [escape, guardStart, if_pos digit, guardKeyword_of_not_mem (not_keyword_of_head rfl),
          String.toList_ofList]
      · rw [escape, guardStart_eq_self (by decide),
          guardKeyword_of_not_mem (not_keyword_of_head rfl), String.toList_ofList]
  | keyword reserved =>
      have free : String.ofList (a ++ ['_']) ∉ keywords := fun reserved =>
        (keyword_shape reserved).2 (by simp)
      obtain ⟨⟨c, rest, rfl, -, noDigit⟩, -⟩ := keyword_shape reserved
      constructor
      · rw [escape, guardStart_eq_self noDigit, guardKeyword_of_mem reserved]
      · rw [escape, List.cons_append, guardStart_eq_self noDigit, ← List.cons_append,
          guardKeyword_of_not_mem free, String.toList_ofList]

/-- Texts have the same identifier if they are the same, or if one is the escape of the other. -/
theorem escape_eq_iff : escape a = escape b ↔ a = b ∨ Escapes a b ∨ Escapes b a := by
  constructor
  · intro same
    rcases escape_cases a with first | first <;> rcases escape_cases b with second | second
    · exact .inl (first.symm.trans (same.trans second))
    · rw [← same, first] at second
      exact .inr (.inr second)
    · rw [same, second] at first
      exact .inr (.inl first)
    · rw [same] at first
      exact .inl (first.injective second)
  · rintro (rfl | escapes | escapes)
    · rfl
    · obtain ⟨first, second⟩ := escape_of_escapes escapes
      exact first.trans second.symm
    · obtain ⟨first, second⟩ := escape_of_escapes escapes
      exact second.trans first.symm

-----------------------------------------------------------------------------------------
-- Names
-----------------------------------------------------------------------------------------

/-- A name with its foreign characters replaced. -/
def spelling (name : String) : List Char :=
  name.toList.map identChar

/-- Names that have the same identifier: they look alike, or one is spelled like the escape of the
other.
-/
def Alike (first second : String) : Prop :=
  LooksLike first.toList second.toList
  ∨ Escapes (spelling first) (spelling second)
  ∨ Escapes (spelling second) (spelling first)

theorem ident_eq_iff (first second : String)
    : ident first = ident second ↔ Alike first second := by
  have whole (name : String) : (ident name).toList = escape (spelling name) := rfl
  rw [← String.toList_inj, whole, whole, escape_eq_iff, Alike, ← map_identChar_eq_iff]
  rfl

-----------------------------------------------------------------------------------------
-- Names of groups
-----------------------------------------------------------------------------------------

/-- The runs of letters and digits of a group's name, each with a capital, in a row. -/
def joinedWords (group : String) : List Char :=
  (Text.cut (fun c => !c.isAlphanum) group.toList).flatMap capitalize

/-- A small letter becomes a capital, and all else stays as it is. -/
theorem toUpper_cases (c : Char)
    : c.toUpper = c ∧ c.isLower = false ∨ c.toUpper.isUpper = true := by
  unfold Char.toUpper
  split
  · rename_i small
    obtain ⟨least, most⟩ := small
    rw [UInt32.le_iff_toNat_le] at least most
    have shift : 'A'.val - 'a'.val = 0xFFFFFFE0 := rfl
    have lower : 'a'.val.toNat = 97 := rfl
    have upper : 'z'.val.toNat = 122 := rfl
    have capital : (c.val + ('A'.val - 'a'.val)).toNat = c.val.toNat - 32 := by
      rw [shift, UInt32.toNat_add]
      simp only [UInt32.reduceToNat]
      omega
    have first : 'A'.val.toNat = 65 := rfl
    have last : 'Z'.val.toNat = 90 := rfl
    refine .inr (decide_eq_true ?_)
    refine ⟨UInt32.le_iff_toNat_le.mpr ?_, UInt32.le_iff_toNat_le.mpr ?_⟩
    · rw [capital]
      omega
    · rw [capital]
      omega
  · rename_i other
    refine .inl ⟨rfl, Bool.eq_false_iff.mpr fun lower => other ?_⟩
    exact (Bool.and_eq_true_iff.mp lower).imp of_decide_eq_true of_decide_eq_true

theorem isLower_toUpper (c : Char) : c.toUpper.isLower = false := by
  rcases toUpper_cases c with ⟨same, other⟩ | capital
  · rwa [same]
  · refine Bool.eq_false_iff.mpr fun lower => ?_
    have most := (of_decide_eq_true capital).2
    have least := of_decide_eq_true (Bool.and_eq_true_iff.mp lower).1
    exact absurd (UInt32.le_trans least most) (by decide)

theorem isAlphanum_toUpper {c : Char} (alphanum : c.isAlphanum = true)
    : c.toUpper.isAlphanum = true := by
  rcases toUpper_cases c with ⟨same, -⟩ | capital
  · rwa [same]
  · have letter : c.toUpper.isAlpha = true := Bool.or_eq_true_iff.mpr (.inl capital)
    exact Bool.or_eq_true_iff.mpr (.inl letter)

theorem isAlphanum_of_mem_joinedWords {group : String}
    : ∀ c ∈ joinedWords group, c.isAlphanum = true := by
  intro c member
  obtain ⟨word, isWord, inside⟩ := List.mem_flatMap.mp member
  have alphanum : ∀ d ∈ word, d.isAlphanum = true := fun d member => by
    simpa using Text.keeps_of_mem_cut isWord d member
  cases word with
  | nil => cases inside
  | cons first rest =>
      obtain ⟨isFirst, others⟩ := List.forall_mem_cons.mp alphanum
      rcases List.mem_cons.mp inside with rfl | later
      · exact isAlphanum_toUpper isFirst
      · exact others c later

theorem Escapes.underscore_mem (escapes : Escapes a b) : '_' ∈ b := by
  cases escapes <;> simp

theorem spelling_of_isAlphanum (alphanum : ∀ c ∈ a, c.isAlphanum = true)
    : spelling (String.ofList a) = a := by
  rw [spelling, String.toList_ofList]
  refine (List.map_congr_left fun c member => ?_).trans (List.map_id a)
  rw [identChar_eq, if_pos (alphanum c member), id]

theorem groupName_eq (group : String)
    : groupName group = ident (String.ofList (joinedWords group)) :=
  rfl

/-- Groups have the same type name if their words are the same in a row, with their capitals. -/
theorem groupName_eq_iff (first second : String)
    : groupName first = groupName second ↔ joinedWords first = joinedWords second := by
  have noEscape (first second : String)
      : ¬Escapes (spelling (String.ofList (joinedWords first)))
          (spelling (String.ofList (joinedWords second))) := by
    intro escapes
    rw [spelling_of_isAlphanum isAlphanum_of_mem_joinedWords,
      spelling_of_isAlphanum isAlphanum_of_mem_joinedWords] at escapes
    exact absurd (isAlphanum_of_mem_joinedWords _ escapes.underscore_mem) (by decide)
  rw [groupName_eq, groupName_eq, ident_eq_iff]
  constructor
  · rintro (look | escapes | escapes)
    · have spelled := map_identChar_eq_iff.mpr look
      rw [← spelling, ← spelling, spelling_of_isAlphanum isAlphanum_of_mem_joinedWords,
        spelling_of_isAlphanum isAlphanum_of_mem_joinedWords] at spelled
      exact spelled
    · exact absurd escapes (noEscape first second)
    · exact absurd escapes (noEscape second first)
  · intro same
    rw [same]
    exact (ident_eq_iff _ _).mp rfl

-----------------------------------------------------------------------------------------
-- The start of an interface
-----------------------------------------------------------------------------------------

/-- A name is another one with a start before it that is dropped, and the other one has no such
start itself.
-/
def Starts (start first second : String) : Prop :=
  second = start ++ first ∧ first ≠ "" ∧ Api.withoutStart start first = first

theorem withoutStart_append {rest : String} (nonempty : rest ≠ "") (start : String)
    : Api.withoutStart start (start ++ rest) = rest := by
  unfold Api.withoutStart
  rw [String.toList_append, Text.strip?_append]
  split
  · rename_i missing
    cases missing
  · rename_i nothing
    exact absurd (String.toList_inj.mp (Option.some.inj nothing)) nonempty
  · rename_i found
    rw [← Option.some.inj found, String.ofList_toList]

/-- A name keeps its start, or it is the start followed by what is left. -/
theorem withoutStart_cases (start name : String)
    : Api.withoutStart start name = name
      ∨ (name = start ++ Api.withoutStart start name ∧ Api.withoutStart start name ≠ "") := by
  unfold Api.withoutStart
  split
  · exact .inl rfl
  · exact .inl rfl
  · rename_i rest nonempty found
    refine .inr ⟨?_, ?_⟩
    · rw [← String.toList_inj, String.toList_append, String.toList_ofList]
      exact Text.eq_append_of_strip? found
    · intro nothing
      have empty : rest = [] := by simpa using congrArg String.toList nothing
      exact nonempty empty

/-- Two names are the same without their start if one is the other one with the start before it. -/
theorem withoutStart_eq_iff (start first second : String)
    : Api.withoutStart start first = Api.withoutStart start second
      ↔ first = second ∨ Starts start first second ∨ Starts start second first := by
  constructor
  · intro same
    rcases withoutStart_cases start first with keeps | ⟨drops, nonempty⟩ <;>
      rcases withoutStart_cases start second with keeps' | ⟨drops', nonempty'⟩
    · exact .inl (keeps.symm.trans (same.trans keeps'))
    · rw [← same, keeps] at drops' nonempty'
      exact .inr (.inl ⟨drops', nonempty', keeps⟩)
    · rw [same, keeps'] at drops nonempty
      exact .inr (.inr ⟨drops, nonempty, keeps'⟩)
    · exact .inl (drops.trans (same ▸ drops'.symm))
  · rintro (rfl | ⟨rfl, nonempty, keeps⟩ | ⟨rfl, nonempty, keeps⟩)
    · rfl
    · rw [withoutStart_append nonempty, keeps]
    · rw [withoutStart_append nonempty, keeps]

end ApiBindings.Code
