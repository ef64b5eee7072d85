import ApiBindings.Code.Literal
import ApiBindings.Proofs.Constant.Width
import ApiBindings.Proofs.Text.Numerals
import Mathlib.Algebra.Group.Int.Defs
import Mathlib.Data.List.TakeWhile

/-! The literals of constants, and what they denote.
A constant expression is read as a compiler reads it: its numeral has to fit its type. A literal of
a group's type denotes the bits of its value for every value of the group, since the type has room
for the widest one, and a number that a signed type lacks is written as a converted unsigned one.
-/

namespace ApiBindings.Code

-----------------------------------------------------------------------------------------
-- Constant expressions
-----------------------------------------------------------------------------------------

namespace IntType

def width : IntType → Nat
  | i32 | u32 => 32
  | u64 => 64

/-- Whether a number is one of the type. -/
def holds (type : IntType) (n : Int) : Bool :=
  match type with
  | i32 => -0x80000000 ≤ n && n < 0x80000000
  | u32 => 0 ≤ n && n < 0x100000000
  | u64 => 0 ≤ n && n < 0x10000000000000000

/-- A number of the type, no other one being legal. -/
def legal? (type : IntType) (n : Int) : Option Int :=
  if type.holds n then some n else none

end IntType

/-- A numeral without a sign: hexadecimal behind `0x`, and decimal otherwise. -/
def numeral? : List Char → Option Nat
  | '0' :: 'x' :: digits => Text.numeral? 16 digits
  | digits => Text.numeral? 10 digits

/-- How a numeral of the unsigned type is converted to the signed one. -/
def conversion : List Char :=
  '_' :: "u32 as i32".toList

/-- The number that a constant expression of a type denotes, if it is a legal one. A numeral has to
fit the type, with its sign if the type has signed numbers. A numeral of the unsigned type of 32
bits may be converted to the signed one, which keeps its bits.
-/
def IntType.constant? (type : IntType) (text : List Char) : Option Int :=
  match text with
  | '-' :: digits =>
      if type = i32 then (numeral? digits).bind fun n => type.legal? (-n) else none
  | _ =>
      let digits := text.takeWhile (· != '_')
      let suffix := text.dropWhile (· != '_')
      if suffix = [] then
        (numeral? digits).bind fun n => type.legal? n
      else if suffix = conversion ∧ type = i32 then
        (numeral? digits).bind fun n => (u32.legal? n).map fun n => n.bmod 0x100000000
      else
        none

/-- A text denotes a value in a type: the type has room for the width of the value, and the text is
a legal constant of the type with the bits of the value.
-/
structure IntType.Denotes (type : IntType) (text : String) (value : Value) : Prop where
  roomy : value.width.bits ≤ type.width
  legal
    : ∃ n,
        type.constant? text.toList = some n
        ∧ n % 2 ^ type.width = value.bits.toNat % 2 ^ type.width

-----------------------------------------------------------------------------------------
-- Reading numerals
-----------------------------------------------------------------------------------------

/-- No sign and no suffix starts inside of a text. -/
def IsPlain (text : List Char) : Prop :=
  ∀ c ∈ text, c ≠ '-' ∧ c ≠ '_'

theorem isPlain_of_digits {digits : List Char}
    (fits : ∀ digit ∈ digits, Text.digitValue digit < 16)
    : IsPlain digits := by
  intro c member
  have valued := fits c member
  constructor
  · rintro rfl
    exact absurd valued (by decide)
  · rintro rfl
    exact absurd valued (by decide)

/-- The hexadecimal literal of a number. -/
theorem numeral?_hex (width n : Nat) : numeral? ("0x" ++ Text.hex width n).toList = some n := by
  rw [String.toList_append]
  exact (Text.spells_hex width n).numeral?

theorem isPlain_hex (width n : Nat) : IsPlain ("0x" ++ Text.hex width n).toList := by
  rw [String.toList_append]
  intro c member
  rcases List.mem_append.mp member with front | digit
  · have front : c = '0' ∨ c = 'x' := by simpa using front
    rcases front with rfl | rfl <;> decide
  · exact isPlain_of_digits (Text.spells_hex width n).fits c digit

/-- The decimal literal of a number: no digit is the mark of a hexadecimal one. -/
theorem numeral?_repr (n : Nat) : numeral? n.repr.toList = some n := by
  have decimal := (Text.spells_repr n).numeral?
  unfold numeral?
  split
  · rename_i digits shape
    have member : 'x' ∈ n.repr.toList := by simp [shape]
    have marked := (Text.spells_repr n).fits 'x' member
    exact absurd marked (by decide)
  · exact decimal

theorem isPlain_repr (n : Nat) : IsPlain n.repr.toList :=
  isPlain_of_digits fun _ member =>
    Nat.lt_trans ((Text.spells_repr n).fits _ member) (by decide)

namespace IntType

variable {text : List Char} {n : Nat}

/-- A numeral alone denotes its number if the type has it. -/
theorem constant?_plain (type : IntType) (plain : IsPlain text) (read : numeral? text = some n)
    : type.constant? text = type.legal? n := by
  have whole : ∀ c ∈ text, (c != '_') = true := fun c member => by simp [(plain c member).2]
  unfold constant?
  split
  · exact absurd rfl (plain '-' List.mem_cons_self).1
  · dsimp only
    rw [List.takeWhile_eq_self_iff.mpr whole, List.dropWhile_eq_nil_iff.mpr whole, if_pos rfl,
      read, Option.bind_some]

/-- A signed type has the negated numbers of numerals. -/
theorem constant?_negated (read : numeral? text = some n)
    : i32.constant? ('-' :: text) = i32.legal? (-n) := by
  simp [constant?, read]

/-- A converted numeral denotes the signed number with the same bits. -/
theorem constant?_converted (plain : IsPlain text) (read : numeral? text = some n)
    : i32.constant? (text ++ conversion)
      = (u32.legal? n).map fun n => n.bmod 0x100000000 := by
  have whole : ∀ c ∈ text, (c != '_') = true := fun c member => by simp [(plain c member).2]
  have front : (text ++ conversion).takeWhile (· != '_') = text := by
    rw [List.takeWhile_append_of_pos whole, conversion,
      List.takeWhile_cons_of_neg (by decide), List.append_nil]
  have behind : (text ++ conversion).dropWhile (· != '_') = conversion := by
    rw [List.dropWhile_append_of_pos whole, conversion,
      List.dropWhile_cons_of_neg (by decide)]
  have suffixed : conversion ≠ [] := List.cons_ne_nil _ _
  unfold constant?
  split
  · rename_i digits shape
    cases text with
    | nil => cases shape
    | cons first rest =>
        obtain ⟨rfl, -⟩ := List.cons.inj shape
        exact absurd rfl (plain '-' List.mem_cons_self).1
  · dsimp only
    rw [front, behind, if_neg suffixed, if_pos ⟨rfl, rfl⟩, read,
      Option.bind_some]

end IntType

-----------------------------------------------------------------------------------------
-- Literals of values
-----------------------------------------------------------------------------------------

/-- The number of a type whose bits are the lower ones of a pattern. -/
def IntType.number (type : IntType) (bits : BitVec 64) : Int :=
  match type with
  | i32 => (bits.setWidth 32).toInt
  | u32 => (bits.setWidth 32).toNat
  | u64 => bits.toNat

/-- A type keeps as many bits of a pattern as it has. -/
theorem IntType.emod_number (type : IntType) (bits : BitVec 64)
    : type.number bits % 2 ^ type.width = bits.toNat % 2 ^ type.width := by
  cases type with
  | i32 =>
      simp only [number, width, BitVec.toInt_eq_toNat_cond, BitVec.toNat_setWidth]
      split <;> omega
  | u32 =>
      simp only [number, width, BitVec.toNat_setWidth]
      omega
  | u64 => rfl

theorem constant?_u64 (value : Value)
    : IntType.u64.constant? (literal .u64 value).toList = some (IntType.u64.number value.bits) := by
  have bound := value.bits.isLt
  refine (IntType.constant?_plain .u64 (isPlain_hex 1 _) (numeral?_hex 1 _)).trans ?_
  refine if_pos ?_
  simp only [IntType.holds, Bool.and_eq_true, decide_eq_true_eq]
  omega

theorem constant?_u32 (value : Value)
    : IntType.u32.constant? (literal .u32 value).toList = some (IntType.u32.number value.bits) := by
  have bound := value.low.isLt
  refine (IntType.constant?_plain .u32 (isPlain_hex 4 _) (numeral?_hex 4 _)).trans ?_
  refine if_pos ?_
  simp only [IntType.holds, Bool.and_eq_true, decide_eq_true_eq]
  omega

/-- A signed literal is a conversion where the number fits the unsigned type only, and otherwise
decimal, with its sign.
-/
theorem constant?_i32 {value : Value} (least : -0x80000000 ≤ value.bits.toInt)
    (greatest : value.bits.toInt ≤ 0xFFFFFFFF)
    : IntType.i32.constant? (literal .i32 value).toList = some (IntType.i32.number value.bits) := by
  have bound := value.low.isLt
  unfold literal
  dsimp only
  split
  · rename_i unsigned
    rw [String.toList_append]
    refine (IntType.constant?_converted (isPlain_hex 8 _) (numeral?_hex 8 _)).trans ?_
    have legal : IntType.u32.legal? value.low.toNat = some (value.low.toNat : Int) := by
      refine if_pos ?_
      simp only [IntType.holds, Bool.and_eq_true, decide_eq_true_eq]
      omega
    rw [legal]
    exact congrArg some (BitVec.toInt_eq_toNat_bmod value.low).symm
  · rename_i signed
    have same : IntType.i32.number value.bits = value.bits.toInt := by
      simp only [IntType.number, BitVec.toInt_eq_toNat_cond, BitVec.toNat_setWidth] at *
      omega
    have legal : IntType.i32.legal? value.bits.toInt = some value.bits.toInt := by
      refine if_pos ?_
      simp only [IntType.holds, Bool.and_eq_true, decide_eq_true_eq]
      omega
    rw [same, ← legal]
    rw [Int.toString_eq_repr, Int.repr_eq_if]
    split
    · rename_i positive
      refine (IntType.constant?_plain .i32 (isPlain_repr _) (numeral?_repr _)).trans ?_
      rw [Int.toNat_of_nonneg positive]
    · rename_i negative
      rw [String.toList_append]
      refine (IntType.constant?_negated (numeral?_repr _)).trans ?_
      rw [Int.toNat_of_nonneg (by omega), Int.neg_neg]

/-- Wherever there is room for a value that fits its width, the literal denotes the value. -/
theorem denotes_literal {type : IntType} {value : Value}
    (roomy : value.width.bits ≤ type.width) (fits : value.FitsWidth)
    : type.Denotes (literal type value) value := by
  refine ⟨roomy, type.number value.bits, ?_, type.emod_number value.bits⟩
  cases type with
  | i32 =>
      cases width : value.width with
      | narrow => exact constant?_i32 (fits width).1 (fits width).2
      | wide =>
          rw [width] at roomy
          exact absurd roomy (by decide)
  | u32 => exact constant?_u32 value
  | u64 => exact constant?_u64 value

/-- The type for some values has room for each of them. -/
theorem roomy_intType {values : List Value} {value : Value} (member : value ∈ values)
    : value.width.bits ≤ (intType values).width := by
  cases width : value.width with
  | narrow =>
      unfold intType
      split
      · decide
      · split <;> decide
  | wide =>
      have wide : values.any (fun value => value.width == .wide) = true :=
        List.any_eq_true.mpr ⟨value, member, by simp [width]⟩
      rw [intType, if_pos wide]
      decide

/-- The number that a value stands for: narrow ones are signed, wide ones are not. -/
def number (value : Value) : Int :=
  match value.width with
  | .narrow => value.bits.toInt
  | .wide => value.bits.toNat

/-- A constant of its own denotes the very number of its value. -/
theorem constant?_alone {value : Value} (fits : value.FitsWidth)
    : (intType [value]).constant? (literal (intType [value]) value).toList
      = some (number value) := by
  cases width : value.width with
  | wide =>
      have type : intType [value] = .u64 := by simp [intType, width]
      rw [type, constant?_u64, number, width]
      rfl
  | narrow =>
      obtain ⟨least, greatest⟩ := fits width
      by_cases negative : value.bits.toInt < 0
      · have type : intType [value] = .i32 := by
          simp [intType, Value.isNegative, width, negative]
        rw [type, constant?_i32 least greatest, number, width]
        simp only [IntType.number, BitVec.toInt_eq_toNat_cond, BitVec.toNat_setWidth] at *
        congr 1
        omega
      · have type : intType [value] = .u32 := by
          simp [intType, Value.isNegative, width, negative]
        rw [type, constant?_u32, number, width]
        simp only [IntType.number, BitVec.toInt_eq_toNat_cond, BitVec.toNat_setWidth] at *
        congr 1
        omega

end ApiBindings.Code
