import ApiBindings.Proofs.Constant.Evaluation
import ApiBindings.Proofs.Constant.Width

/-! Values that are printed, read back as constant expressions.
A value is printed as one literal, with a minus in front of it if it is a negative number of 32
bits. What is read has its bits and, as long as its number needs it, its width.
-/

namespace ApiBindings

-----------------------------------------------------------------------------------------
-- Numerals
-----------------------------------------------------------------------------------------

/-- Only zero is written with a zero in front. By strong induction on the number, which loses its
last digit.
-/
theorem Text.eq_zero_of_head?_toDigits {n : Nat} (leads : (Nat.toDigits 10 n).head? = some '0')
    : n = 0 := by
  induction n using Nat.strongRecOn with
  | ind n ih =>
      by_cases single : n < 10
      · rw [Nat.toDigits_of_lt_base single, List.head?_singleton, Option.some.injEq] at leads
        have digits : ∀ digit < 10, digit.digitChar = '0' → digit = 0 := by decide
        exact digits n single leads
      · rw [Nat.toDigits_of_base_le (by decide) (by omega), List.head?_append,
          Option.or_eq_some_iff, List.head?_eq_none_iff] at leads
        rcases leads with leads | ⟨empty, -⟩
        · have none := ih (n / 10) (by omega) leads
          omega
        · exact absurd empty Nat.toDigits_ne_nil

namespace Constant

namespace Literal

/-- The literal that writes a number in hexadecimal. -/
def hexadecimal (width number : Nat) (fits : number < 0x10000000000000000) : Literal where
  base := .hexadecimal false
  digits := (Text.hex width number).toList
  suffix := []
  number := number
  spells := Text.spells_hex width number
  leads := fun decimal => by cases decimal
  fits := fits
  suffixed := List.forall_mem_nil _

/-- The literal that writes a number in decimal. -/
def decimal (number : Nat) (fits : number < 0x10000000000000000) : Literal where
  base := .decimal
  digits := (toString number).toList
  suffix := []
  number := number
  spells := Text.spells_repr number
  leads := by
    intro _ leads
    rw [Nat.toString_eq_ofList_toDigits, String.toList_ofList] at leads ⊢
    rw [Text.eq_zero_of_head?_toDigits leads]
    rfl
  fits := fits
  suffixed := List.forall_mem_nil _

theorem text_hexadecimal {width number : Nat} (fits : number < 0x10000000000000000)
    : (hexadecimal width number fits).text = ("0x" ++ Text.hex width number).toList := by
  simp [text, hexadecimal, Base.mark]

theorem text_decimal {number : Nat} (fits : number < 0x10000000000000000)
    : (decimal number fits).text = (toString number).toList := by
  simp [text, decimal, Base.mark]

theorem isLong_hexadecimal {width number : Nat} (fits : number < 0x10000000000000000)
    : (hexadecimal width number fits).IsLong ↔ 0xFFFFFFFF < number := by
  simp [IsLong, hexadecimal]

theorem isLong_decimal {number : Nat} (fits : number < 0x10000000000000000)
    : (decimal number fits).IsLong ↔ 0xFFFFFFFF < number := by
  simp [IsLong, decimal]

end Literal

-----------------------------------------------------------------------------------------
-- Single operands
-----------------------------------------------------------------------------------------

variable {scope : Scope}

/-- A text is evaluated as the operand that its tokens are. -/
theorem Scope.eval?_of_operand {text : List Char} {tokens : List Token} {expr : Expr}
    (split : Token.tokens? text = some tokens)
    (reads : ∀ expand, Reader.Reads scope expand .operand tokens expr [])
    : scope.eval? text = expr.value? := by
  have whole : Reader.readNested? scope maxNesting tokens = some expr := by
    rw [Reader.readNested?_eq, Reader.readAll?_eq_some_iff]
    exact .expr (reads _) (.stop rfl)
  rw [eval?, split, Option.bind_eq_bind, Option.bind_some, whole]
  rfl

theorem Scope.eval?_literal (scope : Scope) (literal : Literal)
    : scope.eval? literal.text
      = (Expr.literal (BitVec.ofNat 64 literal.number) literal.IsLong).value? :=
  eval?_of_operand literal.tokens?_text fun _ => .number

theorem Token.tokens?_minus (text : List Char)
    : tokens? ('-' :: text) = (tokens? text).map (.op .sub :: ·) := by
  rw [tokens?]
  rfl

theorem Scope.eval?_negated (scope : Scope) (literal : Literal)
    : scope.eval? ('-' :: literal.text)
      = (Expr.unary .negate
          (.literal (BitVec.ofNat 64 literal.number) literal.IsLong)).value? := by
  have split : Token.tokens? ('-' :: literal.text) = some [.op .sub, literal.token] := by
    rw [Token.tokens?_minus, literal.tokens?_text]
    rfl
  exact eval?_of_operand split fun _ => .negate .number

theorem Scope.eval?_identifier {identifier : Identifier} {value : Value}
    (known : scope.constant? identifier.name = some value)
    : scope.eval? identifier.text = (Expr.constant value).value? :=
  eval?_of_operand identifier.tokens?_text fun _ => .constant known

-----------------------------------------------------------------------------------------
-- Values
-----------------------------------------------------------------------------------------

/-- What a value is printed as, by its width and its sign. -/
inductive Printed (value : Value) : List Char → Prop where
  | wide (width : value.width = .wide)
    : Printed value (Literal.hexadecimal 1 value.bits.toNat value.bits.isLt).text
  | positive (width : value.width = .narrow) (sign : 0 ≤ value.bits.toInt)
    : Printed value (Literal.hexadecimal 4 value.bits.toNat value.bits.isLt).text
  | negative {number : Nat} (fits : number < 0x10000000000000000)
      (width : value.width = .narrow) (same : value.bits.toInt = -(number : Int))
      (sign : value.bits.toInt < 0)
    : Printed value ('-' :: (Literal.decimal number fits).text)

theorem printed_text (value : Value) : Printed value value.text.toList := by
  unfold Value.text
  split
  · rename_i width
    rw [← Literal.text_hexadecimal value.bits.isLt]
    exact .wide width
  · rename_i width
    split
    · rename_i sign
      have least := BitVec.le_toInt value.bits
      have fits : (-value.bits.toInt).toNat < 0x10000000000000000 := by omega
      have shape
          : (toString value.bits.toInt).toList
            = '-' :: (Literal.decimal (-value.bits.toInt).toNat fits).text := by
        rw [Int.toString_eq_repr, Int.repr_eq_if, if_neg (by omega), String.toList_append,
          Literal.text_decimal]
        rfl
      rw [shape]
      exact .negative fits width (by omega) sign
    · rename_i sign
      rw [← Literal.text_hexadecimal value.bits.isLt]
      exact .positive width (by omega)

/-- A wide value whose number is an unsigned one of 32 bits. -/
def IsSpacious (value : Value) : Prop :=
  value.width = .wide ∧ 0 ≤ value.bits.toInt ∧ value.bits.toInt ≤ 0xFFFFFFFF

/-- A value that has the bits of another one, and its width unless that one is spacious. -/
structure IsReadFor (value read : Value) : Prop where
  bits : read.bits = value.bits
  width : read.width = value.width ↔ ¬IsSpacious value

theorem IsReadFor.eq {value read : Value} (isRead : IsReadFor value read)
    (notSpacious : ¬IsSpacious value)
    : read = value := by
  obtain ⟨bits, width⟩ := isRead
  cases read
  cases value
  cases bits
  cases width.mpr notSpacious
  rfl

theorem isReadFor_of_wide_iff {value read : Value} (bits : read.bits = value.bits)
    (wide : read.width = .wide ↔ value.width = .wide ∧ ¬IsSpacious value)
    : IsReadFor value read := by
  refine ⟨bits, ?_⟩
  cases width : value.width with
  | wide => rw [wide, width, eq_self, true_and]
  | narrow =>
      have notSpacious : ¬IsSpacious value := by simp [IsSpacious, width]
      cases readWidth : read.width <;> simp_all

/-- A tree that stands for the bits of a value is read for it if it is wide where the value is wide
and not spacious.
-/
theorem Expr.exists_isReadFor {expr : Expr} {value : Value} (found : expr.eval? = some value.bits)
    (wide
      : expr.isLong = true ∨ IsLarge value.bits.toInt
        ↔ value.width = .wide ∧ ¬IsSpacious value)
    : ∃ read, expr.value? = some read ∧ IsReadFor value read := by
  obtain ⟨read, evaluated⟩ : ∃ read, expr.value? = some read := by
    rw [Expr.value?, found]
    exact ⟨_, rfl⟩
  have bits : read.bits = value.bits := by
    rw [Expr.value?, found] at evaluated
    cases evaluated
    rfl
  refine ⟨read, evaluated, isReadFor_of_wide_iff bits ?_⟩
  rw [expr.width_eq_wide_iff evaluated, bits, wide]

/-- Every value that fits its width is read back from what it is printed as. The cases are those of
the printer.
-/
theorem Printed.exists_isReadFor {value : Value} {text : List Char} (printed : Printed value text)
    (fits : value.FitsWidth) (scope : Scope)
    : ∃ read, scope.eval? text = some read ∧ IsReadFor value read := by
  have signed := BitVec.toInt_eq_toNat_cond value.bits
  cases printed with
  | wide width =>
      rw [scope.eval?_literal]
      refine Expr.exists_isReadFor (congrArg some (BitVec.ofNat_toNat 64 value.bits)) ?_
      simp only [Expr.isLong, decide_eq_true_eq, Literal.isLong_hexadecimal, IsLarge, IsSpacious,
        width, true_and]
      omega
  | positive width sign =>
      obtain ⟨least, greatest⟩ := fits width
      rw [scope.eval?_literal]
      refine Expr.exists_isReadFor (congrArg some (BitVec.ofNat_toNat 64 value.bits)) ?_
      simp only [Expr.isLong, decide_eq_true_eq, Literal.isLong_hexadecimal, IsLarge, width,
        reduceCtorEq, false_and, iff_false]
      omega
  | @negative number numberFits width same sign =>
      obtain ⟨least, greatest⟩ := fits width
      have bits : -BitVec.ofNat 64 number = value.bits := by
        rw [← BitVec.ofInt_natCast, ← BitVec.ofInt_neg, ← same, BitVec.ofInt_toInt]
      rw [scope.eval?_negated]
      refine Expr.exists_isReadFor (congrArg some bits) ?_
      simp only [Expr.isLong, decide_eq_true_eq, Literal.isLong_decimal, IsLarge, width,
        reduceCtorEq, false_and, iff_false]
      omega

theorem Scope.constant?_define (scope : Scope) (name : String) (value : Value)
    : (scope.define name value).constant? name = some value := by
  simp [constant?, define]

/-- The name of a constant is evaluated to its value, the width included. -/
theorem Scope.eval?_defined (scope : Scope) (identifier : Identifier) {value : Value}
    (fits : value.FitsWidth)
    : (scope.define identifier.name value).eval? identifier.text = some value := by
  obtain ⟨bits, width⟩ := value
  rw [eval?_identifier (scope.constant?_define identifier.name _)]
  cases width with
  | wide => rfl
  | narrow =>
      have inRange : -0x80000000 ≤ bits.toInt ∧ bits.toInt ≤ 0xFFFFFFFF := fits rfl
      have narrow : Value.isNarrow bits.toInt = true := by
        simp only [Value.isNarrow, Bool.and_eq_true, decide_eq_true_eq]
        omega
      simp [Expr.value?, Expr.eval?, Expr.isLong, Value.ofBits, narrow]

/-- In every scope, what a value is printed as has the bits of the value, and its width unless it is
wide without need. The name of a constant has its bits and its width.
-/
theorem Scope.eval?_printed (scope : Scope) {value : Value} (fits : value.FitsWidth)
    : (∃ read, scope.eval? value.text.toList = some read ∧ IsReadFor value read)
      ∧ ∀ identifier : Identifier,
          (scope.define identifier.name value).eval? identifier.text = some value :=
  ⟨(printed_text value).exists_isReadFor fits scope,
    fun identifier => scope.eval?_defined identifier fits⟩

/-- The least number of 32 bits is printed in decimal. -/
def leastNarrow : Value where
  bits := -0x80000000
  width := .narrow

def leastName : Identifier where
  first := 'L'
  rest := ['E', 'A', 'S', 'T']
  starts := by decide
  goesOn := by decide

theorem leastNarrow_printed
    : leastNarrow.text = "-2147483648"
      ∧ Scope.initial.eval? "-2147483648".toList = some leastNarrow
      ∧ (Scope.initial.define "LEAST" leastNarrow).eval? "LEAST".toList = some leastNarrow := by
  have text : leastNarrow.text = "-2147483648" := by decide
  obtain ⟨⟨read, found, isRead⟩, named⟩ :=
    Scope.initial.eval?_printed (show leastNarrow.FitsWidth from fun _ => by decide)
  rw [isRead.eq fun spacious => absurd spacious.1 (by decide), text] at found
  exact ⟨text, found, named leastName⟩

end Constant

end ApiBindings
