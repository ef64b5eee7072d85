import ApiBindings.Proofs.Constant.Evaluation

/-! Unsigned constants of 64 bits.
Numbers are kept as patterns of bits and calculated with as signed ones. Sums, products, complements
and shifts to the left have the same pattern either way. Quotients, remainders and shifts to the
right need not, and it is said exactly for which numbers they do.
-/

namespace ApiBindings.Constant

-----------------------------------------------------------------------------------------
-- Unsigned arithmetic
-----------------------------------------------------------------------------------------

/-- How many numbers of 64 bits there are. -/
def modulus : Nat := 0x10000000000000000

/-- The least number of 64 bits that is read as a negative one where it is signed. -/
def signBit : Nat := 0x8000000000000000

def UnaryOp.unsigned : UnaryOp → Nat → Nat
  | negate, a => (modulus - a) % modulus
  | keep, a => a
  | complement, a => modulus - 1 - a

/-- Arithmetic on numbers of 64 bits without signs. -/
def BinaryOp.unsigned : BinaryOp → Nat → Nat → Nat
  | mul, a, b => a * b % modulus
  | div, a, b => a / b
  | rem, a, b => a % b
  | add, a, b => (a + b) % modulus
  | sub, a, b => (modulus - b + a) % modulus
  | shiftLeft, a, b => (a <<< b) % modulus
  | shiftRight, a, b => a >>> b
  | and, a, b => a &&& b
  | xor, a, b => a ^^^ b
  | or, a, b => a ||| b

/-- Numbers that C lets an operator be applied to. -/
def BinaryOp.IsDefined : BinaryOp → Nat → Prop
  | div, b | rem, b => b ≠ 0
  | shiftLeft, b | shiftRight, b => b < 64
  | _, _ => True

/-- Numbers for which a quotient is the same with and without signs. -/
def QuotientIgnoresSigns (a b : Nat) : Prop :=
  b = 1 ∨ a = b ∨ (a < signBit ∧ a + b < modulus)

/-- Numbers for which an operator has the same result with and without signs. -/
def BinaryOp.IgnoresSigns : BinaryOp → Nat → Nat → Prop
  | div, a, b => QuotientIgnoresSigns a b
  | rem, a, b =>
      QuotientIgnoresSigns a b
      ∨ (signBit ≤ a ∧ b < signBit ∧ a % b = 0 ∧ (modulus - a) % b = 0)
  | shiftRight, a, b => a < signBit ∨ b = 0
  | _, _, _ => True

variable {a b : BitVec 64}

theorem toNat_neg (a : BitVec 64) : (-a).toNat = (modulus - a.toNat) % modulus :=
  BitVec.toNat_neg a

theorem msb_eq (a : BitVec 64) : a.msb = decide (signBit ≤ a.toNat) :=
  BitVec.msb_eq_decide a

theorem isLt_modulus (a : BitVec 64) : a.toNat < modulus :=
  a.isLt

theorem toNat_neg_of_le (large : signBit ≤ a.toNat) : (-a).toNat = modulus - a.toNat := by
  rw [toNat_neg, Nat.mod_eq_of_lt]
  simp only [signBit, modulus] at large ⊢
  omega

/-- A quotient by the parts of two numbers that are left without their signs. -/
theorem toNat_sdiv (a b : BitVec 64)
    : (a.sdiv b).toNat
      = if a.toNat < signBit then
          if b.toNat < signBit then a.toNat / b.toNat
          else (modulus - a.toNat / (modulus - b.toNat)) % modulus
        else
          if b.toNat < signBit then (modulus - (modulus - a.toNat) / b.toNat) % modulus
          else (modulus - a.toNat) / (modulus - b.toNat) := by
  rw [BitVec.sdiv_eq, msb_eq, msb_eq]
  by_cases small : a.toNat < signBit <;> by_cases small' : b.toNat < signBit
  · simp only [Nat.not_le.mpr small, Nat.not_le.mpr small', decide_false, if_pos small,
      if_pos small']
    exact BitVec.toNat_udiv
  · have large' := Nat.not_lt.mp small'
    simp only [Nat.not_le.mpr small, large', decide_false, decide_true, if_pos small,
      if_neg small', toNat_neg (BitVec.udiv _ _), ← toNat_neg_of_le large']
    exact congrArg (fun q => (modulus - q) % modulus) BitVec.toNat_udiv
  · have large := Nat.not_lt.mp small
    simp only [large, Nat.not_le.mpr small', decide_false, decide_true, if_neg small,
      if_pos small', toNat_neg (BitVec.udiv _ _), ← toNat_neg_of_le large]
    exact congrArg (fun q => (modulus - q) % modulus) BitVec.toNat_udiv
  · have large := Nat.not_lt.mp small
    have large' := Nat.not_lt.mp small'
    simp only [large, large', decide_true, if_neg small, if_neg small',
      ← toNat_neg_of_le large, ← toNat_neg_of_le large']
    exact BitVec.toNat_udiv

theorem toNat_srem (a b : BitVec 64)
    : (a.srem b).toNat
      = if a.toNat < signBit then
          if b.toNat < signBit then a.toNat % b.toNat else a.toNat % (modulus - b.toNat)
        else
          if b.toNat < signBit then (modulus - (modulus - a.toNat) % b.toNat) % modulus
          else (modulus - (modulus - a.toNat) % (modulus - b.toNat)) % modulus := by
  rw [BitVec.srem_eq, msb_eq, msb_eq]
  by_cases small : a.toNat < signBit <;> by_cases small' : b.toNat < signBit
  · simp only [Nat.not_le.mpr small, Nat.not_le.mpr small', decide_false, if_pos small,
      if_pos small', BitVec.toNat_umod]
  · have large' := Nat.not_lt.mp small'
    simp only [Nat.not_le.mpr small, large', decide_false, decide_true, if_pos small,
      if_neg small', BitVec.toNat_umod, toNat_neg_of_le large']
  · have large := Nat.not_lt.mp small
    simp only [large, Nat.not_le.mpr small', decide_false, decide_true, if_neg small,
      if_pos small', toNat_neg (_ % _), BitVec.toNat_umod, toNat_neg_of_le large]
  · have large := Nat.not_lt.mp small
    have large' := Nat.not_lt.mp small'
    simp only [large, large', decide_true, if_neg small, if_neg small', toNat_neg (_ % _),
      BitVec.toNat_umod, toNat_neg_of_le large, toNat_neg_of_le large']

theorem toNat_sshiftRight (a : BitVec 64) (count : Nat)
    : (a.sshiftRight count).toNat
      = if a.toNat < signBit then a.toNat >>> count
        else modulus - 1 - (modulus - 1 - a.toNat) >>> count := by
  rw [BitVec.toNat_sshiftRight, msb_eq]
  by_cases small : a.toNat < signBit
  · simp [small, Nat.not_le.mpr small]
  · simp [small, Nat.not_lt.mp small, modulus]

-----------------------------------------------------------------------------------------
-- Where signs make no difference
-----------------------------------------------------------------------------------------

section

variable {m n : Nat}

/-- A negative number divided by a positive one is something else than the same pattern without a
sign, unless nothing is divided.
-/
theorem negative_quotient_iff (large : signBit ≤ m) (fits : m < modulus) (small : n < signBit)
    (nonzero : n ≠ 0)
    : (modulus - (modulus - m) / n) % modulus = m / n ↔ n = 1 := by
  constructor
  · intro same
    by_contra several
    have positive : 0 < m / n := Nat.div_pos (by omega) (by omega)
    have half : m / n ≤ m / 2 := Nat.div_le_div_left (by omega) (by omega)
    have half' : (modulus - m) / n ≤ (modulus - m) / 2 :=
      Nat.div_le_div_left (by omega) (by omega)
    generalize m / n = first at *
    generalize (modulus - m) / n = second at *
    simp only [signBit, modulus] at *
    omega
  · rintro rfl
    rw [Nat.div_one, Nat.div_one]
    simp only [signBit, modulus] at *
    omega

/-- Without signs, a number is less than any that has one. -/
theorem quotient_by_negative_iff (small : m < signBit) (large : signBit ≤ n) (fits : n < modulus)
    : (modulus - m / (modulus - n)) % modulus = m / n ↔ m + n < modulus := by
  have positive : modulus - n ≠ 0 := Nat.sub_ne_zero_of_lt fits
  have bound : m / (modulus - n) ≤ m := Nat.div_le_self m _
  have none : m / (modulus - n) = 0 ↔ m < modulus - n := by
    rw [Nat.div_eq_zero_iff, or_iff_right positive]
  rw [Nat.div_eq_of_lt (Nat.lt_of_lt_of_le small large)]
  generalize m / (modulus - n) = quotient at *
  simp only [signBit, modulus] at *
  omega

theorem quotient_of_negatives_iff (large : signBit ≤ m) (fits : m < modulus)
    (large' : signBit ≤ n) (fits' : n < modulus)
    : (modulus - m) / (modulus - n) = m / n ↔ m = n := by
  rcases Nat.lt_trichotomy m n with less | rfl | more
  · have positive : 0 < (modulus - m) / (modulus - n) := Nat.div_pos (by omega) (by omega)
    rw [Nat.div_eq_of_lt less]
    omega
  · simp only [iff_true]
    rw [Nat.div_self (by omega), Nat.div_self (by simp only [signBit] at large; omega)]
  · have positive : 0 < m / n := Nat.div_pos (by omega) (by simp only [signBit] at large'; omega)
    rw [Nat.div_eq_of_lt (by omega)]
    omega

theorem negative_remainder_iff (small : n < signBit) (nonzero : n ≠ 0)
    : (modulus - (modulus - m) % n) % modulus = m % n
      ↔ m % n = 0 ∧ (modulus - m) % n = 0 := by
  have less : m % n < n := Nat.mod_lt m (Nat.pos_of_ne_zero nonzero)
  have less' : (modulus - m) % n < n := Nat.mod_lt _ (Nat.pos_of_ne_zero nonzero)
  generalize m % n = first at *
  generalize (modulus - m) % n = second at *
  simp only [signBit, modulus] at *
  omega

theorem remainder_by_negative_iff (small : m < signBit) (large : signBit ≤ n) (fits : n < modulus)
    : m % (modulus - n) = m % n ↔ m + n < modulus := by
  rw [Nat.mod_eq_of_lt (Nat.lt_of_lt_of_le small large)]
  constructor
  · intro same
    have less : m % (modulus - n) < modulus - n := Nat.mod_lt _ (by omega)
    omega
  · exact fun fits => Nat.mod_eq_of_lt (by omega)

theorem remainder_of_negatives_iff (large : signBit ≤ m) (fits : m < modulus)
    (large' : signBit ≤ n) (fits' : n < modulus)
    : (modulus - (modulus - m) % (modulus - n)) % modulus = m % n ↔ m = n := by
  rcases Nat.lt_trichotomy m n with less | rfl | more
  · have small : (modulus - m) % (modulus - n) < modulus - n := Nat.mod_lt _ (by omega)
    rw [Nat.mod_eq_of_lt less]
    generalize (modulus - m) % (modulus - n) = rest at *
    simp only [signBit, modulus] at *
    omega
  · simp [Nat.mod_self]
  · have less : m - n < n := by
      simp only [signBit, modulus] at *
      omega
    rw [Nat.mod_eq_of_lt (show modulus - m < modulus - n by omega),
      Nat.mod_eq_sub_mod (a := m) (Nat.le_of_lt more), Nat.mod_eq_of_lt less]
    simp only [signBit, modulus] at *
    omega

theorem shifted_negative_iff (large : signBit ≤ m) (fits : m < modulus) {count : Nat}
    : modulus - 1 - (modulus - 1 - m) >>> count = m >>> count ↔ count = 0 := by
  rw [Nat.shiftRight_eq_div_pow, Nat.shiftRight_eq_div_pow]
  constructor
  · intro same
    by_contra several
    have two : 2 ≤ 2 ^ count := Nat.le_self_pow several 2
    have half : m / 2 ^ count ≤ m / 2 := Nat.div_le_div_left two (by omega)
    have half' : (modulus - 1 - m) / 2 ^ count ≤ (modulus - 1 - m) / 2 :=
      Nat.div_le_div_left two (by omega)
    generalize m / 2 ^ count = first at *
    generalize (modulus - 1 - m) / 2 ^ count = second at *
    simp only [signBit, modulus] at *
    omega
  · rintro rfl
    rw [Nat.pow_zero, Nat.div_one, Nat.div_one]
    omega

end

theorem quotient_iff (nonzero : b.toNat ≠ 0)
    : (a.sdiv b).toNat = a.toNat / b.toNat ↔ QuotientIgnoresSigns a.toNat b.toNat := by
  have fits := isLt_modulus a
  have fits' := isLt_modulus b
  rw [toNat_sdiv, QuotientIgnoresSigns]
  generalize a.toNat = m at *
  generalize b.toNat = n at *
  by_cases small : m < signBit <;> by_cases small' : n < signBit
  · rw [if_pos small, if_pos small']
    simp only [true_iff]
    simp only [signBit, modulus] at *
    omega
  · rw [if_pos small, if_neg small', quotient_by_negative_iff small (by omega) fits']
    simp only [signBit, modulus] at *
    omega
  · rw [if_neg small, if_pos small', negative_quotient_iff (by omega) fits small' nonzero]
    omega
  · rw [if_neg small, if_neg small',
      quotient_of_negatives_iff (by omega) fits (by omega) fits']
    simp only [signBit, modulus] at *
    omega

theorem remainder_iff (nonzero : b.toNat ≠ 0)
    : (a.srem b).toNat = a.toNat % b.toNat ↔ BinaryOp.rem.IgnoresSigns a.toNat b.toNat := by
  have fits := isLt_modulus a
  have fits' := isLt_modulus b
  rw [toNat_srem, BinaryOp.IgnoresSigns, QuotientIgnoresSigns]
  generalize a.toNat = m at *
  generalize b.toNat = n at *
  by_cases small : m < signBit <;> by_cases small' : n < signBit
  · rw [if_pos small, if_pos small']
    simp only [true_iff]
    simp only [signBit, modulus] at *
    omega
  · rw [if_pos small, if_neg small', remainder_by_negative_iff small (by omega) fits']
    simp only [signBit, modulus] at *
    omega
  · rw [if_neg small, if_pos small', negative_remainder_iff small' nonzero]
    have one : n = 1 → m % n = 0 ∧ (modulus - m) % n = 0 := by
      rintro rfl
      exact ⟨Nat.mod_one _, Nat.mod_one _⟩
    omega
  · rw [if_neg small, if_neg small',
      remainder_of_negatives_iff (by omega) fits (by omega) fits']
    simp only [signBit, modulus] at *
    omega

theorem shiftRight_iff (count : Nat)
    : (a.sshiftRight count).toNat = a.toNat >>> count ↔ a.toNat < signBit ∨ count = 0 := by
  rw [toNat_sshiftRight]
  by_cases small : a.toNat < signBit
  · simp [small]
  · rw [if_neg small, or_iff_right small]
    exact shifted_negative_iff (Nat.not_lt.mp small) (isLt_modulus a)

theorem divides_of_ignoresSigns (nonzero : b.toNat ≠ 0)
    (ignores : BinaryOp.rem.IgnoresSigns a.toNat b.toNat)
    : divides a b = true := by
  have zero : b ≠ 0 := by
    rintro rfl
    exact nonzero rfl
  have overflow : ¬(a = BitVec.intMin 64 ∧ b = -1) := by
    rintro ⟨rfl, rfl⟩
    revert ignores
    simp only [BinaryOp.IgnoresSigns, QuotientIgnoresSigns]
    decide
  simp only [divides, Bool.and_eq_true, bne_iff_ne, Bool.not_eq_true', Bool.and_eq_false_iff,
    beq_eq_false_iff_ne]
  exact ⟨zero, not_and_or.mp overflow⟩

/-- An operator has the result that C gives to numbers without signs exactly where signs make no
difference.
-/
theorem BinaryOp.toNat_apply?_iff (op : BinaryOp) (defined : op.IsDefined b.toNat)
    : ( op.apply? a b).map BitVec.toNat = some (op.unsigned a.toNat b.toNat)
      ↔ op.IgnoresSigns a.toNat b.toNat := by
  cases op with
  | div =>
      by_cases has : divides a b = true
      · simp only [ BinaryOp.apply?, if_pos has, Option.map_some, Option.some_inj]
        exact quotient_iff defined
      · simp only [ BinaryOp.apply?, if_neg has, Option.map_none, reduceCtorEq, false_iff]
        exact fun ignores => has (divides_of_ignoresSigns defined (.inl ignores))
  | rem =>
      by_cases has : divides a b = true
      · simp only [ BinaryOp.apply?, if_pos has, Option.map_some, Option.some_inj]
        exact remainder_iff defined
      · simp only [ BinaryOp.apply?, if_neg has, Option.map_none, reduceCtorEq, false_iff]
        exact fun ignores => has (divides_of_ignoresSigns defined ignores)
  | shiftRight =>
      have count : b.toNat % 64 = b.toNat := Nat.mod_eq_of_lt defined
      simp only [ BinaryOp.apply?, count, Option.map_some, Option.some_inj]
      exact shiftRight_iff b.toNat
  | shiftLeft =>
      have count : b.toNat % 64 = b.toNat := Nat.mod_eq_of_lt defined
      simp only [ BinaryOp.apply?, count, Option.map_some, Option.some_inj]
      exact iff_of_true BitVec.toNat_shiftLeft trivial
  | mul => exact iff_of_true (congrArg some (BitVec.toNat_mul a b)) trivial
  | add => exact iff_of_true (congrArg some (BitVec.toNat_add a b)) trivial
  | sub => exact iff_of_true (congrArg some (BitVec.toNat_sub a b)) trivial
  | and => exact iff_of_true (congrArg some (BitVec.toNat_and a b)) trivial
  | xor => exact iff_of_true (congrArg some (BitVec.toNat_xor a b)) trivial
  | or => exact iff_of_true (congrArg some (BitVec.toNat_or a b)) trivial

theorem UnaryOp.toNat_apply (op : UnaryOp) (a : BitVec 64)
    : (op.apply a).toNat = op.unsigned a.toNat := by
  cases op with
  | negate => exact toNat_neg a
  | keep => rfl
  | complement => exact BitVec.toNat_not

-----------------------------------------------------------------------------------------
-- Trees of unsigned literals
-----------------------------------------------------------------------------------------

/-- The suffix of a literal is that of the unsigned type of 64 bits. -/
def Literal.IsUnsigned (literal : Literal) : Prop :=
  literal.suffix.map Char.toLower = ['u', 'l', 'l']

theorem Literal.IsUnsigned.isLong {literal : Literal} (unsigned : literal.IsUnsigned)
    : literal.IsLong := by
  refine .inr ?_
  have letters := literal.suffixed
  unfold IsUnsigned at unsigned
  generalize literal.suffix = suffix at *
  obtain ⟨first, suffix, rfl, -, unsigned⟩ := List.map_eq_cons_iff.mp unsigned
  obtain ⟨second, suffix, rfl, isSecond, unsigned⟩ := List.map_eq_cons_iff.mp unsigned
  obtain ⟨third, suffix, rfl, isThird, -⟩ := List.map_eq_cons_iff.mp unsigned
  simp only [List.forall_mem_cons] at letters
  have isL (c : Char) (letter : c ∈ ['u', 'U', 'l', 'L']) (lower : c.toLower = 'l')
      : (c == 'l' || c == 'L') = true := by
    simp only [List.mem_cons, List.not_mem_nil, or_false] at letter
    rcases letter with rfl | rfl | rfl | rfl <;> revert lower <;> decide
  simp only [List.countP_cons, isL second letters.2.1 isSecond, isL third letters.2.2.1 isThird,
    if_true]
  omega

namespace Tree

/-- Every leaf of a tree is an unsigned literal of 64 bits. -/
def IsUnsigned : Tree → Prop
  | literal numeral => numeral.IsUnsigned
  | constant _ => False
  | unary _ operand => operand.IsUnsigned
  | binary _ left right => left.IsUnsigned ∧ right.IsUnsigned

/-- The number that C gives to a tree of unsigned literals of 64 bits. -/
def unsigned : Tree → Nat
  | literal numeral => numeral.number
  | constant _ => 0
  | unary op operand => op.unsigned operand.unsigned
  | binary op left right => op.unsigned left.unsigned right.unsigned

/-- No divisor in a tree is zero, and no number is shifted by 64 bits or more. -/
def IsDefined : Tree → Prop
  | literal _ | constant _ => True
  | unary _ operand => operand.IsDefined
  | binary op left right => left.IsDefined ∧ right.IsDefined ∧ op.IsDefined right.unsigned

/-- Signs make no difference to any operator in a tree. -/
def IgnoresSigns : Tree → Prop
  | literal _ | constant _ => True
  | unary _ operand => operand.IgnoresSigns
  | binary op left right =>
      left.IgnoresSigns ∧ right.IgnoresSigns ∧ op.IgnoresSigns left.unsigned right.unsigned

variable {scope : Scope} {tree left right : Tree} {expr : Expr}

theorem IsUnsigned.isKnown (unsigned : tree.IsUnsigned) : tree.IsKnown scope := by
  induction tree with
  | literal => trivial
  | constant => exact unsigned.elim
  | unary op operand ih => exact ih unsigned
  | binary op left right leftIh rightIh => exact ⟨leftIh unsigned.1, rightIh unsigned.2⟩

theorem IsUnsigned.asksWide (unsigned : tree.IsUnsigned) : tree.AsksWide scope := by
  induction tree with
  | literal numeral => exact Literal.IsUnsigned.isLong unsigned
  | constant => exact unsigned.elim
  | unary op operand ih => exact ih unsigned
  | binary op left right leftIh => exact .inl (leftIh unsigned.1)

/-- A tree in which signs make no difference is evaluated to its number. By induction on the tree.
-/
theorem IsUnsigned.toNat_eval? (unsigned : tree.IsUnsigned) (defined : tree.IsDefined)
    (ignores : tree.IgnoresSigns) (read : tree.expr? scope = some expr)
    : expr.eval?.map BitVec.toNat = some tree.unsigned := by
  induction tree generalizing expr with
  | literal numeral =>
      cases read
      rw [Expr.eval?, Option.map_some, BitVec.toNat_ofNat, Nat.mod_eq_of_lt numeral.fits]
      rfl
  | constant => exact unsigned.elim
  | unary op operand ih =>
      obtain ⟨inside, found, rfl⟩ := Option.map_eq_some_iff.mp read
      obtain ⟨bits, value, same⟩ := Option.map_eq_some_iff.mp (ih unsigned defined ignores found)
      rw [Expr.eval?, value, Option.map_some, Option.map_some, op.toNat_apply, same]
      rfl
  | binary op left right leftIh rightIh =>
      obtain ⟨first, leftFound, more⟩ := Option.bind_eq_some_iff.mp read
      obtain ⟨second, rightFound, same⟩ := Option.bind_eq_some_iff.mp more
      cases same
      obtain ⟨a, leftValue, sameLeft⟩ :=
        Option.map_eq_some_iff.mp (leftIh unsigned.1 defined.1 ignores.1 leftFound)
      obtain ⟨b, rightValue, sameRight⟩ :=
        Option.map_eq_some_iff.mp (rightIh unsigned.2 defined.2.1 ignores.2.1 rightFound)
      have result := op.toNat_apply?_iff (a := a) (b := b) (by rw [sameRight]; exact defined.2.2)
      rw [sameLeft, sameRight] at result
      simp only [Expr.eval?, leftValue, rightValue, Option.bind_eq_bind, Option.bind_some]
      exact result.mpr ignores.2.2

/-- An operator behind which signs make no difference gives the number of C exactly where they make
none to itself.
-/
theorem IsUnsigned.toNat_eval?_binary {op : BinaryOp}
    (unsigned : (binary op left right).IsUnsigned) (defined : (binary op left right).IsDefined)
    (ignoresLeft : left.IgnoresSigns) (ignoresRight : right.IgnoresSigns)
    (read : (binary op left right).expr? scope = some expr)
    : expr.eval?.map BitVec.toNat = some (binary op left right).unsigned
      ↔ op.IgnoresSigns left.unsigned right.unsigned := by
  obtain ⟨first, leftFound, more⟩ := Option.bind_eq_some_iff.mp read
  obtain ⟨second, rightFound, same⟩ := Option.bind_eq_some_iff.mp more
  cases same
  obtain ⟨a, leftValue, sameLeft⟩ :=
    Option.map_eq_some_iff.mp (toNat_eval? unsigned.1 defined.1 ignoresLeft leftFound)
  obtain ⟨b, rightValue, sameRight⟩ :=
    Option.map_eq_some_iff.mp (toNat_eval? unsigned.2 defined.2.1 ignoresRight rightFound)
  have result := op.toNat_apply?_iff (a := a) (b := b) (by rw [sameRight]; exact defined.2.2)
  rw [sameLeft, sameRight] at result
  simp only [Expr.eval?, leftValue, rightValue, Option.bind_eq_bind, Option.bind_some]
  exact result

end Tree

-----------------------------------------------------------------------------------------
-- Texts
-----------------------------------------------------------------------------------------

namespace Scope

variable {scope : Scope} {text : List Char} {words : List Lexeme} {tree : Tree}

/-- A text has the number that C gives to an unsigned constant of 64 bits. -/
def HasUnsigned (scope : Scope) (text : List Char) (number : Nat) : Prop :=
  ∃ value, scope.eval? text = some value ∧ value.width = .wide ∧ value.bits.toNat = number

/-- The value of a text that writes a tree of unsigned literals is that of C, if it has the bits of
it.
-/
theorem hasUnsigned_iff (writes : WritesWords text words) (written : tree.IsWritten 0 words)
    (unsigned : tree.IsUnsigned) (number : Nat)
    : scope.HasUnsigned text number
      ↔ ∃ expr, tree.expr? scope = some expr ∧ expr.eval?.map BitVec.toNat = some number := by
  obtain ⟨expr, read, evaluated⟩ := writes.eval? written unsigned.isKnown
  rw [HasUnsigned, evaluated, read]
  constructor
  · rintro ⟨value, found, -, rfl⟩
    obtain ⟨bits, computed, rfl⟩ := Option.map_eq_some_iff.mp found
    exact ⟨expr, rfl, by rw [computed, Option.map_some]⟩
  · rintro ⟨_, ⟨⟩, computed⟩
    obtain ⟨bits, isBits, rfl⟩ := Option.map_eq_some_iff.mp computed
    have long := (tree.isLong_iff read).mpr unsigned.asksWide
    exact ⟨{ bits, width := .wide }, by simp [Expr.value?, isBits, long], rfl, rfl⟩

/-- How a scope evaluates the texts that write trees of unsigned literals of 64 bits. -/
structure EvaluatesUnsigned (scope : Scope) : Prop where
  /-- Where signs make no difference, a text has the number that C gives to it. -/
  number
    : ∀ {text words} {tree : Tree},
        WritesWords text words
        → tree.IsWritten 0 words
        → tree.IsUnsigned
        → tree.IsDefined
        → tree.IgnoresSigns
        → scope.HasUnsigned text tree.unsigned
  /-- The first operator to which they make a difference gives another number. -/
  differs
    : ∀ {text words op left right},
        WritesWords text words
        → Tree.IsWritten 0 (.binary op left right) words
        → Tree.IsUnsigned (.binary op left right)
        → Tree.IsDefined (.binary op left right)
        → Tree.IgnoresSigns left
        → Tree.IgnoresSigns right
        → (scope.HasUnsigned text (Tree.unsigned (.binary op left right))
          ↔ op.IgnoresSigns left.unsigned right.unsigned)

/-- Unsigned constants of 64 bits have their numbers where signs make no difference to them. -/
theorem evaluatesUnsigned (scope : Scope) : scope.EvaluatesUnsigned where
  number := by
    intro text words tree writes written unsigned defined ignores
    obtain ⟨expr, read⟩ : ∃ expr, tree.expr? scope = some expr :=
      Tree.exists_expr? unsigned.isKnown
    exact (hasUnsigned_iff writes written unsigned _).mpr
      ⟨expr, read, unsigned.toNat_eval? defined ignores read⟩
  differs := by
    intro text words op left right writes written unsigned defined ignoresLeft ignoresRight
    obtain ⟨expr, read⟩ : ∃ expr, Tree.expr? scope (.binary op left right) = some expr :=
      Tree.exists_expr? unsigned.isKnown
    rw [hasUnsigned_iff writes written unsigned, read,
      ← unsigned.toNat_eval?_binary defined ignoresLeft ignoresRight read]
    simp

/-- The greatest number of 64 bits. -/
def allOnes : Literal where
  base := .hexadecimal false
  digits := "FFFFFFFFFFFFFFFF".toList
  suffix := "ull".toList
  number := 0xFFFFFFFFFFFFFFFF
  spells := spells_of_numeral? (by decide +kernel)
  leads := by rintro ⟨⟩
  fits := by decide
  suffixed := by decide

def two : Literal where
  base := .decimal
  digits := ['2']
  suffix := "ull".toList
  number := 2
  spells := spells_of_numeral? (by decide +kernel)
  leads := fun _ zero => absurd zero (by decide)
  fits := by decide
  suffixed := by decide

/-- Half of the greatest number. -/
def halfOnes : Tree :=
  .binary .div (.literal allOnes) (.literal two)

theorem halfOnes_not_hasUnsigned
    : WritesWords "0xFFFFFFFFFFFFFFFFull / 2ull".toList
        [.literal allOnes, .operator .div, .literal two]
      ∧ halfOnes.IsWritten 0 [.literal allOnes, .operator .div, .literal two]
      ∧ halfOnes.IsUnsigned
      ∧ halfOnes.IsDefined
      ∧ ¬initial.HasUnsigned "0xFFFFFFFFFFFFFFFFull / 2ull".toList halfOnes.unsigned := by
  have written : halfOnes.IsWritten 0 ([.literal allOnes] ++ .operator .div :: [.literal two]) :=
    .binary (Nat.zero_le _) .literal .literal
  have suffixed (literal : Literal) (suffix : literal.suffix = "ull".toList)
      : literal.IsUnsigned := by
    rw [Literal.IsUnsigned, suffix]
    decide
  have nonzero : two.number ≠ 0 := by decide
  refine ⟨show Token.pieces _ = _ by decide +kernel, written,
    ⟨suffixed allOnes rfl, suffixed two rfl⟩, ⟨trivial, trivial, nonzero⟩, ?_⟩
  rintro ⟨value, evaluated, -, same⟩
  have zero
      : initial.eval? "0xFFFFFFFFFFFFFFFFull / 2ull".toList
        = some { bits := 0, width := .wide } := by
    decide +kernel
  rw [zero] at evaluated
  cases evaluated
  exact absurd same (by decide)

end Scope

end ApiBindings.Constant
