import ApiBindings.Proofs.Constant.Notation
import Mathlib.Tactic.Ring

/-! The patterns of bits that operators compute are those of the integers that they stand for. -/

namespace ApiBindings.Constant

variable {a b : BitVec 64}

theorem pattern_toInt (a : BitVec 64) : pattern a.toInt = a.toNat := by
  unfold pattern
  rw [BitVec.toInt_eq_toNat_bmod]
  have bound := a.isLt
  simp only [Int.bmod_def]
  omega

theorem toNat_mod_64 (b : BitVec 64) : (b.toInt % 64).toNat = b.toNat % 64 := by
  have whole := pattern_toInt b
  unfold pattern at whole
  omega

theorem UnaryOp.toInt_apply (op : UnaryOp) (a : BitVec 64)
    : (op.apply a).toInt = op.denote a.toInt := by
  cases op with
  | negate => exact BitVec.toInt_neg
  | keep => rfl
  | complement =>
      have bound := a.isLt
      rw [UnaryOp.apply, UnaryOp.denote, BitVec.toInt_not, BitVec.toInt_eq_toNat_cond,
        Int.bmod_def]
      omega

/-- A quotient is too large only where the least number is divided by minus one. -/
theorem tdiv_lt_iff
    : a.toInt.tdiv b.toInt < 0x8000000000000000 ↔ a ≠ BitVec.intMin 64 ∨ b ≠ -1 := by
  constructor
  · rw [← not_and_or]
    rintro small ⟨rfl, rfl⟩
    exact absurd small (by decide)
  · intro inRange
    rw [← BitVec.toInt_sdiv_of_ne_or_ne a b inRange]
    exact BitVec.toInt_lt

theorem divides_iff : divides a b = true ↔ HasQuotient a.toInt b.toInt := by
  have nonzero : b.toInt ≠ 0 ↔ b ≠ 0 := by
    rw [not_iff_not, ← BitVec.toInt_inj]
    rfl
  rw [HasQuotient, nonzero, tdiv_lt_iff, ← not_and_or]
  simp only [divides, Bool.and_eq_true, bne_iff_ne, Bool.not_eq_true', ← Bool.not_eq_true,
    beq_iff_eq]

/-- An operator on patterns computes the pattern of what it computes on integers. -/
theorem BinaryOp.toInt_apply? (op : BinaryOp) (a b : BitVec 64)
    : ( op.apply? a b).map BitVec.toInt = op.denote? a.toInt b.toInt := by
  cases op with
  | mul => exact congrArg some (BitVec.toInt_mul a b)
  | add => exact congrArg some (BitVec.toInt_add a b)
  | sub => exact congrArg some BitVec.toInt_sub
  | div =>
      by_cases has : divides a b = true
      · have inRange := tdiv_lt_iff.mp (divides_iff.mp has).2
        simp [ BinaryOp.apply?, denote?, has, divides_iff.mp has,
          BitVec.toInt_sdiv_of_ne_or_ne a b inRange]
      · simp [ BinaryOp.apply?, denote?, has, mt divides_iff.mpr has]
  | rem =>
      by_cases has : divides a b = true
      · simp [ BinaryOp.apply?, denote?, has, divides_iff.mp has, BitVec.toInt_srem]
      · simp [ BinaryOp.apply?, denote?, has, mt divides_iff.mpr has]
  | shiftLeft =>
      simp only [ BinaryOp.apply?, denote?, Option.map_some, toNat_mod_64]
      rw [BitVec.toInt_shiftLeft, Nat.shiftLeft_eq, wrap, BitVec.toInt_eq_toNat_bmod]
      simp
  | shiftRight =>
      simp [ BinaryOp.apply?, denote?, toNat_mod_64, BitVec.toInt_sshiftRight, Int.shiftRight_eq_div_pow]
  | and =>
      simp only [ BinaryOp.apply?, denote?, Option.map_some, pattern_toInt]
      exact congrArg some (BitVec.toInt_and a b)
  | or =>
      simp only [ BinaryOp.apply?, denote?, Option.map_some, pattern_toInt]
      exact congrArg some (BitVec.toInt_or a b)
  | xor =>
      simp only [ BinaryOp.apply?, denote?, Option.map_some, pattern_toInt]
      exact congrArg some (BitVec.toInt_xor a b)

end ApiBindings.Constant
