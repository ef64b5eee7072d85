import ApiBindings.Constant.Reader

/-! Values that fit the width they are declared in.
A narrow value is a number of 32 bits, be it a signed or an unsigned one. Constant expressions and
bit patterns are given the width that their number needs, and a value that is made wide fits anyway.
-/

namespace ApiBindings

/-- A narrow value is a number of 32 bits. -/
def Value.FitsWidth (value : Value) : Prop :=
  value.width = .narrow → -0x80000000 ≤ value.bits.toInt ∧ value.bits.toInt ≤ 0xFFFFFFFF

theorem Value.fitsWidth_wide (bits : BitVec 64) : FitsWidth { bits, width := .wide } := by
  rintro ⟨⟩

theorem Value.fitsWidth_ofBits (bits : BitVec 64) : (ofBits bits).FitsWidth := by
  intro narrow
  unfold ofBits at narrow
  dsimp only at narrow
  split at narrow
  · rename_i inRange
    simp only [isNarrow, Bool.and_eq_true, decide_eq_true_eq] at inRange
    exact ⟨inRange.1, Int.le_of_lt_add_one inRange.2⟩
  · cases narrow

/-- A tree without wide leaves has the width that its number needs. -/
theorem Constant.Expr.fitsWidth_of_value? {expr : Expr} {value : Value}
    (found : expr.value? = some value)
    : value.FitsWidth := by
  obtain ⟨bits, -, rfl⟩ := Option.map_eq_some_iff.mp found
  cases expr.isLong with
  | true => exact Value.fitsWidth_wide bits
  | false => exact Value.fitsWidth_ofBits bits

theorem Constant.Scope.fitsWidth_of_eval? {scope : Scope} {text : List Char} {value : Value}
    (found : scope.eval? text = some value)
    : value.FitsWidth := by
  simp only [eval?, Option.bind_eq_bind, Option.bind_eq_some_iff] at found
  obtain ⟨tokens, -, expr, -, evaluated⟩ := found
  exact expr.fitsWidth_of_value? evaluated

end ApiBindings
