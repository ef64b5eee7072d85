import ApiBindings.Text.Number

/-! Numerals that are written are read back as the numbers they were written for. -/

namespace ApiBindings.Text

/-- Digits that all fit a base, and the number that they denote. -/
structure Spells (base : Nat) (digits : List Char) (n : Nat) : Prop where
  nonempty : digits ≠ []
  fits : ∀ digit ∈ digits, digitValue digit < base
  total : digits.foldl (fun total digit => total * base + digitValue digit) 0 = n

theorem Spells.numeral? {base n : Nat} {digits : List Char} (spells : Spells base digits n)
    : numeral? base digits = some n := by
  have fits : digits.any (fun digit => base ≤ digitValue digit) = false := by
    simpa using spells.fits
  have nonempty : digits.isEmpty = false := by simpa using spells.nonempty
  simp only [Text.numeral?, nonempty, fits, Bool.or_self, Bool.false_eq_true, if_false,
    spells.total]

/-- One more digit moves the number up by one place. -/
theorem Spells.concat {base n : Nat} {digits : List Char} (spells : Spells base digits n)
    {digit : Char} (fits : digitValue digit < base)
    : Spells base (digits ++ [digit]) (n * base + digitValue digit) where
  nonempty := by simp
  fits := by
    intro other member
    rcases List.mem_append.mp member with earlier | last
    · exact spells.fits other earlier
    · exact List.mem_singleton.mp last ▸ fits
  total := by simp [List.foldl_append, spells.total]

theorem Spells.singleton {base : Nat} {digit : Char} (fits : digitValue digit < base)
    : Spells base [digit] (digitValue digit) where
  nonempty := by simp
  fits := by simpa using fits
  total := by simp

/-- Zeros in front of a numeral do not count, by induction on the zeros. -/
theorem Spells.pad {base n : Nat} {digits : List Char} (spells : Spells base digits n)
    (zeros : Nat)
    : Spells base (List.replicate zeros '0' ++ digits) n := by
  have positive : 0 < base := by
    obtain ⟨first, member⟩ := List.exists_mem_of_ne_nil digits spells.nonempty
    exact Nat.zero_lt_of_lt (spells.fits first member)
  have zero : digitValue '0' = 0 := by decide
  induction zeros with
  | zero => exact spells
  | succ zeros ih =>
      rw [List.replicate_succ, List.cons_append]
      refine ⟨by simp, ?_, ?_⟩
      · intro digit member
        rcases List.mem_cons.mp member with rfl | later
        · exact zero ▸ positive
        · exact ih.fits digit later
      · rw [List.foldl_cons, zero, Nat.zero_mul]
        exact ih.total

/-- Writing in a base and changing how digits look spells the number, as long as no digit changes
its value. By strong induction on the number, which loses its last digit.
-/
theorem spells_toDigits {base : Nat} (least : 1 < base) {look : Char → Char}
    (looks : ∀ digit < base, digitValue (look digit.digitChar) = digit) (n : Nat)
    : Spells base ((Nat.toDigits base n).map look) n := by
  induction n using Nat.strongRecOn with
  | ind n ih =>
      by_cases single : n < base
      · have digit := looks n single
        have spells : Spells base [look n.digitChar] (digitValue (look n.digitChar)) :=
          .singleton (by rwa [digit])
        rw [digit] at spells
        rwa [Nat.toDigits_of_lt_base single]
      · have rest := ih (n / base) (Nat.div_lt_self (by omega) least)
        have last : n % base < base := Nat.mod_lt n (by omega)
        have digit := looks (n % base) last
        have fits : digitValue (look (n % base).digitChar) < base := by rwa [digit]
        have spells := rest.concat fits
        rw [digit, Nat.div_add_mod'] at spells
        rwa [Nat.toDigits_of_base_le least (by omega), List.map_append]

theorem spells_repr (n : Nat) : Spells 10 (toString n).toList n := by
  have spells : Spells 10 ((Nat.toDigits 10 n).map id) n :=
    spells_toDigits (by decide) (by decide) n
  rw [List.map_id] at spells
  rwa [Nat.toString_eq_ofList_toDigits, String.toList_ofList]

/-- Hexadecimal numerals spell their number, whatever width they are filled up to. -/
theorem spells_hex (width n : Nat) : Spells 16 (hex width n).toList n := by
  have spells : Spells 16 ((Nat.toDigits 16 n).map Char.toUpper) n :=
    spells_toDigits (by decide) (by decide) n
  rw [hex, String.toList_ofList]
  exact spells.pad _

end ApiBindings.Text
