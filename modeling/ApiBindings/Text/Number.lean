import ApiBindings.Text.Blank

/-! Numerals: reading decimal counts and writing decimal and hexadecimal ones. -/

namespace ApiBindings.Text

/-- The value of one digit of a numeral in any base up to sixteen. -/
def digitValue (c : Char) : Nat :=
  if c.isDigit then c.toNat - '0'.toNat
  else if 'a' ≤ c ∧ c ≤ 'f' then c.toNat - 'a'.toNat + 10
  else if 'A' ≤ c ∧ c ≤ 'F' then c.toNat - 'A'.toNat + 10
  else 16

/-- The number that a text of digits denotes, when it has a digit and each fits the base. -/
def numeral? (base : Nat) (digits : List Char) : Option Nat :=
  if digits.isEmpty || digits.any (fun c => base ≤ digitValue c) then
    none
  else
    some (digits.foldl (fun total c => total * base + digitValue c) 0)

/-- Reads a decimal count below `bound`; one plus sign may stand in front. -/
def count? (bound : Nat) (cs : List Char) : Option Nat := do
  let digits := match cs with
    | '+' :: rest => rest
    | _ => cs
  let n ← numeral? 10 digits
  if n < bound then some n else none

/-- Upper case hexadecimal digits, filled up with zeros on the left to `width` places. -/
def hex (width n : Nat) : String :=
  let digits := (Nat.toDigits 16 n).map Char.toUpper
  String.ofList (List.replicate (width - digits.length) '0' ++ digits)

end ApiBindings.Text
