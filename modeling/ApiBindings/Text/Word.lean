import ApiBindings.Text.WordTable

/-! Word characters, identifiers, and the search for the first place where something can be read.
An identifier starts with an ASCII letter or an underscore and goes on for as long as word
characters follow.
-/

namespace ApiBindings.Text

/-- Letters, marks, decimal digits and connecting punctuation of Unicode. -/
def isWordChar (c : Char) : Bool :=
  if c.toNat < 0x80 then
    c.isAlphanum || c == '_'
  else
    wordRanges.any fun range => range.1 ≤ c.toNat && c.toNat ≤ range.2

def isNameStart (c : Char) : Bool :=
  c.isAlpha || c == '_'

/-- Whether exactly one of two neighbouring places holds a word character. -/
def isBoundary (before after : Option Char) : Bool :=
  before.any isWordChar != after.any isWordChar

/-- The identifier at the front of a text, with what follows it. -/
def identifier? : List Char → Option (List Char × List Char)
  | [] => none
  | c :: cs =>
      if isNameStart c then
        some (c :: cs.takeWhile isWordChar, cs.dropWhile isWordChar)
      else
        none

/-- A whole text that is one identifier. -/
def isIdentifier : List Char → Bool
  | [] => false
  | c :: cs => isNameStart c && cs.all isWordChar

theorem length_dropWhile_le {α : Type} (p : α → Bool) (xs : List α)
    : (xs.dropWhile p).length ≤ xs.length :=
  (List.dropWhile_suffix p).length_le

/-- The identifiers of a text, each read as far as it goes before the next is looked for. -/
def identifiers (cs : List Char) : List (List Char) :=
  match cs with
  | [] => []
  | c :: rest =>
      if isNameStart c then
        (c :: rest.takeWhile isWordChar) :: identifiers (rest.dropWhile isWordChar)
      else
        identifiers rest
termination_by cs.length
decreasing_by
  · exact Nat.lt_succ_of_le (length_dropWhile_le _ _)
  · exact Nat.lt_succ_self _

/-- The first place at which `read` succeeds, as the text before it and what was read there.
`read` is given the character before the place and the text from it on. -/
def find? {α : Type} (read : Option Char → List Char → Option α)
    : Option Char → List Char → Option (List Char × α)
  | before, [] => (read before []).map fun found => ([], found)
  | before, c :: cs =>
      match read before (c :: cs) with
      | some found => some ([], found)
      | none => (find? read (some c) cs).map fun (skipped, found) => (c :: skipped, found)

/-- Drops a fixed text from the front. -/
def strip? : List Char → List Char → Option (List Char)
  | [], cs => some cs
  | _ :: _, [] => none
  | p :: ps, c :: cs => if p = c then strip? ps cs else none

theorem eq_append_of_strip? {start cs rest : List Char} (h : strip? start cs = some rest)
    : cs = start ++ rest := by
  induction start generalizing cs with
  | nil =>
      cases h
      rfl
  | cons p ps ih =>
      cases cs with
      | nil => cases h
      | cons c cs =>
          simp only [strip?] at h
          split at h
          · rename_i hp
            rw [hp, ih h, List.cons_append]
          · cases h

/-- Whether `part` occurs somewhere in a text. -/
def contains (part cs : List Char) : Bool :=
  (find? (fun _ rest => strip? part rest) none cs).isSome

/-- The pieces of a text between the cuts at `separator` that stand outside of all parentheses
and brackets. A closing sign that closes nothing is kept and ignored. -/
def cutOutside (separator : Char) (depth : Nat) : List Char → List (List Char)
  | [] => [[]]
  | c :: cs =>
      if c == separator && depth == 0 then
        [] :: cutOutside separator 0 cs
      else
        let inner :=
          if c == '(' || c == '[' then depth + 1
          else if c == ')' || c == ']' then depth - 1
          else depth
        match cutOutside separator inner cs with
        | [] => [[c]]
        | piece :: rest => (c :: piece) :: rest

end ApiBindings.Text
