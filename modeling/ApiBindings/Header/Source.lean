import ApiBindings.Text.Blank
import ApiBindings.Text.Word

/-! The text of a header before it is read as C: without comments, with continued lines joined,
and without the openings of `extern "C"`. Every line break that is taken out is put back at a
later place, so that a line that stays keeps its number.
-/

namespace ApiBindings.Header

open ApiBindings.Text

/-- What follows a block comment that has been opened, with the number of line breaks in it.
There is nothing if the comment is never closed. -/
def closeComment? (passed : Nat) : List Char → Option (Nat × List Char)
  | [] => none
  | '*' :: '/' :: rest => some (passed, rest)
  | c :: rest => closeComment? (if c = '\n' then passed + 1 else passed) rest

theorem length_of_closeComment? {passed found : Nat} {cs rest : List Char}
    (h : closeComment? passed cs = some (found, rest))
    : rest.length < cs.length := by
  fun_induction closeComment? passed cs with
  | case1 => cases h
  | case2 passed later =>
      cases h
      simp only [List.length_cons]
      omega
  | case3 passed c later _ ih => exact Nat.lt_succ_of_lt (ih h)

def lineBreaks (n : Nat) : List Char :=
  List.replicate n '\n'

/-- Takes the comments out of a text, given what stands before it in reverse. Of a comment only
its line breaks stay. A block comment that is never closed is no comment. -/
def stripInto (done cs : List Char) : List Char :=
  match cs with
  | [] => done.reverse
  | '/' :: '/' :: rest => stripInto done (rest.dropWhile (· != '\n'))
  | '/' :: '*' :: rest =>
      match _h : closeComment? 0 rest with
      | some (found, after) => stripInto (lineBreaks found ++ done) after
      | none => stripInto ('/' :: done) ('*' :: rest)
  | c :: rest => stripInto (c :: done) rest
termination_by cs.length
decreasing_by
  · have h := length_dropWhile_le (· != '\n') rest
    simp only [List.length_cons]
    omega
  · have h := length_of_closeComment? _h
    simp only [List.length_cons]
    omega
  · exact Nat.lt_succ_self _
  · exact Nat.lt_succ_self _

def stripComments (cs : List Char) : List Char :=
  stripInto [] cs

/-- A line without the backslash at its end, if it has one. -/
def continued? (line : List Char) : Option (List Char) :=
  if line.getLast? = some '\\' then some line.dropLast else none

/-- Joins continued lines, `held` being the number of joined line breaks that have not been put
back yet. They follow the line that ends the joining. -/
def joinLines (held : Nat) : List (List Char) → List Char
  | [] => []
  | line :: rest =>
      match continued? (dropReturn line) with
      | some head => head ++ ' ' :: joinLines (held + 1) rest
      | none =>
          dropReturn line ++ lineBreaks (held + if rest.isEmpty then 0 else 1)
            ++ joinLines 0 rest

/-- Joins every line that ends in a backslash with the next one. -/
def joinContinued (cs : List Char) : List Char :=
  joinLines 0 (cut isBreak cs)

/-- What follows the opening of an `extern "C"` block at the front of a text, with the number of
line breaks in the opening. -/
def linkage? (cs : List Char) : Option (Nat × List Char) := do
  let rest ← strip? "extern".toList cs
  let quoted ← strip? "\"C\"".toList (trimStart rest)
  let after ← strip? ['\x7b'] (trimStart quoted)
  some (breaks cs - breaks after, after)

theorem length_of_linkage? {found : Nat} {cs rest : List Char}
    (h : linkage? cs = some (found, rest))
    : rest.length < cs.length := by
  unfold linkage? at h
  simp only [Option.bind_eq_bind, Option.bind_eq_some_iff] at h
  obtain ⟨first, hf, second, hs, after, ha, he⟩ := h
  cases he
  have hf := congrArg List.length (eq_append_of_strip? hf)
  have hs := congrArg List.length (eq_append_of_strip? hs)
  have ha := congrArg List.length (eq_append_of_strip? ha)
  have hl : (trimStart first).length ≤ first.length := length_dropWhile_le isBlank first
  have hm : (trimStart second).length ≤ second.length := length_dropWhile_le isBlank second
  simp only [List.length_append, List.length_cons, List.length_nil] at hf hs ha
  omega

/-- Takes the openings of `extern "C"` out of a text, given what stands before it in reverse.
An opening leaves its line breaks, or else one blank. -/
def unlinkInto (done cs : List Char) : List Char :=
  match cs with
  | [] => done.reverse
  | c :: rest =>
      match _h : linkage? (c :: rest) with
      | some (found, after) =>
          unlinkInto ((if found = 0 then [' '] else lineBreaks found) ++ done) after
      | none => unlinkInto (c :: done) rest
termination_by cs.length
decreasing_by
  · exact length_of_linkage? _h
  · exact Nat.lt_succ_self _

/-- The text of a header as it is read. -/
def prepare (cs : List Char) : List Char :=
  unlinkInto [] (joinContinued (stripComments cs))

end ApiBindings.Header
