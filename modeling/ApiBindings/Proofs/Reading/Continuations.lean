import ApiBindings.Proofs.Reading.Comments

/-! Continued lines and comments.
A continued line is joined with the next one only where no comment is: comments are taken out first.
So a comment behind two slashes ends with its line, whether or not a backslash stands there. Where
no line is continued inside of a comment, the lines may just as well be joined before.
-/

namespace ApiBindings.Header

open ApiBindings.Text

-----------------------------------------------------------------------------------------
-- Joining sign by sign
-----------------------------------------------------------------------------------------

/-- What may stand between the last sign of a line and its break. -/
def IsReturn (ret : List Char) : Prop :=
  ret = [] ∨ ret = ['\r']

/-- There is nothing left of the line that a text starts with. -/
def AtLineEnd (cs : List Char) : Prop :=
  ∃ ret, IsReturn ret ∧ (cs = ret ∨ ∃ back, cs = ret ++ '\n' :: back)

/-- A text with its continued lines joined, behind lines whose breaks are still to be put back. -/
def joinFrom (held : Nat) (cs : List Char) : List Char :=
  joinLines held (cut isBreak cs)

/-- A sign that belongs to its line: it neither ends the line nor continues it. -/
def IsInside (c : Char) (cs : List Char) : Prop :=
  ¬AtLineEnd (c :: cs) ∧ (c = '\\' → ¬AtLineEnd cs)

section

variable {held : Nat} {c : Char} {cs ret back : List Char}

theorem IsReturn.cut_eq (isReturn : IsReturn ret) : cut isBreak ret = [ret] := by
  rcases isReturn with rfl | rfl <;> rfl

theorem IsReturn.cut_append (isReturn : IsReturn ret) (back : List Char)
    : cut isBreak (ret ++ '\n' :: back) = ret :: cut isBreak back := by
  rw [cut_append_of_cut (by decide), isReturn.cut_eq]
  rfl

theorem IsReturn.dropReturn_eq (isReturn : IsReturn ret) : dropReturn ret = [] := by
  rcases isReturn with rfl | rfl <;> rfl

theorem isReturn_of_dropReturn {line : List Char} (ends : dropReturn line = []) : IsReturn line := by
  rw [dropReturn] at ends
  split at ends
  · rename_i last
    have whole := List.dropLast_append_getLast? '\r' (eq_of_beq last)
    rw [ends] at whole
    exact .inr whole.symm
  · exact .inl ends

theorem atLineEnd_of_cut {line : List Char} {rest : List (List Char)}
    (shape : cut isBreak cs = line :: rest) (ends : dropReturn line = [])
    : AtLineEnd cs := by
  have whole := joinedLines_cut cs
  rw [shape] at whole
  refine ⟨line, isReturn_of_dropReturn ends, ?_⟩
  cases rest with
  | nil => exact .inl (whole.symm.trans (by simp [joinedLines]))
  | cons next rest =>
      rw [joinedLines_cons_cons] at whole
      exact .inr ⟨_, whole.symm⟩

theorem joinFrom_return (isReturn : IsReturn ret) : joinFrom held ret = lineBreaks held := by
  have none : continued? [] = none := rfl
  rw [joinFrom, isReturn.cut_eq, joinLines, isReturn.dropReturn_eq, none]
  simp [joinLines]

/-- The breaks of joined lines are put back behind the line that ends the joining. -/
theorem joinFrom_break (isReturn : IsReturn ret)
    : joinFrom held (ret ++ '\n' :: back) = lineBreaks (held + 1) ++ joinFrom 0 back := by
  have none : continued? [] = none := rfl
  have more : (cut isBreak back).isEmpty = false := by simp [cut_ne_nil]
  rw [joinFrom, isReturn.cut_append, joinLines, isReturn.dropReturn_eq, none, joinFrom]
  simp [more]

theorem joinFrom_cons_break : joinFrom held ('\n' :: back) = lineBreaks (held + 1) ++ joinFrom 0 back :=
  joinFrom_break (.inl rfl : IsReturn [])

theorem IsReturn.continued?_eq (isReturn : IsReturn ret)
    : continued? (dropReturn ('\\' :: ret)) = some [] := by
  rcases isReturn with rfl | rfl <;> rfl

/-- At the end of the text there is no line to continue with. -/
theorem joinFrom_last (isReturn : IsReturn ret) : joinFrom held ('\\' :: ret) = [' '] := by
  have whole : cut isBreak ('\\' :: ret) = ['\\' :: ret] := by
    rcases isReturn with rfl | rfl <;> rfl
  rw [joinFrom, whole, joinLines, isReturn.continued?_eq]
  rfl

theorem joinFrom_continued (isReturn : IsReturn ret)
    : joinFrom held ('\\' :: (ret ++ '\n' :: back)) = ' ' :: joinFrom (held + 1) back := by
  have whole : cut isBreak ('\\' :: (ret ++ '\n' :: back)) = ('\\' :: ret) :: cut isBreak back := by
    obtain ⟨piece, rest, shape, longer⟩ :=
      cut_cons_of_not_cut (by decide : isBreak '\\' = false) (ret ++ '\n' :: back)
    rw [isReturn.cut_append] at shape
    obtain ⟨rfl, rfl⟩ := List.cons.inj shape
    exact longer
  rw [joinFrom, whole, joinLines, isReturn.continued?_eq, joinFrom]
  rfl

theorem dropReturn_cons {line : List Char} (inside : ¬(c = '\r' ∧ line = []))
    : dropReturn (c :: line) = c :: dropReturn line := by
  cases line with
  | nil =>
      have other : c ≠ '\r' := fun same => inside ⟨same, rfl⟩
      simp [dropReturn, other]
  | cons d line => simp only [dropReturn, List.getLast?_cons_cons]; split <;> rfl

theorem continued?_cons {line : List Char} (inside : ¬(c = '\\' ∧ line = []))
    : continued? (c :: line) = (continued? line).map (c :: ·) := by
  cases line with
  | nil =>
      have other : c ≠ '\\' := fun same => inside ⟨same, rfl⟩
      simp [continued?, other]
  | cons d line => simp only [continued?, List.getLast?_cons_cons]; split <;> rfl

/-- A sign inside of a line is one more sign in front of that, continued or not. -/
theorem IsInside.exists_cut (inside : IsInside c cs)
    : ∃ piece rest, cut isBreak cs = piece :: rest
        ∧ cut isBreak (c :: cs) = (c :: piece) :: rest
        ∧ dropReturn (c :: piece) = c :: dropReturn piece
        ∧ continued? (c :: dropReturn piece) = (continued? (dropReturn piece)).map (c :: ·) := by
  obtain ⟨here, plain⟩ := inside
  have solid : isBreak c = false := by
    rw [isBreak, beq_eq_false_iff_ne]
    rintro rfl
    exact here ⟨[], .inl rfl, .inr ⟨cs, rfl⟩⟩
  obtain ⟨piece, rest, shape, longer⟩ := cut_cons_of_not_cut solid cs
  refine ⟨piece, rest, shape, longer, dropReturn_cons ?_, continued?_cons ?_⟩
  · rintro ⟨rfl, rfl⟩
    exact here (atLineEnd_of_cut longer rfl)
  · exact fun ⟨same, ends⟩ => plain same (atLineEnd_of_cut shape ends)

theorem joinFrom_inside (inside : IsInside c cs) : joinFrom held (c :: cs) = c :: joinFrom held cs := by
  obtain ⟨piece, rest, shape, longer, ends, continues⟩ := inside.exists_cut
  rw [joinFrom, longer, joinFrom, shape, joinLines, joinLines, ends, continues]
  cases continued? (dropReturn piece) with
  | none => rfl
  | some head => rfl

end

/-- Induction on the lines of a text as they are joined: the text ends or goes on with a break, with
or without a backslash in front of that, or with a sign inside of a line.
-/
@[elab_as_elim]
theorem line_induction {motive : Nat → List Char → Prop}
    (ends : ∀ held ret, IsReturn ret → motive held ret)
    (breaks : ∀ held ret back, IsReturn ret → motive 0 back → motive held (ret ++ '\n' :: back))
    (last : ∀ held ret, IsReturn ret → motive held ('\\' :: ret))
    (continued
      : ∀ held ret back,
          IsReturn ret → motive (held + 1) back → motive held ('\\' :: (ret ++ '\n' :: back)))
    (inside : ∀ held c cs, IsInside c cs → motive held cs → motive held (c :: cs))
    (held : Nat) (cs : List Char)
    : motive held cs := by
  induction size : cs.length using Nat.strongRecOn generalizing held cs with
  | _ length ih =>
      subst size
      by_cases atEnd : AtLineEnd cs
      · obtain ⟨ret, isReturn, rfl | ⟨back, rfl⟩⟩ := atEnd
        · exact ends held cs isReturn
        · exact breaks held ret back isReturn (ih _ (by simp; omega) 0 back rfl)
      · cases cs with
        | nil => exact absurd ⟨[], .inl rfl, .inl rfl⟩ atEnd
        | cons c cs =>
            by_cases continues : c = '\\' ∧ AtLineEnd cs
            · obtain ⟨rfl, ret, isReturn, rfl | ⟨back, rfl⟩⟩ := continues
              · exact last held cs isReturn
              · exact continued held ret back isReturn (ih _ (by simp; omega) _ back rfl)
            · exact inside held c cs ⟨atEnd, fun same here => continues ⟨same, here⟩⟩
                (ih _ (Nat.lt_succ_self _) held cs rfl)

-----------------------------------------------------------------------------------------
-- Joining twice
-----------------------------------------------------------------------------------------

section

variable {held : Nat} {c : Char} {cs : List Char}

theorem isInside_of_ne (other : c ≠ '\n' ∧ c ≠ '\r' ∧ c ≠ '\\') (cs : List Char)
    : IsInside c cs := by
  refine ⟨?_, fun same => absurd same other.2.2⟩
  rintro ⟨ret, rfl | rfl, same | ⟨back, same⟩⟩
  · cases same
  · exact other.1 (List.cons.inj same).1
  · exact other.2.1 (List.cons.inj same).1
  · exact other.2.1 (List.cons.inj same).1

theorem joinFrom_lineBreaks (n : Nat) (cs : List Char)
    : joinFrom 0 (lineBreaks n ++ cs) = lineBreaks n ++ joinFrom 0 cs := by
  induction n with
  | zero => rfl
  | succ n ih =>
      rw [lineBreaks, List.replicate_succ, List.cons_append, joinFrom_cons_break, ← lineBreaks, ih]
      rfl

theorem atLineEnd_cons_iff
    : AtLineEnd (c :: cs) ↔ c = '\n' ∨ c = '\r' ∧ (cs = [] ∨ cs.head? = some '\n') := by
  constructor
  · rintro ⟨ret, rfl | rfl, same | ⟨back, same⟩⟩
    · cases same
    · exact .inl (List.cons.inj same).1
    · obtain ⟨rfl, rfl⟩ := List.cons.inj same
      exact .inr ⟨rfl, .inl rfl⟩
    · obtain ⟨rfl, rfl⟩ := List.cons.inj same
      exact .inr ⟨rfl, .inr rfl⟩
  · rintro (rfl | ⟨rfl, rfl | first⟩)
    · exact ⟨[], .inl rfl, .inr ⟨cs, rfl⟩⟩
    · exact ⟨['\r'], .inr rfl, .inl rfl⟩
    · obtain ⟨back, rfl⟩ := List.head?_eq_some_iff.mp first
      exact ⟨['\r'], .inr rfl, .inr ⟨back, rfl⟩⟩

/-- Where joining leaves nothing of a line, there has been nothing of it. -/
theorem atLineEnd_of_head? (none : joinFrom held cs = [] ∨ (joinFrom held cs).head? = some '\n')
    : AtLineEnd cs := by
  induction held, cs using line_induction with
  | ends held ret isReturn => exact ⟨ret, isReturn, .inl rfl⟩
  | breaks held ret back isReturn _ => exact ⟨ret, isReturn, .inr ⟨back, rfl⟩⟩
  | last held ret isReturn =>
      rw [joinFrom_last isReturn] at none
      simp at none
  | continued held ret back isReturn _ =>
      rw [joinFrom_continued isReturn] at none
      simp at none
  | inside held c cs inside _ =>
      rw [joinFrom_inside inside] at none
      obtain rfl : c = '\n' := by simpa using none
      exact atLineEnd_cons_iff.mpr (.inl rfl)

/-- Joining puts nothing but spaces and breaks in front of a text. -/
theorem exists_of_joinFrom_eq_cons {joined : List Char} (solid : c ≠ ' ' ∧ c ≠ '\n')
    (shape : joinFrom held cs = c :: joined)
    : ∃ later, cs = c :: later ∧ joined = joinFrom held later := by
  induction held, cs using line_induction with
  | ends held ret isReturn =>
      rw [joinFrom_return isReturn] at shape
      cases held with
      | zero => cases shape
      | succ held => exact absurd (List.cons.inj shape).1.symm solid.2
  | breaks held ret back isReturn _ =>
      rw [joinFrom_break isReturn] at shape
      exact absurd (List.cons.inj shape).1.symm solid.2
  | last held ret isReturn =>
      rw [joinFrom_last isReturn] at shape
      exact absurd (List.cons.inj shape).1.symm solid.1
  | continued held ret back isReturn _ =>
      rw [joinFrom_continued isReturn] at shape
      exact absurd (List.cons.inj shape).1.symm solid.1
  | inside held d later inside _ =>
      rw [joinFrom_inside inside] at shape
      obtain ⟨rfl, same⟩ := List.cons.inj shape
      exact ⟨later, rfl, same.symm⟩

/-- A line that is joined ends where it has ended before, but for a second carriage return. -/
theorem atLineEnd_of_joinFrom (single : ¬"\r\r".toList <:+: cs) (ends : AtLineEnd (joinFrom held cs))
    : AtLineEnd cs := by
  cases shape : joinFrom held cs with
  | nil => exact atLineEnd_of_head? (.inl shape)
  | cons c joined =>
      rw [shape, atLineEnd_cons_iff] at ends
      rcases ends with rfl | ⟨rfl, ends⟩
      · exact atLineEnd_of_head? (.inr (by rw [shape]; rfl))
      · obtain ⟨later, rfl, rfl⟩ := exists_of_joinFrom_eq_cons (by decide) shape
        obtain ⟨ret, rfl | rfl, same⟩ := atLineEnd_of_head? ends
        · rw [atLineEnd_cons_iff]
          rcases same with rfl | ⟨back, rfl⟩
          · exact .inr ⟨rfl, .inl rfl⟩
          · exact .inr ⟨rfl, .inr rfl⟩
        · refine absurd ?_ single
          rcases same with rfl | ⟨back, rfl⟩
          · exact ⟨[], [], rfl⟩
          · exact ⟨[], '\n' :: back, rfl⟩

/-- Lines that have been joined are not joined again. By induction on the lines. -/
theorem joinFrom_joinFrom (single : ¬"\r\r".toList <:+: cs)
    : joinFrom 0 (joinFrom held cs) = joinFrom held cs := by
  have space (cs : List Char) : IsInside ' ' cs := isInside_of_ne (by decide) cs
  have nothing : joinFrom 0 [] = [] := rfl
  induction held, cs using line_induction with
  | ends held ret isReturn =>
      have whole := joinFrom_lineBreaks held []
      rwa [nothing, List.append_nil, ← joinFrom_return isReturn] at whole
  | breaks held ret back isReturn ih =>
      have later : back <:+: ret ++ '\n' :: back := ⟨ret ++ ['\n'], [], by simp⟩
      rw [joinFrom_break isReturn, joinFrom_lineBreaks, ih fun inside => single (inside.trans later)]
  | last held ret isReturn =>
      rw [joinFrom_last isReturn, joinFrom_inside (space []), nothing]
  | continued held ret back isReturn ih =>
      have later : back <:+: '\\' :: (ret ++ '\n' :: back) := ⟨'\\' :: ret ++ ['\n'], [], by simp⟩
      rw [joinFrom_continued isReturn, joinFrom_inside (space _),
        ih fun inside => single (inside.trans later)]
  | inside held c cs inside ih =>
      have later : ¬"\r\r".toList <:+: cs := fun twice =>
        single (twice.trans (List.suffix_cons c cs).isInfix)
      have still : IsInside c (joinFrom held cs) := by
        refine ⟨fun ends => inside.1 ?_, fun same ends => inside.2 same ?_⟩
        · exact atLineEnd_of_joinFrom single (by rwa [joinFrom_inside inside])
        · exact atLineEnd_of_joinFrom later ends
      rw [joinFrom_inside inside, joinFrom_inside still, ih later]

end

-----------------------------------------------------------------------------------------
-- Comments
-----------------------------------------------------------------------------------------

/-- A text starts with a comment: with two slashes, or with an opening sign that is closed behind.
-/
def StartsComment (cs : List Char) : Prop :=
  "//".toList <+: cs ∨ ∃ rest, cs = "/*".toList ++ rest ∧ "*/".toList <:+: rest

/-- A text in which no line is continued inside of a comment. No comment stands right behind a
backslash or a carriage return, which it would make the last sign of its line, and carriage returns
stand alone.
-/
inductive KeepsLines : List Char → Prop
  | nil : KeepsLines []
  | char {c : Char} {cs : List Char} (outside : ¬StartsComment (c :: cs))
    (apart : c = '\\' ∨ c = '\r' → ¬StartsComment cs)
    (single : c = '\r' → cs.head? ≠ some '\r') (later : KeepsLines cs)
    : KeepsLines (c :: cs)
  | comment {comment back : List Char} (comments : IsComment comment back)
    (lines : ∀ line ∈ cut isBreak comment, continued? (dropReturn line) = none)
    (later : KeepsLines back)
    : KeepsLines (comment ++ back)

section

variable {held : Nat} {c : Char} {cs : List Char}

theorem isInfix_of_closeComment? {passed found : Nat} {after : List Char}
    (closes : closeComment? passed cs = some (found, after))
    : "*/".toList <:+: cs := by
  fun_induction closeComment? passed cs with
  | case1 => cases closes
  | case2 passed rest => exact ⟨[], rest, rfl⟩
  | case3 passed c rest _ ih => exact (ih closes).trans (List.suffix_cons c rest).isInfix

/-- Where no comment starts, the first sign of a text is kept. -/
theorem stripComments_cons (outside : ¬StartsComment (c :: cs))
    : stripComments (c :: cs) = c :: stripComments cs := by
  have line : ∀ after, c = '/' → cs ≠ '/' :: after := by
    rintro after rfl rfl
    exact outside (.inl ⟨after, rfl⟩)
  by_cases opens : ∃ rest, c = '/' ∧ cs = '*' :: rest
  · obtain ⟨rest, rfl, rfl⟩ := opens
    cases closes : closeComment? 0 rest with
    | none =>
        rw [stripComments, stripInto_unclosed [] closes, stripInto_eq_append]
        rfl
    | some found => exact absurd (.inr ⟨rest, rfl, isInfix_of_closeComment? closes⟩) outside
  · exact stripComments_char line fun after first same => opens ⟨after, first, same⟩

theorem isInfix_cons_of_ne {sign : Char} {signs : List Char} (other : c ≠ sign)
    (inside : sign :: signs <:+: c :: cs)
    : sign :: signs <:+: cs := by
  refine (List.infix_cons_iff.mp inside).resolve_left fun starts => ?_
  obtain ⟨back, same⟩ := starts
  exact other (List.cons.inj same).1.symm

theorem isInfix_of_lineBreaks {sign : Char} {signs : List Char} (other : '\n' ≠ sign) {n : Nat}
    (inside : sign :: signs <:+: lineBreaks n ++ cs)
    : sign :: signs <:+: cs := by
  induction n with
  | zero => exact inside
  | succ n ih => exact ih (isInfix_cons_of_ne other inside)

/-- No closing sign of a comment comes from joining lines. By induction on the lines. -/
theorem isInfix_of_joinFrom (inside : "*/".toList <:+: joinFrom held cs) : "*/".toList <:+: cs := by
  induction held, cs using line_induction with
  | ends held ret isReturn =>
      rw [joinFrom_return isReturn, ← List.append_nil (lineBreaks held)] at inside
      exact absurd (isInfix_of_lineBreaks (by decide) inside) (by decide)
  | breaks held ret back isReturn ih =>
      rw [joinFrom_break isReturn] at inside
      exact (ih (isInfix_of_lineBreaks (by decide) inside)).trans ⟨ret ++ ['\n'], [], by simp⟩
  | last held ret isReturn =>
      rw [joinFrom_last isReturn] at inside
      exact absurd inside (by decide)
  | continued held ret back isReturn ih =>
      rw [joinFrom_continued isReturn] at inside
      exact (ih (isInfix_cons_of_ne (by decide) inside)).trans ⟨'\\' :: ret ++ ['\n'], [], by simp⟩
  | inside held c cs within ih =>
      rw [joinFrom_inside within] at inside
      rcases List.infix_cons_iff.mp inside with ⟨back, same⟩ | later
      · obtain ⟨rfl, behind⟩ := List.cons.inj same
        obtain ⟨rest, rfl, -⟩ := exists_of_joinFrom_eq_cons (by decide) behind.symm
        exact ⟨[], rest, rfl⟩
      · exact (ih later).trans (List.suffix_cons c cs).isInfix

/-- No comment comes from joining lines. -/
theorem startsComment_of_joinFrom (starts : StartsComment (c :: joinFrom held cs))
    : StartsComment (c :: cs) := by
  rcases starts with ⟨back, same⟩ | ⟨rest, same, closes⟩
  · obtain ⟨rfl, behind⟩ := List.cons.inj same
    obtain ⟨later, rfl, -⟩ := exists_of_joinFrom_eq_cons (by decide) behind.symm
    exact .inl ⟨later, rfl⟩
  · obtain ⟨rfl, behind⟩ := List.cons.inj same
    obtain ⟨later, rfl, rfl⟩ := exists_of_joinFrom_eq_cons (by decide) behind
    exact .inr ⟨later, rfl, isInfix_of_joinFrom closes⟩

theorem length_cut (cs : List Char) : (cut isBreak cs).length = breaks cs + 1 := by
  induction cs with
  | nil => rfl
  | cons c cs ih =>
      cases cuts : isBreak c with
      | true =>
          obtain rfl : c = '\n' := eq_of_beq cuts
          rw [cut_cons_of_cut cuts, List.length_cons, ih]
          simp [breaks]
      | false =>
          have other : c ≠ '\n' := fun same => by simp [same, isBreak] at cuts
          obtain ⟨piece, rest, shape, longer⟩ := cut_cons_of_not_cut cuts cs
          rw [shape] at ih
          rw [longer, List.length_cons, ← List.length_cons, ih]
          simp [breaks, other]

theorem cut_of_unbroken {line : List Char} (solid : '\n' ∉ line) : cut isBreak line = [line] := by
  refine cut_of_solid fun c member => beq_eq_false_iff_ne.mpr ?_
  rintro rfl
  exact solid member

theorem breaks_dropReturn {line : List Char} (solid : '\n' ∉ line) : breaks (dropReturn line) = 0 :=
  List.count_eq_zero.mpr fun member => solid (mem_of_mem_dropReturn member)

theorem breaks_append (front back : List Char) : breaks (front ++ back) = breaks front + breaks back :=
  List.count_append

theorem breaks_lineBreaks (n : Nat) : breaks (lineBreaks n) = n := by
  simp [breaks, lineBreaks]

/-- Lines that are not continued are put back with the breaks that have been held, which is the same
as these with the breaks of the lines. By induction on the lines.
-/
theorem exists_joinLines_plain {lines : List (List Char)}
    (plain : ∀ line ∈ lines, continued? (dropReturn line) = none)
    (solid : ∀ line ∈ lines, '\n' ∉ line) (held : Nat)
    : ∃ joined later,
        (∀ line rest,
          joinLines held (lines ++ line :: rest) = joined ++ joinLines later (line :: rest))
        ∧ ∀ cs, joinFrom held (lineBreaks lines.length ++ cs)
            = lineBreaks (breaks joined) ++ joinFrom later cs := by
  induction lines generalizing held with
  | nil => exact ⟨[], held, fun _ _ => rfl, fun _ => rfl⟩
  | cons first lines ih =>
      obtain ⟨here, plain⟩ := List.forall_mem_cons.mp plain
      obtain ⟨unbroken, solid⟩ := List.forall_mem_cons.mp solid
      obtain ⟨joined, later, same, kept⟩ := ih plain solid 0
      refine ⟨dropReturn first ++ lineBreaks (held + 1) ++ joined, later, ?_, ?_⟩
      · intro line rest
        rw [List.cons_append, joinLines, here]
        simp [same]
      · intro cs
        have step : joinFrom held ('\n' :: (lineBreaks lines.length ++ cs)) = _ := joinFrom_cons_break
        have total : lineBreaks (breaks (dropReturn first ++ lineBreaks (held + 1) ++ joined)) =
            lineBreaks (held + 1) ++ lineBreaks (breaks joined) := by
          rw [breaks_append, breaks_append, breaks_dropReturn unbroken, breaks_lineBreaks,
            Nat.zero_add, lineBreaks, List.replicate_add]
          rfl
        rw [total, List.append_assoc, ← kept]
        exact step

/-- What stands in a comment is joined without the text around it. -/
theorem exists_joinFrom_star {inner : List Char}
    (plain : ∀ line ∈ (cut isBreak inner).dropLast, continued? (dropReturn line) = none) (held : Nat)
    : ∃ joined later,
        (∀ back, joinFrom held (inner ++ '*' :: back) = joined ++ '*' :: joinFrom later back)
        ∧ ∀ cs, joinFrom held (lineBreaks (breaks inner) ++ cs)
            = lineBreaks (breaks joined) ++ joinFrom later cs := by
  obtain ⟨earlier, last, shape⟩ := exists_cut_concat isBreak inner
  have solid : ∀ line ∈ earlier, '\n' ∉ line := by
    intro line member inside
    have keeps := keeps_of_mem_cut (shape ▸ List.mem_append_left [last] member) '\n' inside
    exact absurd keeps (by decide)
  have unbroken : '\n' ∉ last := fun inside =>
    absurd (keeps_of_mem_cut (shape ▸ List.mem_append_right earlier List.mem_cons_self) '\n' inside)
      (by decide)
  rw [shape, List.dropLast_concat] at plain
  obtain ⟨joined, later, same, kept⟩ := exists_joinLines_plain plain solid held
  have count : earlier.length = breaks inner := by
    have length := length_cut inner
    rw [shape, List.length_append] at length
    exact Nat.succ_injective length
  have ends : EndsPlainly (last ++ ['*']) := by
    intro c final
    rw [List.getLast?_concat] at final
    cases final
    decide
  refine ⟨joined ++ last, later, fun back => ?_, fun cs => ?_⟩
  · obtain ⟨first, rest, shape', longer⟩ :=
      cut_cons_of_not_cut (by decide : isBreak '*' = false) back
    have split : last ++ '*' :: first = last ++ ['*'] ++ first := by simp
    rw [joinFrom, cut_append shape longer, same, split, ends.joinLines_append, joinFrom, shape']
    simp
  · rw [← count, kept]
    have none : breaks last = 0 := List.count_eq_zero.mpr unbroken
    rw [breaks_append, none, Nat.add_zero]

/-- Of a line that is not continued nothing but a carriage return at its end is left out. -/
theorem joinFrom_line {line back : List Char} (solid : '\n' ∉ line)
    (plain : continued? (dropReturn line) = none) (ends : ∀ c ∈ back.head?, c = '\n')
    : joinFrom held (line ++ back) = dropReturn line ++ joinFrom held back := by
  have whole := cut_of_unbroken solid
  cases back with
  | nil =>
      rw [List.append_nil, joinFrom, whole, joinLines, plain, joinFrom_return (.inl rfl)]
      simp [joinLines]
  | cons c back =>
      obtain rfl := ends c rfl
      have more : (cut isBreak back).isEmpty = false := by simp [cut_ne_nil]
      rw [joinFrom_cons_break, joinFrom, cut_append_of_cut (by decide), whole,
        List.singleton_append, joinLines, plain, joinFrom]
      simp [more]

/-- No line in a comment is continued if none is from its opening sign on. -/
theorem plain_of_block {inner : List Char}
    (lines
      : ∀ line ∈ cut isBreak ("/*".toList ++ inner ++ "*/".toList),
          continued? (dropReturn line) = none)
    : ∀ line ∈ (cut isBreak inner).dropLast, continued? (dropReturn line) = none := by
  obtain ⟨earlier, last, shape⟩ := exists_cut_concat isBreak inner
  have opens : EndsPlainly "/*".toList := by
    rintro c ⟨⟩
    decide
  rw [shape, List.dropLast_concat]
  cases earlier with
  | nil => exact List.forall_mem_nil _
  | cons first earlier =>
      have whole : cut isBreak ("/*".toList ++ inner ++ "*/".toList) =
          ("/*".toList ++ first) :: (earlier ++ [last ++ "*/".toList]) := by
        have closed : cut isBreak (inner ++ "*/".toList) =
            first :: (earlier ++ [last ++ "*/".toList]) :=
          cut_append shape (by rfl : cut isBreak "*/".toList = ["*/".toList])
        have opened : cut isBreak "/*".toList = [] ++ ["/*".toList] := rfl
        rw [List.append_assoc, cut_append opened closed]
        rfl
      rw [whole] at lines
      obtain ⟨here, later⟩ := List.forall_mem_cons.mp lines
      rw [opens.dropReturn_append, opens.continued?_append, Option.map_eq_none_iff] at here
      exact List.forall_mem_cons.mpr ⟨here, fun line member =>
        later line (List.mem_append_left _ member)⟩

/-- A comment is still one when lines are joined, and its breaks are joined like it. -/
def StaysComment (held : Nat) (comment back : List Char) : Prop :=
  ∃ joined later,
    joinFrom held (comment ++ back) = joined ++ joinFrom later back
    ∧ IsComment joined (joinFrom later back)
    ∧ ∀ cs, joinFrom held (lineBreaks (breaks comment) ++ cs)
        = lineBreaks (breaks joined) ++ joinFrom later cs

theorem staysComment_block {inner : List Char} (ends : ¬"*/".toList <:+: inner ++ ['*'])
    (plain : ∀ line ∈ (cut isBreak inner).dropLast, continued? (dropReturn line) = none)
    (held : Nat) (back : List Char)
    : StaysComment held ("/*".toList ++ inner ++ "*/".toList) back := by
  have other (c : Char) (member : c ∈ "*/".toList) (cs : List Char) : IsInside c cs := by
    have apart : ∀ c ∈ "*/".toList, c ≠ '\n' ∧ c ≠ '\r' ∧ c ≠ '\\' := by decide
    exact isInside_of_ne (apart c member) cs
  have star (cs : List Char) := other '*' (by decide) cs
  have slash (cs : List Char) := other '/' (by decide) cs
  obtain ⟨joined, later, same, kept⟩ := exists_joinFrom_star plain held
  refine ⟨"/*".toList ++ joined ++ "*/".toList, later, ?_, .block fun inside => ends ?_, ?_⟩
  · have whole := same ('/' :: back)
    rw [joinFrom_inside (slash back)] at whole
    have shape : "/*".toList ++ inner ++ "*/".toList ++ back =
        '/' :: '*' :: (inner ++ '*' :: '/' :: back) := by
      simp
    rw [shape, joinFrom_inside (slash _), joinFrom_inside (star _), whole]
    simp
  · have whole := same []
    have kept : "*/".toList <:+: joinFrom held (inner ++ ['*']) := by
      rw [whole]
      exact inside.trans ⟨[], joinFrom later [], by simp⟩
    exact isInfix_of_joinFrom kept
  · intro cs
    have count (text : List Char) : breaks ("/*".toList ++ text ++ "*/".toList) = breaks text := by
      rw [breaks_append, breaks_append]
      exact (Nat.add_zero _).trans (Nat.zero_add _)
    rw [count, count]
    exact kept cs

theorem staysComment_line {inner back : List Char} (within : '\n' ∉ inner)
    (ends : ∀ c ∈ back.head?, c = '\n')
    (plain : continued? (dropReturn ("//".toList ++ inner)) = none) (held : Nat)
    : StaysComment held ("//".toList ++ inner) back := by
  have opens : EndsPlainly "//".toList := by
    rintro c ⟨⟩
    decide
  have solid : '\n' ∉ "//".toList ++ inner := by simpa using within
  have same : joinFrom held ("//".toList ++ inner ++ back) = _ := joinFrom_line solid plain ends
  have none : breaks ("//".toList ++ inner) = 0 := List.count_eq_zero.mpr solid
  rw [opens.dropReturn_append] at same
  refine ⟨"//".toList ++ dropReturn inner, held, same, ?_, fun cs => ?_⟩
  · refine .line (fun member => within (mem_of_mem_dropReturn member)) fun c first => ?_
    cases back with
    | nil =>
        rw [joinFrom_return (.inl rfl)] at first
        exact List.eq_of_mem_replicate (List.mem_of_head? first)
    | cons d back =>
        obtain rfl := ends d rfl
        rw [joinFrom_cons_break] at first
        exact (Option.some.inj first).symm
  · rw [none, ← opens.dropReturn_append, breaks_dropReturn solid]
    rfl

/-- A comment in which no line is continued stays one. -/
theorem IsComment.stays {comment back : List Char} (comments : IsComment comment back)
    (lines : ∀ line ∈ cut isBreak comment, continued? (dropReturn line) = none) (held : Nat)
    : StaysComment held comment back := by
  cases comments with
  | block ends => exact staysComment_block ends (plain_of_block lines) held back
  | @line inner _ within ends =>
      have solid : '\n' ∉ "//".toList ++ inner := by simpa using within
      rw [cut_of_unbroken solid] at lines
      exact staysComment_line within ends (lines _ List.mem_cons_self) held

end

-----------------------------------------------------------------------------------------
-- Comments and continued lines
-----------------------------------------------------------------------------------------

section

variable {c : Char} {cs text : List Char}

theorem KeepsLines.tail (keeps : KeepsLines (c :: cs)) (other : c ≠ '/') : KeepsLines cs := by
  generalize whole : c :: cs = text at keeps
  cases keeps with
  | nil => cases whole
  | char _ _ _ later =>
      obtain ⟨rfl, rfl⟩ := List.cons.inj whole
      exact later
  | comment comments _ _ =>
      cases comments with
      | block _ => exact absurd (List.cons.inj whole).1 other
      | line _ _ => exact absurd (List.cons.inj whole).1 other

theorem not_startsComment_of_ne (other : c ≠ '/') (cs : List Char) : ¬StartsComment (c :: cs) := by
  rintro (⟨back, same⟩ | ⟨rest, same, -⟩)
  · exact other (List.cons.inj same).1.symm
  · exact other (List.cons.inj same).1

theorem stripComments_cons_of_ne (other : c ≠ '/') (cs : List Char)
    : stripComments (c :: cs) = c :: stripComments cs :=
  stripComments_cons (not_startsComment_of_ne other cs)

theorem IsReturn.strip_append {ret : List Char} (isReturn : IsReturn ret) (back : List Char)
    : stripComments (ret ++ back) = ret ++ stripComments back := by
  rcases isReturn with rfl | rfl
  · rfl
  · exact stripComments_cons_of_ne (by decide) back

theorem IsReturn.keepsLines {ret back : List Char} (isReturn : IsReturn ret)
    (keeps : KeepsLines (ret ++ '\n' :: back))
    : KeepsLines back := by
  rcases isReturn with rfl | rfl
  · exact keeps.tail (by decide)
  · have later : KeepsLines ('\n' :: back) := keeps.tail (by decide)
    exact later.tail (by decide)

theorem stripComments_nil : stripComments [] = [] := by
  simp [stripComments, stripInto]

theorem IsComment.startsComment {comment back : List Char} (comments : IsComment comment back)
    : StartsComment (comment ++ back) := by
  cases comments with
  | @block inner _ ends => exact .inr ⟨inner ++ "*/".toList ++ back, by simp, inner, back, rfl⟩
  | @line inner _ within ends => exact .inl ⟨inner ++ back, by simp⟩

/-- What is a comment for itself stands in front of nothing else. -/
theorem KeepsLines.apart (keeps : KeepsLines (c :: cs)) (ends : c = '\\' ∨ c = '\r')
    : ¬StartsComment cs := by
  generalize whole : c :: cs = text at keeps
  cases keeps with
  | nil => cases whole
  | char _ apart _ _ =>
      obtain ⟨rfl, rfl⟩ := List.cons.inj whole
      exact apart ends
  | comment comments _ _ =>
      have starts := comments.startsComment
      rw [← whole] at starts
      refine absurd starts (not_startsComment_of_ne ?_ cs)
      rcases ends with rfl | rfl <;> decide

/-- Taking comments out puts the end of no line in front of a text that does not start with one. -/
theorem KeepsLines.atLineEnd_of_strip (keeps : KeepsLines cs) (outside : ¬StartsComment cs)
    (ends : AtLineEnd (stripComments cs))
    : AtLineEnd cs := by
  cases cs with
  | nil => exact ⟨[], .inl rfl, .inl rfl⟩
  | cons c cs =>
      rw [stripComments_cons outside, atLineEnd_cons_iff] at ends
      rw [atLineEnd_cons_iff]
      refine ends.imp_right fun ⟨same, ends⟩ => ⟨same, ?_⟩
      cases cs with
      | nil => exact .inl rfl
      | cons d cs =>
          rw [stripComments_cons (keeps.apart (.inr same))] at ends
          exact .inr (ends.resolve_left (List.cons_ne_nil _ _))

theorem IsReturn.strip {ret : List Char} (isReturn : IsReturn ret) : stripComments ret = ret := by
  have whole := isReturn.strip_append []
  rwa [List.append_nil, stripComments_nil, List.append_nil] at whole

/-- The end of a line is no part of a comment. -/
theorem IsReturn.strip_break {ret : List Char} (isReturn : IsReturn ret) (back : List Char)
    : stripComments (ret ++ '\n' :: back) = ret ++ '\n' :: stripComments back := by
  rw [isReturn.strip_append, stripComments_cons_of_ne (by decide)]

theorem strip_breaks (n : Nat) : stripComments (lineBreaks n) = lineBreaks n := by
  have whole := stripComments_lineBreaks n []
  rwa [List.append_nil, stripComments_nil, List.append_nil] at whole

/-- A sign inside of a line is so without the comments behind it. -/
theorem KeepsLines.isInside_strip (keeps : KeepsLines (c :: cs)) (outside : ¬StartsComment (c :: cs))
    (inside : IsInside c cs)
    : IsInside c (stripComments cs) := by
  obtain ⟨here, plain⟩ := inside
  refine ⟨fun ends => here ?_, fun same ends => plain same ?_⟩
  · exact keeps.atLineEnd_of_strip outside (by rwa [stripComments_cons outside])
  · have other : c ≠ '/' := by
      rintro rfl
      cases same
    exact (keeps.tail other).atLineEnd_of_strip (keeps.apart (.inl same)) ends

/-- Comments are taken out of joined lines as out of the lines themselves. By induction on the
length of the text, along its comments and its lines.
-/
theorem KeepsLines.strip_joinFrom (keeps : KeepsLines text) (held : Nat)
    : stripComments (joinFrom held text) = joinFrom held (stripComments text) := by
  induction size : text.length using Nat.strongRecOn generalizing text held with
  | _ length ih =>
      subst size
      cases keeps with
      | nil =>
          rw [joinFrom_return (.inl rfl), strip_breaks, stripComments_nil, joinFrom_return (.inl rfl)]
      | @comment comment back comments lines later =>
          obtain ⟨joined, left, same, still, kept⟩ := comments.stays lines held
          have shorter : back.length < (comment ++ back).length := by
            cases comments <;> simp <;> omega
          rw [same, still.strip, comments.strip, kept, ih _ shorter later left rfl]
      | @char c cs outside apart single later =>
          have keeps := KeepsLines.char outside apart single later
          by_cases atEnd : AtLineEnd (c :: cs)
          · obtain ⟨ret, isReturn, same | ⟨back, same⟩⟩ := atEnd
            · rw [same, joinFrom_return isReturn, strip_breaks, isReturn.strip,
                joinFrom_return isReturn]
            · rw [same] at keeps ih ⊢
              rw [joinFrom_break isReturn, stripComments_lineBreaks, isReturn.strip_break,
                joinFrom_break isReturn, ih _ (by simp; omega) (isReturn.keepsLines keeps) 0 rfl]
          · by_cases continues : c = '\\' ∧ AtLineEnd cs
            · obtain ⟨rfl, ret, isReturn, rfl | ⟨back, rfl⟩⟩ := continues
              · rw [stripComments_cons_of_ne (by decide), isReturn.strip, joinFrom_last isReturn,
                  stripComments_cons_of_ne (by decide), stripComments_nil]
              · rw [joinFrom_continued isReturn, stripComments_cons_of_ne (by decide),
                  stripComments_cons_of_ne (by decide), isReturn.strip_break,
                  joinFrom_continued isReturn,
                  ih _ (by simp; omega) (isReturn.keepsLines later) _ rfl]
            · have inside : IsInside c cs := ⟨atEnd, fun same ends => continues ⟨same, ends⟩⟩
              rw [joinFrom_inside inside, stripComments_cons outside,
                joinFrom_inside (keeps.isInside_strip outside inside),
                stripComments_cons fun starts => outside (startsComment_of_joinFrom starts),
                ih _ (Nat.lt_succ_self _) later held rfl]

/-- Carriage returns still stand alone without the comments. By induction on the comments. -/
theorem KeepsLines.single_strip (keeps : KeepsLines text)
    : ¬"\r\r".toList <:+: stripComments text := by
  induction keeps with
  | nil =>
      rw [stripComments_nil]
      decide
  | @char c cs outside apart single later ih =>
      rw [stripComments_cons outside]
      intro twice
      rcases List.infix_cons_iff.mp twice with ⟨back, same⟩ | twice
      · obtain ⟨rfl, behind⟩ := List.cons.inj same
        cases cs with
        | nil =>
            rw [stripComments_nil] at behind
            cases behind
        | cons d cs =>
            rw [stripComments_cons (apart (.inr rfl))] at behind
            obtain ⟨rfl, -⟩ := List.cons.inj behind
            exact single rfl rfl
      · exact ih twice
  | comment comments _ _ ih =>
      rw [comments.strip]
      exact fun twice => ih (isInfix_of_lineBreaks (by decide) twice)

theorem prepare_joinContinued (keeps : KeepsLines text)
    : prepare (joinContinued text) = prepare text := by
  have joined : joinContinued (stripComments (joinContinued text)) =
      joinContinued (stripComments text) :=
    calc
      joinFrom 0 (stripComments (joinFrom 0 text))
      _ = joinFrom 0 (joinFrom 0 (stripComments text)) := by rw [keeps.strip_joinFrom]
      _ = joinFrom 0 (stripComments text) := joinFrom_joinFrom keeps.single_strip
  rw [prepare_eq_unlink, prepare_eq_unlink, joined]

end

theorem Setting.read_congr (setting : Setting) {one two : List Char}
    (same : prepare one = prepare two)
    : setting.read one = setting.read two := by
  have items : List.Forall₂ (SameItem some) (items (prepare two)) (items (prepare one)) :=
    same ▸ List.forall₂_same.mpr fun item _ => .refl item
  have found := setting.read_same items
  rw [Findings.renumber_some, Findings.renumber_some] at found
  exact congrArg (Records.mk · setting.dialect.api.registryName) found

/-- Where no line is continued inside of a comment, lines may be joined before comments are taken
out. A comment behind two slashes ends with its line even if there is a backslash at the end of
that.
-/
theorem read_joinContinued (setting : Setting)
    : (∀ text, KeepsLines text → setting.read (joinContinued text) = setting.read text)
      ∧ ∀ front inner back,
          IsClosed front
          → '\n' ∉ inner
          → setting.read (front ++ ("//".toList ++ inner ++ ['\\']) ++ '\n' :: back)
            = setting.read (front ++ '\n' :: back) := by
  refine ⟨fun text keeps => setting.read_congr (prepare_joinContinued keeps), ?_⟩
  intro front inner back closed within
  have solid : '\n' ∉ inner ++ ['\\'] := by simpa using within
  have comments : IsComment ("//".toList ++ (inner ++ ['\\'])) ('\n' :: back) :=
    .line solid fun c first => (Option.some.inj first).symm
  have none : breaks ("//".toList ++ (inner ++ ['\\'])) = 0 :=
    List.count_eq_zero.mpr (by simpa using within)
  have whole := prepare_comment closed comments
  rw [none] at whole
  refine setting.read_congr ?_
  rw [List.append_assoc "//".toList, whole]
  simp [lineBreaks]

/-- A text without comments in front of one that keeps its lines. By induction on the text. -/
theorem keepsLines_append {front back : List Char} (comments : '/' ∉ front) (returns : '\r' ∉ front)
    (ends : front.getLast? ≠ some '\\') (keeps : KeepsLines back)
    : KeepsLines (front ++ back) := by
  induction front with
  | nil => exact keeps
  | cons c front ih =>
      obtain ⟨other, plain⟩ := List.ne_and_not_mem_of_not_mem_cons comments
      obtain ⟨single, returns⟩ := List.ne_and_not_mem_of_not_mem_cons returns
      have later : KeepsLines (front ++ back) := by
        refine ih plain returns fun last => ends ?_
        cases front with
        | nil => cases last
        | cons d front => rwa [List.getLast?_cons_cons]
      refine .char (not_startsComment_of_ne other.symm _) ?_ (fun same => absurd same.symm single) later
      rintro (rfl | rfl)
      · cases front with
        | nil => exact absurd rfl ends
        | cons d front =>
            have next : d ≠ '/' := (List.ne_of_not_mem_cons plain).symm
            exact not_startsComment_of_ne next (front ++ back)
      · exact absurd rfl single

/-- A constant on two lines, with a comment on two lines behind it. -/
def sumText : List Char :=
  "#define VX_SUM 1 + \\\n  2 ".toList ++ ("/*".toList ++ " of\n both ".toList ++ "*/".toList ++ ['\n'])

theorem sumText_keepsLines : KeepsLines sumText := by
  have behind : KeepsLines (['\n'] ++ []) :=
    keepsLines_append (by decide) (by decide) (by decide) .nil
  refine keepsLines_append (by decide) (by decide) (by decide) (.comment (.block ?_) ?_ behind)
  · decide
  · decide

/-- A comment that a backslash ends, in front of a prototype. -/
def statusText : List Char :=
  "//".toList ++ " the status ".toList ++ ['\\'] ++ '\n' :: "VX_API_ENTRY int vxStatus(void);\n".toList

theorem sumText_joined
    : markedHeader.read (joinContinued sumText) = markedHeader.read sumText
      ∧ markedHeader.read statusText
        = markedHeader.read ('\n' :: "VX_API_ENTRY int vxStatus(void);\n".toList) :=
  have joined := read_joinContinued markedHeader
  ⟨joined.1 sumText sumText_keepsLines, joined.2 [] _ _ .nil (by decide)⟩

/-- Joining the lines first hides the prototype in the comment. -/
theorem statusText_hides
    : (markedHeader.read (joinContinued statusText)).commands = []
      ∧ (markedHeader.read statusText).commands ≠ [] := by
  decide +kernel

end ApiBindings.Header
