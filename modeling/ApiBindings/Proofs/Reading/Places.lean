import ApiBindings.Proofs.Reading.Continuations
import ApiBindings.Proofs.Reading.Seams
import Mathlib.Data.List.DropRight

/-! Where the signs of a prepared text come from.
Each sign that is not blank stands at one place of the text as it was written, outside of all
comments, and on the line with the number of the first of the lines that are joined there. What is
put in front of it only depends on what has been in front of it.
-/

namespace ApiBindings.Header

open ApiBindings.Text

-----------------------------------------------------------------------------------------
-- Places outside of comments
-----------------------------------------------------------------------------------------

/-- No comment goes on from a text into the one behind it. -/
inductive IsOutside (back : List Char) : List Char → Prop
  | nil : IsOutside back []
  | char {c : Char} {cs : List Char} (outside : ¬StartsComment (c :: (cs ++ back)))
    (later : IsOutside back cs)
    : IsOutside back (c :: cs)
  | comment {comment cs : List Char} (comments : IsComment comment (cs ++ back))
    (later : IsOutside back cs)
    : IsOutside back (comment ++ cs)

section

variable {c : Char} {cs front back : List Char}

theorem exists_of_append_eq {before after : List Char} (absent : c ∉ front)
    (same : front ++ back = before ++ c :: after)
    : ∃ behind, before = front ++ behind ∧ back = behind ++ c :: after := by
  rcases List.append_eq_append_iff.mp same with ⟨behind, first, last⟩ | ⟨behind, first, last⟩
  · exact ⟨behind, first, last⟩
  · cases behind with
    | nil => exact ⟨[], by simpa using first.symm, last.symm⟩
    | cons d behind =>
        obtain ⟨rfl, -⟩ := List.cons.inj last
        exact absurd (by simp [first]) absent

theorem not_mem_lineBreaks (other : c ≠ '\n') (n : Nat) : c ∉ lineBreaks n :=
  fun inside => other (List.eq_of_mem_replicate inside)

/-- A block comment ends at the first closing sign. By induction on the text. -/
theorem exists_of_isInfix (closes : "*/".toList <:+: cs)
    : ∃ inner back, cs = inner ++ "*/".toList ++ back ∧ ¬"*/".toList <:+: inner ++ ['*'] := by
  induction cs with
  | nil => exact absurd closes (by decide)
  | cons c cs ih =>
      by_cases here : "*/".toList <+: c :: cs
      · obtain ⟨back, same⟩ := here
        exact ⟨[], back, same.symm, by decide⟩
      · obtain ⟨inner, back, rfl, ends⟩ := ih ((List.infix_cons_iff.mp closes).resolve_left here)
        refine ⟨c :: inner, back, rfl, fun closes => ?_⟩
        rcases List.infix_cons_iff.mp closes with ⟨rest, same⟩ | later
        · obtain ⟨rfl, behind⟩ := List.cons.inj same
          cases inner with
          | nil => cases (List.cons.inj behind).1
          | cons d inner =>
              obtain ⟨rfl, -⟩ := List.cons.inj behind
              exact here ⟨inner ++ "*/".toList ++ back, rfl⟩
        · exact ends later

theorem StartsComment.exists_comment (starts : StartsComment cs)
    : ∃ comment back, cs = comment ++ back ∧ IsComment comment back := by
  rcases starts with ⟨rest, rfl⟩ | ⟨rest, rfl, closes⟩
  · refine ⟨"//".toList ++ rest.takeWhile (· != '\n'), rest.dropWhile (· != '\n'), ?_,
      .line ?_ ?_⟩
    · rw [List.append_assoc, List.takeWhile_append_dropWhile]
    · intro inside
      exact absurd (List.mem_takeWhile_imp inside) (by decide)
    · intro c first
      have stops := List.head?_dropWhile_not (· != '\n') rest
      rw [Option.mem_def.mp first] at stops
      simpa using stops
  · obtain ⟨inner, back, rfl, ends⟩ := exists_of_isInfix closes
    exact ⟨"/*".toList ++ inner ++ "*/".toList, back, by simp, .block ends⟩

/-- What starts no comment in a longer text starts none for itself. -/
theorem StartsComment.append (starts : StartsComment front) (back : List Char)
    : StartsComment (front ++ back) := by
  rcases starts with ⟨rest, rfl⟩ | ⟨rest, rfl, closes⟩
  · exact .inl ⟨rest ++ back, by simp⟩
  · exact .inr ⟨rest ++ back, by simp, closes.trans ⟨[], back, by simp⟩⟩

/-- A semicolon behind a text makes no comment of it. -/
theorem startsComment_of_semicolon (starts : StartsComment (front ++ [';']))
    : StartsComment front := by
  have other (signs : List Char) : ¬signs ++ ['/'] <:+ front ++ [';'] := by
    rintro ⟨rest, same⟩
    rw [← List.append_assoc] at same
    exact absurd (List.append_inj' same rfl).2 (by decide)
  rcases starts with line | ⟨rest, same, closes⟩
  · rcases List.prefix_concat_iff.mp line with same | line
    · exact absurd ⟨[], same⟩ (other ['/'])
    · exact .inl line
  · cases rest using List.reverseRecOn with
    | nil => exact absurd closes (by decide)
    | append_singleton rest last _ =>
        rw [← List.append_assoc] at same
        obtain ⟨rfl, ends⟩ := List.append_inj' same rfl
        obtain rfl := List.singleton_inj.mp ends
        refine .inr ⟨rest, rfl, (List.infix_concat_iff.mp closes).resolve_left fun ended => ?_⟩
        have behind : rest ++ [';'] <:+ "/*".toList ++ rest ++ [';'] := ⟨"/*".toList, by simp⟩
        exact other ['*'] (ended.trans behind)

/-- A comment that ends in front of a sign on its line is one, whatever stands in place of that. -/
theorem IsComment.replace {comment : List Char} (comments : IsComment comment (cs ++ c :: back))
    (other : c ≠ '\n') (behind : List Char)
    : IsComment comment (cs ++ behind) := by
  cases comments with
  | block ends => exact .block ends
  | line within ends =>
      cases cs with
      | nil => exact absurd (ends c rfl) other
      | cons d cs => exact .line within fun e first => ends e first

/-- What comments leave of a text in front of a place does not depend on what follows it. -/
theorem IsOutside.strip (outside : IsOutside (c :: back) front) (other : c ≠ '\n')
    : stripComments (front ++ c :: back) = stripComments front ++ stripComments (c :: back)
      ∧ stripComments (front ++ [';']) = stripComments front ++ [';'] := by
  have nothing := stripComments_nil
  have sign : stripComments [';'] = [';'] := by
    rw [stripComments_cons_of_ne (by decide), nothing]
  induction outside with
  | nil => exact ⟨by rw [nothing]; rfl, by rw [nothing]; exact sign⟩
  | @char d cs outside later ih =>
      have alone : ¬StartsComment (d :: cs) := fun starts => outside (starts.append (c :: back))
      have ended : ¬StartsComment (d :: (cs ++ [';'])) := fun starts =>
        alone (startsComment_of_semicolon starts)
      rw [List.cons_append, List.cons_append, stripComments_cons outside, stripComments_cons alone,
        stripComments_cons ended, ih.1, ih.2]
      exact ⟨rfl, rfl⟩
  | @comment comment cs comments later ih =>
      have alone := comments.replace other []
      have ended := comments.replace other [';']
      rw [List.append_nil] at alone
      rw [List.append_assoc, List.append_assoc, comments.strip, alone.strip, ended.strip, ih.1, ih.2]
      simp

/-- Each sign that is left when comments are taken out stands outside of them. By induction on the
length of the text, along its comments.
-/
theorem exists_of_stripComments {text before after : List Char} (other : c ≠ '\n')
    (kept : stripComments text = before ++ c :: after)
    : ∃ front back, text = front ++ c :: back ∧ IsOutside (c :: back) front
        ∧ ¬StartsComment (c :: back) ∧ stripComments front = before := by
  induction size : text.length using Nat.strongRecOn generalizing text before with
  | _ length ih =>
      subst size
      by_cases starts : StartsComment text
      · obtain ⟨comment, rest, rfl, comments⟩ := starts.exists_comment
        have shorter : rest.length < (comment ++ rest).length := by
          cases comments <;> simp <;> omega
        rw [comments.strip] at kept
        obtain ⟨behind, rfl, later⟩ := exists_of_append_eq (not_mem_lineBreaks other _) kept
        obtain ⟨front, back, rfl, outside, plain, left⟩ := ih _ shorter later rfl
        have alone := comments.replace other []
        rw [List.append_nil] at alone
        refine ⟨comment ++ front, back, (List.append_assoc _ _ _).symm, .comment comments outside,
          plain, ?_⟩
        rw [alone.strip, left]
      · cases text with
        | nil =>
            rw [stripComments_nil] at kept
            simp at kept
        | cons d rest =>
            rw [stripComments_cons starts] at kept
            cases before with
            | nil =>
                obtain ⟨rfl, rfl⟩ := List.cons.inj kept
                exact ⟨[], rest, rfl, .nil, starts, stripComments_nil⟩
            | cons e before =>
                obtain ⟨rfl, later⟩ := List.cons.inj kept
                obtain ⟨front, back, rfl, outside, plain, left⟩ :=
                  ih _ (Nat.lt_succ_self _) later rfl
                have alone : ¬StartsComment (d :: front) := fun both => starts (both.append _)
                refine ⟨d :: front, back, rfl, .char starts outside, plain, ?_⟩
                rw [stripComments_cons alone, left]

end

-----------------------------------------------------------------------------------------
-- Joined lines
-----------------------------------------------------------------------------------------

/-- A line that the next one is joined to. -/
def isContinued (line : List Char) : Bool :=
  (continued? (dropReturn line)).isSome

/-- The lines of a text that are over at its end: they are not joined to its last one. -/
def pastLines (front : List Char) : List (List Char) :=
  (cut isBreak front).dropLast.rdropWhile isContinued

section

variable {held : Nat} {c d : Char} {cs front back ret : List Char}

theorem rdropWhile_cons (holds : List Char → Bool) (line : List Char) (lines : List (List Char))
    : (line :: lines).rdropWhile holds =
        if lines.rdropWhile holds = [] then [line].rdropWhile holds
        else line :: lines.rdropWhile holds := by
  simp only [List.rdropWhile, List.reverse_cons, List.dropWhile_append, List.isEmpty_iff,
    List.reverse_eq_nil_iff]
  split
  · rfl
  · simp

theorem pastLines_of_cut {line : List Char} {lines : List (List Char)}
    (shape : cut isBreak cs = line :: lines) (more : lines ≠ [])
    : pastLines cs = (line :: lines.dropLast).rdropWhile isContinued := by
  rw [pastLines, shape, List.dropLast_cons_of_ne_nil more]

theorem pastLines_return (isReturn : IsReturn ret) (cs : List Char)
    : pastLines (ret ++ '\n' :: cs) = ret :: pastLines cs := by
  have none : [ret].rdropWhile isContinued = [ret] := by
    rcases isReturn with rfl | rfl <;> rfl
  rw [pastLines_of_cut (isReturn.cut_append cs) (cut_ne_nil isBreak cs), rdropWhile_cons, none,
    ← pastLines]
  split
  · rename_i nothing
    rw [nothing]
  · rfl

theorem pastLines_continued (isReturn : IsReturn ret) (cs : List Char)
    : pastLines ('\\' :: (ret ++ '\n' :: cs)) =
        if pastLines cs = [] then [] else ('\\' :: ret) :: pastLines cs := by
  have shape : cut isBreak ('\\' :: (ret ++ '\n' :: cs)) = ('\\' :: ret) :: cut isBreak cs := by
    rcases isReturn with rfl | rfl <;> rfl
  have none : ['\\' :: ret].rdropWhile isContinued = [] := by
    rcases isReturn with rfl | rfl <;> rfl
  rw [pastLines_of_cut shape (cut_ne_nil isBreak cs), rdropWhile_cons, none, ← pastLines]

theorem pastLines_inside (inside : IsInside d (cs ++ c :: back))
    : (pastLines (d :: cs)).length = (pastLines cs).length := by
  obtain ⟨piece, rest, shape, longer, ends, continues⟩ := inside.exists_cut
  obtain ⟨earlier, last, whole⟩ := exists_cut_concat isBreak cs
  obtain ⟨first, later, shape'⟩ := List.exists_cons_of_ne_nil (cut_ne_nil isBreak (c :: back))
  have solid : isBreak d = false :=
    keeps_of_mem_cut (longer ▸ List.mem_cons_self) d List.mem_cons_self
  obtain ⟨start, lines, whole', longer'⟩ := cut_cons_of_not_cut solid cs
  rw [cut_append whole shape'] at shape
  cases earlier with
  | nil =>
      rw [whole] at whole'
      obtain ⟨rfl, rfl⟩ := List.cons.inj whole'
      simp [pastLines, whole, longer']
  | cons line earlier =>
      obtain ⟨rfl, -⟩ := List.cons.inj shape
      rw [whole] at whole'
      obtain ⟨rfl, rfl⟩ := List.cons.inj whole'
      have same : isContinued (d :: line) = isContinued line := by
        rw [isContinued, ends, continues, Option.isSome_map, isContinued]
      rw [pastLines_of_cut longer' (by simp), pastLines_of_cut whole (by simp),
        rdropWhile_cons _ (d :: line), rdropWhile_cons _ line]
      split
      · simp only [List.rdropWhile_singleton, same]
        split <;> rfl
      · rfl

/-- The breaks in front of a place, if those of `held` joined lines are still to be put back there:
the lines that are over have theirs, and the first one of them those that have been held.
-/
def putBack (held : Nat) (front : List Char) : Nat :=
  if pastLines front = [] then 0 else held + (pastLines front).length

theorem putBack_zero (front : List Char) : putBack 0 front = (pastLines front).length := by
  unfold putBack
  split
  · rename_i nothing
    rw [nothing]
    rfl
  · exact Nat.zero_add _

theorem putBack_return (isReturn : IsReturn ret) (held : Nat) (cs : List Char)
    : putBack held (ret ++ '\n' :: cs) = held + 1 + putBack 0 cs := by
  rw [putBack_zero, putBack, pastLines_return isReturn, if_neg (List.cons_ne_nil _ _),
    List.length_cons]
  omega

theorem putBack_continued (isReturn : IsReturn ret) (held : Nat) (cs : List Char)
    : putBack held ('\\' :: (ret ++ '\n' :: cs)) = putBack (held + 1) cs := by
  rw [putBack, putBack, pastLines_continued isReturn]
  split
  · rfl
  · rw [if_neg (List.cons_ne_nil _ _), List.length_cons]
    omega

theorem putBack_inside (inside : IsInside d (cs ++ c :: back)) (held : Nat)
    : putBack held (d :: cs) = putBack held cs := by
  have past := pastLines_inside inside
  have nothing : pastLines (d :: cs) = [] ↔ pastLines cs = [] := by
    rw [← List.length_eq_zero_iff, past, List.length_eq_zero_iff]
  simp only [putBack, nothing, past]

/-- A place on a line that is still there does not tell what stands on it. -/
theorem atLineEnd_append_iff (first : isBlank c = false) (second : isBlank d = false)
    (front back behind : List Char)
    : AtLineEnd (front ++ c :: back) ↔ AtLineEnd (front ++ d :: behind) := by
  have solid {sign : Char} (word : isBlank sign = false) : sign ≠ '\n' ∧ sign ≠ '\r' := by
    refine ⟨?_, ?_⟩
    all_goals
      rintro rfl
      cases word
  obtain ⟨break₁, return₁⟩ := solid first
  obtain ⟨break₂, return₂⟩ := solid second
  cases front with
  | nil => simp [atLineEnd_cons_iff, break₁, break₂, return₁, return₂]
  | cons e front =>
      cases front with
      | nil => simp [atLineEnd_cons_iff, break₁, break₂]
      | cons f front => simp [atLineEnd_cons_iff]

theorem IsInside.replace (inside : IsInside d (front ++ c :: back)) (solid : isBlank c = false)
    : IsInside d (front ++ [';']) := by
  have word : isBlank ';' = false := by decide
  have same (front : List Char) := atLineEnd_append_iff solid word front back []
  exact ⟨fun ends => inside.1 ((same (d :: front)).mpr ends),
    fun continues ends => inside.2 continues ((same front).mpr ends)⟩

/-- Each sign that is no blank and is left when lines are joined belonged to a line. The breaks in
front of it are those of the lines that are over. By induction on the lines.
-/
theorem exists_of_joinFrom {before after : List Char} (solid : isBlank c = false)
    (kept : joinFrom held cs = before ++ c :: after)
    : ∃ front back later, cs = front ++ c :: back
        ∧ breaks before = putBack held front
        ∧ joinFrom held (front ++ [';']) = before ++ ';' :: lineBreaks later := by
  have ends (held : Nat) : joinFrom held [';'] = ';' :: lineBreaks held := by
    rw [joinFrom_inside (isInside_of_ne (by decide) []), joinFrom_return (.inl rfl)]
  have other {sign : Char} (blank : isBlank sign = true) : c ≠ sign := by
    rintro rfl
    cases solid.symm.trans blank
  have space : c ∉ [' '] := by simpa using other isBlank_space
  have unbroken := not_mem_lineBreaks (other (by decide))
  induction held, cs using line_induction generalizing before with
  | ends held ret isReturn =>
      rw [joinFrom_return isReturn] at kept
      exact absurd (by simp [kept]) (unbroken held)
  | breaks held ret rest isReturn ih =>
      rw [joinFrom_break isReturn] at kept
      obtain ⟨before, rfl, inner⟩ := exists_of_append_eq (unbroken _) kept
      obtain ⟨front, back, later, rfl, count, same⟩ := ih inner
      refine ⟨ret ++ '\n' :: front, back, later, by simp, ?_, ?_⟩
      · rw [breaks_append, breaks_lineBreaks, putBack_return isReturn, count]
      · rw [List.append_assoc, List.cons_append, joinFrom_break isReturn, same, List.append_assoc]
  | last held ret isReturn =>
      rw [joinFrom_last isReturn] at kept
      exact absurd (by simp [kept]) space
  | continued held ret rest isReturn ih =>
      rw [joinFrom_continued isReturn] at kept
      obtain ⟨before, rfl, inner⟩ := exists_of_append_eq space kept
      obtain ⟨front, back, later, rfl, count, same⟩ := ih inner
      refine ⟨'\\' :: (ret ++ '\n' :: front), back, later, by simp, ?_, ?_⟩
      · rw [breaks_append, putBack_continued isReturn, count]
        exact Nat.zero_add _
      · rw [List.cons_append, List.append_assoc, List.cons_append, joinFrom_continued isReturn, same]
        rfl
  | inside held e rest inside ih =>
      rw [joinFrom_inside inside] at kept
      cases before with
      | nil =>
          obtain ⟨rfl, -⟩ := List.cons.inj kept
          exact ⟨[], rest, held, rfl, rfl, ends held⟩
      | cons f before =>
          obtain ⟨rfl, inner⟩ := List.cons.inj kept
          obtain ⟨front, back, later, rfl, count, same⟩ := ih inner
          have plain : breaks (e :: before) = breaks before :=
            List.count_cons_of_ne fun same => inside.1 (atLineEnd_cons_iff.mpr (.inl same))
          refine ⟨e :: front, back, later, rfl, ?_, ?_⟩
          · rw [plain, count, putBack_inside inside]
          · rw [List.cons_append, joinFrom_inside (inside.replace solid), same]
            rfl

end

-----------------------------------------------------------------------------------------
-- Openings of linkages
-----------------------------------------------------------------------------------------

section

variable {c : Char} {cs after front back : List Char} {found : Nat}

theorem trimStart_blanks {blanks : List Char} (blank : ∀ c ∈ blanks, isBlank c = true)
    (solid : isBlank c = false) (back : List Char)
    : trimStart (blanks ++ c :: back) = c :: back := by
  have nothing : trimStart blanks = [] := List.dropWhile_eq_nil_iff.mpr blank
  rw [trimStart_append_cons solid, nothing, List.nil_append]

/-- The opening of a linkage, with blanks between its parts. -/
def opening (one two : List Char) : List Char :=
  "extern".toList ++ (one ++ ("\"C\"".toList ++ (two ++ ['\x7b'])))

theorem opening_append (one two behind : List Char)
    : opening one two ++ behind =
        "extern".toList ++ (one ++ ("\"C\"".toList ++ (two ++ '\x7b' :: behind))) := by
  change "extern".toList ++ (one ++ ("\"C\"".toList ++ (two ++ ['\x7b']))) ++ behind = _
  simp only [List.append_assoc, List.singleton_append]

theorem linkage?_opening {one two : List Char} (blank : ∀ c ∈ one, isBlank c = true)
    (blank' : ∀ c ∈ two, isBlank c = true) (behind : List Char)
    : linkage? (opening one two ++ behind) = some (breaks (opening one two), behind) := by
  have language : trimStart (one ++ ("\"C\"".toList ++ (two ++ '\x7b' :: behind))) =
      "\"C\"".toList ++ (two ++ '\x7b' :: behind) :=
    trimStart_blanks blank (by decide) _
  have brace : strip? ['\x7b'] (trimStart (two ++ '\x7b' :: behind)) = some behind := by
    rw [trimStart_blanks blank' (by decide)]
    exact strip?_append ['\x7b'] behind
  have count : breaks (opening one two ++ behind) - breaks behind = breaks (opening one two) := by
    rw [breaks_append, Nat.add_sub_cancel]
  rw [← count, linkage?, opening_append, strip?_append, Option.bind_eq_bind, Option.bind_some, language,
    strip?_append, Option.bind_some, brace]
  rfl

theorem exists_opening (opens : linkage? cs = some (found, after))
    : ∃ one two, (∀ c ∈ one, isBlank c = true) ∧ (∀ c ∈ two, isBlank c = true)
        ∧ cs = opening one two ++ after := by
  simp only [linkage?, Option.bind_eq_bind, Option.bind_eq_some_iff] at opens
  obtain ⟨first, starts, second, quoted, third, braced, same⟩ := opens
  obtain ⟨-, rfl⟩ := Prod.mk.inj (Option.some.inj same)
  have split (cs : List Char)
      : ∃ blanks, (∀ c ∈ blanks, isBlank c = true) ∧ blanks ++ trimStart cs = cs :=
    ⟨cs.takeWhile isBlank, fun c => List.mem_takeWhile_imp, List.takeWhile_append_dropWhile⟩
  obtain ⟨one, blank, shape⟩ := split first
  obtain ⟨two, blank', shape'⟩ := split second
  refine ⟨one, two, blank, blank', ?_⟩
  rw [eq_append_of_strip? starts, ← shape, eq_append_of_strip? quoted, ← shape',
    eq_append_of_strip? braced, opening_append]
  rfl

/-- Where an opening is found, there is one, whatever stands behind it. -/
theorem exists_of_linkage? (opens : linkage? cs = some (found, after))
    : ∃ opening, cs = opening ++ after
        ∧ ∀ behind, linkage? (opening ++ behind) = some (breaks opening, behind) := by
  obtain ⟨one, two, blank, blank', same⟩ := exists_opening opens
  exact ⟨opening one two, same, linkage?_opening blank blank'⟩

theorem isBlank_of_mem_leftOf (inside : c ∈ leftOf found) : isBlank c = true := by
  unfold leftOf at inside
  split at inside
  · rw [List.mem_singleton.mp inside]
    exact isBlank_space
  · rw [List.eq_of_mem_replicate inside]
    decide

theorem breaks_leftOf (found : Nat) : breaks (leftOf found) = found := by
  unfold leftOf
  split
  · rename_i none
    rw [none]
    rfl
  · exact breaks_lineBreaks found

/-- A sign in front of which no opening goes on can be replaced by a semicolon. -/
theorem linkage?_replace (plain : linkage? (front ++ c :: back) = none) (behind : List Char)
    : linkage? (front ++ ';' :: behind) = none := by
  rw [linkage?_append_cons (by decide), Option.map_eq_none_iff]
  cases alone : linkage? front with
  | none => rfl
  | some found =>
      obtain ⟨opening, shape, again⟩ := exists_of_linkage? alone
      have whole := again (found.2 ++ c :: back)
      rw [← List.append_assoc, ← shape] at whole
      cases plain.symm.trans whole

/-- Each sign that is no blank and is left when openings are taken out belonged to none of them. By
induction on the length of the text, along its openings.
-/
theorem exists_of_unlink {before : List Char} (solid : isBlank c = false)
    (kept : unlink cs = before ++ c :: after)
    : ∃ front back, cs = front ++ c :: back ∧ breaks before = breaks front
        ∧ ∀ behind, unlink (front ++ ';' :: behind) = before ++ ';' :: unlink behind := by
  induction size : cs.length using Nat.strongRecOn generalizing cs before with
  | _ length ih =>
      subst size
      cases opens : linkage? cs with
      | some found =>
          obtain ⟨found, rest⟩ := found
          rw [unlink_opening opens] at kept
          have absent : c ∉ leftOf found := fun inside => by
            cases solid.symm.trans (isBlank_of_mem_leftOf inside)
          obtain ⟨before, rfl, inner⟩ := exists_of_append_eq absent kept
          obtain ⟨front, back, rfl, count, same⟩ := ih _ (length_of_linkage? opens) inner rfl
          obtain ⟨opening, rfl, again⟩ := exists_of_linkage? opens
          obtain ⟨rfl, -⟩ := Prod.mk.inj (Option.some.inj (opens.symm.trans (again _)))
          refine ⟨opening ++ front, back, (List.append_assoc _ _ _).symm, ?_, fun behind => ?_⟩
          · rw [breaks_append, breaks_append, count, breaks_leftOf]
          · rw [List.append_assoc, unlink_opening (again _), same, List.append_assoc]
      | none =>
          cases cs with
          | nil =>
              rw [unlink_nil] at kept
              simp at kept
          | cons d rest =>
              rw [unlink_char opens] at kept
              cases before with
              | nil =>
                  obtain ⟨rfl, -⟩ := List.cons.inj kept
                  refine ⟨[], rest, rfl, rfl, fun behind => ?_⟩
                  have plain : linkage? ([] ++ ';' :: behind) = none := linkage?_replace opens behind
                  rw [List.nil_append] at plain ⊢
                  rw [unlink_char plain]
                  rfl
              | cons e before =>
                  obtain ⟨rfl, inner⟩ := List.cons.inj kept
                  obtain ⟨front, back, rfl, count, same⟩ := ih _ (Nat.lt_succ_self _) inner rfl
                  refine ⟨d :: front, back, rfl, ?_, fun behind => ?_⟩
                  · simp only [breaks, List.count_cons] at count ⊢
                    rw [count]
                  · have plain : linkage? (d :: front ++ ';' :: behind) = none :=
                      linkage?_replace opens behind
                    rw [List.cons_append] at plain ⊢
                    rw [unlink_char plain, same]
                    rfl

end

-----------------------------------------------------------------------------------------
-- Places
-----------------------------------------------------------------------------------------

/-- Taking comments out does not change how lines are numbered. -/
theorem breaks_stripComments (text : List Char) : breaks (stripComments text) = breaks text := by
  induction size : text.length using Nat.strongRecOn generalizing text with
  | _ length ih =>
      subst size
      by_cases starts : StartsComment text
      · obtain ⟨comment, rest, rfl, comments⟩ := starts.exists_comment
        have shorter : rest.length < (comment ++ rest).length := by
          cases comments <;> simp <;> omega
        rw [comments.strip, breaks_append, breaks_lineBreaks, ih _ shorter rest rfl, breaks_append]
      · cases text with
        | nil => rw [stripComments_nil]
        | cons c rest =>
            have later := ih _ (Nat.lt_succ_self _) rest rfl
            simp only [breaks] at later
            rw [stripComments_cons starts, breaks, breaks, List.count_cons, List.count_cons, later]

/-- The line with this number is the first of those that are joined to the last line of a text: what
follows is continued, and the line before is not. Lines are joined as they are without comments,
whose breaks are kept, so they have the numbers of the lines of the text itself.
-/
def IsFirstLine (front : List Char) (number : Nat) : Prop :=
  ∃ past joined last, cut isBreak (stripComments front) = past ++ joined ++ [last]
    ∧ past.length + 1 = number
    ∧ past.length + joined.length = breaks front
    ∧ (∀ line ∈ joined, isContinued line = true)
    ∧ ∀ line ∈ past.getLast?, isContinued line = false

theorem isFirstLine (front : List Char)
    : IsFirstLine front ((pastLines (stripComments front)).length + 1) := by
  obtain ⟨lines, last, shape⟩ := exists_cut_concat isBreak (stripComments front)
  have past : pastLines (stripComments front) = lines.rdropWhile isContinued := by
    rw [pastLines, shape, List.dropLast_concat]
  have whole : lines.rdropWhile isContinued ++ lines.rtakeWhile isContinued = lines :=
    List.rdropWhile_append_rtakeWhile
  have count := length_cut (stripComments front)
  rw [shape, breaks_stripComments, List.length_append, ← whole, List.length_append] at count
  refine ⟨lines.rdropWhile isContinued, lines.rtakeWhile isContinued, last, by rw [whole, shape],
    by rw [past], Nat.succ_injective count, fun line => List.mem_rtakeWhile_imp, ?_⟩
  intro line final
  obtain ⟨nonempty, rfl⟩ := List.mem_getLast?_eq_getLast final
  exact Bool.eq_false_iff.mpr (List.rdropWhile_last_not isContinued lines nonempty)

/-- Where a sign of a text stands when the text is prepared: behind `before`, as would a semicolon
that ends the text in its place.
-/
structure IsKept (front : List Char) (c : Char) (back before : List Char) : Prop where
  outside : IsOutside (c :: back) front
  plain : ¬StartsComment (c :: back)
  whole : ∃ after, prepare (front ++ c :: back) = before ++ c :: after
  ended : ∃ held, prepare (front ++ [';']) = before ++ ';' :: lineBreaks held
  line : IsFirstLine front (breaks before + 1)

/-- Each sign of a prepared text that is no blank stands at a place of the text itself, and it is on
the line of this place.
-/
theorem exists_isKept {text before after : List Char} {c : Char} (solid : isBlank c = false)
    (kept : prepare text = before ++ c :: after)
    : ∃ front back, text = front ++ c :: back ∧ IsKept front c back before := by
  have other : c ≠ '\n' := by
    rintro rfl
    cases solid
  obtain ⟨joined, _, opened, count, again⟩ := exists_of_unlink solid kept
  obtain ⟨stripped, _, held, lines, count', ended⟩ := exists_of_joinFrom solid opened
  obtain ⟨front, back, rfl, outside, plain, rfl⟩ := exists_of_stripComments other lines
  have unlinked : unlink (lineBreaks held) = lineBreaks held :=
    unlinkInto_eq (not_mem_lineBreaks (by decide) held) []
  refine ⟨front, back, rfl, outside, plain, ⟨after, kept⟩, ⟨held, ?_⟩, ?_⟩
  · rw [prepare_eq_unlink, (outside.strip other).2]
    refine (congrArg unlink ended).trans ?_
    rw [again, unlinked]
  · rw [count, count', putBack_zero]
    exact isFirstLine front

end ApiBindings.Header
