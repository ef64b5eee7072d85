import ApiBindings.Proofs.Reading.Cutting
import Mathlib.Data.List.Infix

/-! Comments as gaps between tokens.
Of a comment only its line breaks are left. So it parts the tokens around it if it has one, or if
there is a gap next to it anyway; without either, the tokens are joined.
-/

namespace ApiBindings

namespace Text

/-- There is a gap between two texts, or one of them is empty. -/
def IsGap (front back : List Char) : Prop :=
  (∀ c ∈ front.getLast?, isBlank c = true) ∨ ∀ c ∈ back.head?, isBlank c = true

instance (front back : List Char) : Decidable (IsGap front back) :=
  inferInstanceAs (Decidable (_ ∨ _))

/-- A space may be put into a gap. -/
theorem IsGap.spaced {front back : List Char} (gap : IsGap front back)
    : Spaced (front ++ back) (front ++ ' ' :: back) := by
  cases front using List.reverseRecOn with
  | nil => exact .inl rfl
  | append_singleton front last _ =>
      refine .inr ?_
      rcases gap with ends | starts
      · have blank := ends last (List.getLast?_concat ..)
        rw [List.append_assoc, List.append_assoc]
        exact Loosened.append (.inr (.behind blank)) front
      · refine Loosened.append (.inr ?_) _
        cases back with
        | nil => exact .last
        | cons c back => exact .before (starts c rfl)

theorem Loosened.breaks_eq {cs ds : List Char} (loosened : Loosened cs ds)
    : breaks ds = breaks cs := by
  rcases loosened with rfl | respaced
  · rfl
  · exact respaced.breaks_eq

end Text

namespace Header

open ApiBindings.Text

variable {front back rest : List Char} {c : Char}

-----------------------------------------------------------------------------------------
-- Comments
-----------------------------------------------------------------------------------------

/-- A comment in front of a text. One that starts with two slashes goes on up to the end of its
line.
-/
inductive IsComment : List Char → List Char → Prop
  | block {inner back : List Char} (ends : ¬"*/".toList <:+: inner ++ ['*'])
    : IsComment ("/*".toList ++ inner ++ "*/".toList) back
  | line {inner back : List Char} (within : '\n' ∉ inner) (ends : ∀ c ∈ back.head?, c = '\n')
    : IsComment ("//".toList ++ inner) back

/-- A text behind which no comment goes on, and no sign stands that could start one. -/
inductive IsClosed : List Char → Prop
  | nil : IsClosed []
  | char {c : Char} {cs : List Char} (other : c ≠ '/') (later : IsClosed cs) : IsClosed (c :: cs)
  | slash {c : Char} {cs : List Char} (block : c ≠ '*') (line : c ≠ '/')
    (later : IsClosed (c :: cs))
    : IsClosed ('/' :: c :: cs)
  | block {inner cs : List Char} (ends : ¬"*/".toList <:+: inner ++ ['*']) (later : IsClosed cs)
    : IsClosed ("/*".toList ++ inner ++ "*/".toList ++ cs)
  | line {inner cs : List Char} (within : '\n' ∉ inner) (later : IsClosed ('\n' :: cs))
    : IsClosed ("//".toList ++ inner ++ '\n' :: cs)

/-- A block comment ends at the first closing sign. By induction on what stands in it. -/
theorem closeComment?_append {inner : List Char} (ends : ¬"*/".toList <:+: inner ++ ['*'])
    (passed : Nat) (rest : List Char)
    : closeComment? passed (inner ++ "*/".toList ++ rest) = some (passed + breaks inner, rest) := by
  induction inner generalizing passed with
  | nil => rfl
  | cons c inner ih =>
      have later : ¬"*/".toList <:+: inner ++ ['*'] := fun inside =>
        ends (inside.trans (List.suffix_cons c _).isInfix)
      have goesOn : ∀ tail, c :: (inner ++ "*/".toList ++ rest) ≠ '*' :: '/' :: tail := by
        intro tail same
        obtain ⟨rfl, behind⟩ := List.cons.inj same
        cases inner with
        | nil => cases (List.cons.inj behind).1
        | cons d inner =>
            obtain ⟨rfl, -⟩ := List.cons.inj behind
            exact ends ⟨[], inner ++ ['*'], rfl⟩
      rw [List.cons_append, List.cons_append, closeComment?, ih later]
      · by_cases breaks : c = '\n'
        · simp [breaks, Text.breaks, Nat.add_right_comm, Nat.add_assoc]
        · simp [breaks, Text.breaks]
      · exact fun tail first same => goesOn tail (by rw [first, same])

section

variable (done : List Char)

theorem stripInto_line (rest : List Char)
    : stripInto done ('/' :: '/' :: rest) = stripInto done (rest.dropWhile (· != '\n')) := by
  rw [stripInto]

theorem stripInto_block {found : Nat} {after : List Char}
    (closes : closeComment? 0 rest = some (found, after))
    : stripInto done ('/' :: '*' :: rest) = stripInto (lineBreaks found ++ done) after := by
  rw [stripInto]
  split
  · rename_i again
    rw [closes] at again
    cases again
    rfl
  · rename_i never
    rw [closes] at never
    cases never

theorem stripInto_unclosed (never : closeComment? 0 rest = none)
    : stripInto done ('/' :: '*' :: rest) = stripInto ('/' :: done) ('*' :: rest) := by
  rw [stripInto]
  split
  · rename_i closes
    rw [never] at closes
    cases closes
  · rfl

theorem stripInto_char (line : ∀ after, c = '/' → rest ≠ '/' :: after)
    (block : ∀ after, c = '/' → rest ≠ '*' :: after)
    : stripInto done (c :: rest) = stripInto (c :: done) rest := by
  rw [stripInto]
  · exact fun after first same => line after first same
  · exact fun after first same => block after first same

end

/-- What stands before a text changes nothing about the comments in it. -/
theorem stripInto_eq_append (done cs : List Char)
    : stripInto done cs = done.reverse ++ stripComments cs := by
  induction size : cs.length using Nat.strongRecOn generalizing cs done with
  | _ length ih =>
      subst size
      have step (more : List Char) {cs' : List Char} (few : cs'.length < cs.length)
          (read : stripInto [] cs = stripInto more cs')
          : stripInto (more ++ done) cs' = done.reverse ++ stripComments cs := by
        have whole : stripComments cs = more.reverse ++ stripComments cs' :=
          read.trans (ih _ few _ _ rfl)
        rw [ih _ few _ _ rfl, whole, List.reverse_append, List.append_assoc]
      fun_cases stripInto done cs with
      | case1 => simp [stripComments, stripInto]
      | case2 rest =>
          refine step [] ?_ (stripInto_line [] rest)
          have shorter := length_dropWhile_le (· != '\n') rest
          simp only [List.length_cons]
          omega
      | case3 rest found after closes =>
          refine step (lineBreaks found) ?_ ?_
          · have shorter := length_of_closeComment? closes
            simp only [List.length_cons]
            omega
          · rw [stripInto_block [] closes, List.append_nil]
      | case4 rest never =>
          exact step ['/'] (Nat.lt_succ_self _) (stripInto_unclosed [] never)
      | case5 c rest line block =>
          exact step [c] (Nat.lt_succ_self _) (stripInto_char [] line block)

theorem stripComments_char (line : ∀ after, c = '/' → rest ≠ '/' :: after)
    (block : ∀ after, c = '/' → rest ≠ '*' :: after)
    : stripComments (c :: rest) = c :: stripComments rest := by
  rw [stripComments, stripInto_char [] line block, stripInto_eq_append]
  rfl

/-- Of a comment its line breaks are left. -/
theorem IsComment.strip {comment : List Char} (comments : IsComment comment back)
    : stripComments (comment ++ back) = lineBreaks (breaks comment) ++ stripComments back := by
  cases comments with
  | @block inner _ ends =>
      have closes := closeComment?_append ends 0 back
      have same : breaks ("/*".toList ++ inner ++ "*/".toList) = 0 + breaks inner := by
        simp [breaks]
      rw [same, List.append_assoc, List.append_assoc, stripComments]
      rw [List.append_assoc] at closes
      refine (stripInto_block [] closes).trans ?_
      rw [stripInto_eq_append]
      simp [lineBreaks]
  | @line inner _ within ends =>
      have none : breaks ("//".toList ++ inner) = 0 := by
        simpa [breaks, List.count_eq_zero] using within
      have stops : (inner ++ back).dropWhile (· != '\n') = back := by
        rw [List.dropWhile_append_of_pos (bne_of_not_mem within)]
        cases back with
        | nil => rfl
        | cons c back => simp [ends c rfl]
      rw [none, List.append_assoc, stripComments]
      refine (stripInto_line [] (inner ++ back)).trans ?_
      rw [stops]
      rfl

/-- Behind a text in which no comment is open, comments are taken out as before. By induction on how
the text is closed.
-/
theorem IsClosed.strip_append (closed : IsClosed front) (back : List Char)
    : stripComments (front ++ back) = stripComments front ++ stripComments back := by
  induction closed with
  | nil => simp [stripComments, stripInto]
  | char other _ ih =>
      rw [List.cons_append, stripComments_char (fun _ same => absurd same other)
        (fun _ same => absurd same other), ih, stripComments_char (fun _ same => absurd same other)
        (fun _ same => absurd same other)]
      rfl
  | @slash c cs block line _ ih =>
      have apart (cs : List Char) : stripComments ('/' :: c :: cs) = '/' :: stripComments (c :: cs) :=
        stripComments_char (fun _ _ same => line (List.cons.inj same).1)
          (fun _ _ same => block (List.cons.inj same).1)
      rw [List.cons_append, List.cons_append, apart, ← List.cons_append, ih, apart, List.cons_append]
  | @block inner cs ends _ ih =>
      have comments (back : List Char) : IsComment ("/*".toList ++ inner ++ "*/".toList) back :=
        .block ends
      rw [List.append_assoc _ cs, (comments _).strip, ih, (comments _).strip]
      exact (List.append_assoc _ _ _).symm
  | @line inner cs within _ ih =>
      have comments (back : List Char) : IsComment ("//".toList ++ inner) ('\n' :: back) :=
        .line within (by simp)
      rw [List.append_assoc _ _ back, List.cons_append, (comments _).strip, ← List.cons_append, ih,
        (comments _).strip, List.append_assoc]

-----------------------------------------------------------------------------------------
-- Continued lines
-----------------------------------------------------------------------------------------

/-- A text after which a line may end without being continued. -/
def EndsPlainly (front : List Char) : Prop :=
  ∀ c ∈ front.getLast?, c ≠ '\\' ∧ c ≠ '\r'

theorem EndsPlainly.dropReturn_append (plain : EndsPlainly front) (back : List Char)
    : dropReturn (front ++ back) = front ++ dropReturn back := by
  cases back using List.reverseRecOn with
  | nil =>
      have whole : ¬(front.getLast? == some '\r') = true := fun last =>
        (plain _ (eq_of_beq last)).2 rfl
      rw [List.append_nil, dropReturn, if_neg whole]
      exact (List.append_nil front).symm
  | append_singleton back last _ =>
      rw [← List.append_assoc]
      simp only [dropReturn, List.getLast?_concat, List.dropLast_concat]
      split
      · rfl
      · rw [List.append_assoc]

theorem EndsPlainly.continued?_append (plain : EndsPlainly front) (back : List Char)
    : continued? (front ++ back) = (continued? back).map (front ++ ·) := by
  cases back using List.reverseRecOn with
  | nil =>
      rw [List.append_nil]
      exact if_neg fun last => (plain _ last).1 rfl
  | append_singleton back last _ =>
      rw [← List.append_assoc]
      simp only [continued?, List.getLast?_concat, List.dropLast_concat]
      split
      · rfl
      · rfl

/-- What such a text starts a line with stays at the start of the line. -/
theorem EndsPlainly.joinLines_append (plain : EndsPlainly front) (held : Nat) (line : List Char)
    (rest : List (List Char))
    : joinLines held ((front ++ line) :: rest) = front ++ joinLines held (line :: rest) := by
  rw [joinLines, joinLines, plain.dropReturn_append, plain.continued?_append]
  cases continued? (dropReturn line) with
  | none => simp
  | some head => simp

theorem getLast?_append_cons (blank : isBlank c = true) (ends : ∀ d ∈ back.getLast?, isBlank d = true)
    : ∀ d ∈ (front ++ c :: back).getLast?, isBlank d = true := by
  cases back using List.reverseRecOn with
  | nil => simp [blank]
  | append_singleton back last _ =>
      rw [← List.cons_append, ← List.append_assoc, List.getLast?_concat]
      rw [List.getLast?_concat] at ends
      exact ends

/-- Lines are joined up to the one that follows them, whatever that is. -/
theorem exists_joinLines_append (held : Nat) (lines : List (List Char))
    : ∃ joined later, (∀ c ∈ joined.getLast?, isBlank c = true)
        ∧ ∀ line rest, joinLines held (lines ++ line :: rest)
          = joined ++ joinLines later (line :: rest) := by
  induction lines generalizing held with
  | nil => exact ⟨[], held, by simp, fun _ _ => rfl⟩
  | cons first lines ih =>
      cases continues : continued? (dropReturn first) with
      | some head =>
          obtain ⟨joined, later, blank, same⟩ := ih (held + 1)
          refine ⟨head ++ ' ' :: joined, later, getLast?_append_cons isBlank_space blank, ?_⟩
          intro line rest
          rw [List.cons_append, joinLines, continues]
          simp [same]
      | none =>
          obtain ⟨joined, later, blank, same⟩ := ih 0
          refine ⟨dropReturn first ++ lineBreaks held ++ '\n' :: joined, later,
            getLast?_append_cons (by decide) blank, ?_⟩
          intro line rest
          rw [List.cons_append, joinLines, continues]
          simp [same, lineBreaks, List.replicate_succ']

/-- A line that starts with a blank, if with anything, still does so when it is joined. -/
theorem head?_joinLines {line : List Char} (starts : ∀ c ∈ line.head?, isBlank c = true)
    (held : Nat) (rest : List (List Char))
    : ∀ c ∈ (joinLines held (line :: rest)).head?, isBlank c = true := by
  have isBlank_break : isBlank '\n' = true := by decide
  cases shape : dropReturn line with
  | nil =>
      have whole : continued? [] = none := rfl
      rw [joinLines, shape, whole]
      cases rest with
      | nil => cases held <;> simp [joinLines, lineBreaks, List.replicate_succ, isBlank_break]
      | cons next rest => simp [lineBreaks, List.replicate_succ, isBlank_break]
  | cons c tail =>
      have blank : isBlank c = true := by
        obtain ⟨tail, rfl⟩ : c :: tail <+: line := by
          rw [← shape, dropReturn]
          split
          · exact List.dropLast_prefix line
          · exact List.prefix_refl line
        exact starts c rfl
      rw [joinLines, shape]
      cases continues : continued? (c :: tail) with
      | some head =>
          obtain ⟨last, same⟩ := Option.ite_none_right_eq_some.mp continues
          cases same
          cases tail with
          | nil =>
              obtain rfl : c = '\\' := by simpa using last
              cases blank
          | cons d tail => simp [blank]
      | none => simp [blank]

/-- A gap stays one when continued lines are joined. -/
theorem spaced_joinContinued (gap : IsGap front back) (plain : EndsPlainly front)
    : Spaced (joinContinued (front ++ back)) (joinContinued (front ++ ' ' :: back)) := by
  obtain ⟨earlier, last, shape⟩ := exists_cut_concat isBreak front
  obtain ⟨first, later, shape', spaced⟩ := cut_cons_of_not_cut (by decide : isBreak ' ' = false) back
  obtain ⟨joined, held, blank, same⟩ := exists_joinLines_append 0 earlier
  have ends : EndsPlainly last := ends_of_cut shape plain
  have space : EndsPlainly [' '] := by simp [EndsPlainly]
  have whole : joinContinued (front ++ back) = joined ++ last ++ joinLines held (first :: later) := by
    rw [joinContinued, cut_append shape shape', same, ends.joinLines_append, List.append_assoc]
  have whole' : joinContinued (front ++ ' ' :: back)
      = joined ++ last ++ ' ' :: joinLines held (first :: later) := by
    have split := space.joinLines_append held first later
    rw [joinContinued, cut_append shape spaced, same, ends.joinLines_append, List.append_assoc]
    exact congrArg (joined ++ ·) (congrArg (last ++ ·) split)
  rw [whole, whole']
  refine IsGap.spaced ?_
  rcases gap with before | behind
  · refine .inl ?_
    cases last using List.reverseRecOn with
    | nil => rwa [List.append_nil]
    | append_singleton last c _ =>
        rw [← List.append_assoc, List.getLast?_concat, ← List.getLast?_concat]
        exact ends_of_cut shape before
  · exact .inr (head?_joinLines (starts_of_cut shape' behind) held later)

-----------------------------------------------------------------------------------------
-- Openings of linkages
-----------------------------------------------------------------------------------------

/-- A further space in a gap belongs to an opening or stands behind it. -/
theorem linkage?_same {cs ds : List Char} (respaced : Respaced cs ds)
    : Option.Rel (fun one other => one.1 = other.1 ∧ Loosened one.2 other.2) (linkage? cs)
        (linkage? ds) := by
  unfold linkage?
  simp only [Option.bind_eq_bind]
  refine rel_bind (respaced.strip? (by decide)) fun rest rest' respaced' => ?_
  refine rel_bind (respaced'.trimStart.strip? (by decide)) fun quoted quoted' loosened => ?_
  refine rel_bind (loosened.trimStart.strip? (by decide)) fun after after' loosened => ?_
  exact .some ⟨by rw [respaced.breaks_eq, loosened.breaks_eq], loosened⟩

theorem linkage?_eq_none_of_isBlank (blank : isBlank c = true) (rest : List Char)
    : linkage? (c :: rest) = none := by
  have differs : 'e' ≠ c := by
    rintro rfl
    cases blank
  have none : strip? "extern".toList (c :: rest) = none := strip?_cons_of_ne differs
  rw [linkage?, none]
  rfl

/-- What an opening with so many line breaks leaves. -/
def leftOf (found : Nat) : List Char :=
  if found = 0 then [' '] else lineBreaks found

def unlink (cs : List Char) : List Char :=
  unlinkInto [] cs

section

variable (done : List Char)

theorem unlinkInto_opening {after : List Char} {found : Nat}
    (opens : linkage? (c :: rest) = some (found, after))
    : unlinkInto done (c :: rest) = unlinkInto (leftOf found ++ done) after := by
  rw [unlinkInto]
  split
  · rename_i again
    rw [opens] at again
    cases again
    rfl
  · rename_i plain
    rw [opens] at plain
    cases plain

theorem unlinkInto_char (plain : linkage? (c :: rest) = none)
    : unlinkInto done (c :: rest) = unlinkInto (c :: done) rest := by
  rw [unlinkInto]
  split
  · rename_i opens
    rw [plain] at opens
    cases opens
  · rfl

end

/-- What stands before a text changes nothing about the openings in it. -/
theorem unlinkInto_eq_append (done cs : List Char)
    : unlinkInto done cs = done.reverse ++ unlink cs := by
  induction size : cs.length using Nat.strongRecOn generalizing cs done with
  | _ length ih =>
      subst size
      cases cs with
      | nil => simp [unlink, unlinkInto]
      | cons c rest =>
          cases opens : linkage? (c :: rest) with
          | none =>
              have few : rest.length < (c :: rest).length := Nat.lt_succ_self _
              have whole : unlink (c :: rest) = [c].reverse ++ unlink rest :=
                (unlinkInto_char [] opens).trans (ih _ few _ _ rfl)
              rw [unlinkInto_char done opens, ih _ few _ _ rfl, whole]
              simp
          | some found =>
              have few := length_of_linkage? opens
              have whole : unlink (c :: rest) = (leftOf found.1 ++ []).reverse ++ unlink found.2 :=
                (unlinkInto_opening [] opens).trans (ih _ few _ _ rfl)
              rw [unlinkInto_opening done opens, ih _ few _ _ rfl, whole]
              simp

theorem unlink_opening {cs after : List Char} {found : Nat}
    (opens : linkage? cs = some (found, after))
    : unlink cs = leftOf found ++ unlink after := by
  cases cs with
  | nil => cases opens
  | cons c rest =>
      have same : (leftOf found).reverse = leftOf found := by
        unfold leftOf
        split
        · rfl
        · exact List.reverse_replicate
      rw [unlink, unlinkInto_opening [] opens, unlinkInto_eq_append, List.append_nil, same]

theorem unlink_nil : unlink [] = [] := by
  simp [unlink, unlinkInto]

theorem unlink_char (plain : linkage? (c :: rest) = none)
    : unlink (c :: rest) = c :: unlink rest := by
  rw [unlink, unlinkInto_char [] plain, unlinkInto_eq_append]
  rfl

theorem unlink_of_isBlank (blank : isBlank c = true) (rest : List Char)
    : unlink (c :: rest) = c :: unlink rest :=
  unlink_char (linkage?_eq_none_of_isBlank blank rest)

theorem unlink_respaced {cs ds : List Char} (respaced : Respaced cs ds)
    : Loosened (unlink cs) (unlink ds) := by
  induction size : cs.length using Nat.strongRecOn generalizing cs ds with
  | _ length ih =>
      subst size
      have same := linkage?_same respaced
      generalize opens : linkage? cs = one, opens' : linkage? ds = other at same
      cases same with
      | @some one other same =>
          obtain ⟨found, after⟩ := one
          obtain ⟨found', after'⟩ := other
          obtain ⟨rfl, loosened⟩ := same
          rw [unlink_opening opens, unlink_opening opens']
          refine Loosened.append ?_ _
          rcases loosened with rfl | respaced
          · exact .refl _
          · exact ih _ (length_of_linkage? opens) respaced rfl
      | none =>
          cases respaced with
          | last =>
              rw [unlink_of_isBlank isBlank_space, unlink_nil]
              exact .inr .last
          | before blank =>
              rw [unlink_of_isBlank isBlank_space, unlink_of_isBlank blank]
              exact .inr (.before blank)
          | behind blank =>
              rw [unlink_of_isBlank blank, unlink_of_isBlank blank, unlink_of_isBlank isBlank_space]
              exact .inr (.behind blank)
          | cons c later =>
              rw [unlink_char opens, unlink_char opens']
              exact (ih _ (Nat.lt_succ_self _) later rfl).cons c

theorem unlink_spaced {cs ds : List Char} (spaced : Spaced cs ds)
    : Spaced (unlink cs) (unlink ds) := by
  rcases spaced with rfl | rfl | respaced
  · exact .inl (unlink_of_isBlank isBlank_space cs)
  · exact .inr (.refl _)
  · exact .inr (unlink_respaced respaced)

-----------------------------------------------------------------------------------------
-- Comments as gaps
-----------------------------------------------------------------------------------------

theorem prepare_eq_unlink (cs : List Char)
    : prepare cs = unlink (joinContinued (stripComments cs)) :=
  rfl

theorem stripComments_lineBreaks (n : Nat) (back : List Char)
    : stripComments (lineBreaks n ++ back) = lineBreaks n ++ stripComments back := by
  induction n with
  | zero => rfl
  | succ n ih =>
      rw [lineBreaks, List.replicate_succ, List.cons_append, stripComments_char, ← lineBreaks, ih]
      · rfl
      · simp
      · simp

section

variable {comment : List Char} (closed : IsClosed front) (comments : IsComment comment back)

include closed comments

/-- A comment is read like its line breaks. -/
theorem prepare_comment
    : prepare (front ++ comment ++ back)
      = prepare (front ++ lineBreaks (breaks comment) ++ back) := by
  simp only [prepare_eq_unlink, List.append_assoc]
  rw [closed.strip_append, comments.strip, closed.strip_append, stripComments_lineBreaks]

/-- A comment in a gap can be replaced by a space and its line breaks. -/
theorem spaced_prepare_comment
    (gap : IsGap (stripComments front) (lineBreaks (breaks comment) ++ stripComments back))
    (plain : EndsPlainly (stripComments front))
    : Spaced (prepare (front ++ comment ++ back))
        (prepare (front ++ ' ' :: lineBreaks (breaks comment) ++ back)) := by
  have space : stripComments (' ' :: (lineBreaks (breaks comment) ++ back))
      = ' ' :: (lineBreaks (breaks comment) ++ stripComments back) := by
    rw [stripComments_char (by simp) (by simp), stripComments_lineBreaks]
  simp only [prepare_eq_unlink, List.append_assoc, List.cons_append]
  rw [closed.strip_append, comments.strip, closed.strip_append, space]
  exact unlink_spaced (spaced_joinContinued gap plain)

/-- The same is read from a text with a comment in it as from that text with the line breaks of the
comment in its place. If there is a gap in this place, or a line break of the comment makes one,
then the same is read with a space in front of the line breaks.
-/
theorem read_comment (setting : Setting)
    : setting.read (front ++ comment ++ back)
        = setting.read (front ++ lineBreaks (breaks comment) ++ back)
      ∧ (IsGap (stripComments front) (lineBreaks (breaks comment) ++ stripComments back)
        → EndsPlainly (stripComments front)
        → setting.read (front ++ comment ++ back)
          = setting.read (front ++ ' ' :: lineBreaks (breaks comment) ++ back)) := by
  have same {one two : List Char}
      (lines : List.Forall₂ SameLine (cut isBreak (prepare one)) (cut isBreak (prepare two)))
      : setting.read one = setting.read two := by
    have found : Findings.renumber some _ = Findings.renumber some _ :=
      setting.read_same (sameItems_of_sameLines lines)
    rw [Findings.renumber_some, Findings.renumber_some] at found
    exact congrArg (Records.mk · setting.dialect.api.registryName) found.symm
  refine ⟨same ?_, fun gap plain => same ?_⟩
  · rw [prepare_comment closed comments]
    exact sameLines_refl _
  · exact (spaced_prepare_comment closed comments gap plain).cut (by decide)

end

theorem isClosed_of_not_mem {cs : List Char} (absent : '/' ∉ cs) : IsClosed cs := by
  induction cs with
  | nil => exact .nil
  | cons c cs ih =>
      obtain ⟨other, absent⟩ := List.ne_and_not_mem_of_not_mem_cons absent
      exact .char other.symm (ih absent)

theorem stripComments_eq {cs : List Char} (absent : '/' ∉ cs) : stripComments cs = cs :=
  stripInto_eq absent []

def statusComment : List Char :=
  "/*".toList ++ " status ".toList ++ "*/".toList

theorem statusComment_isComment (back : List Char) : IsComment statusComment back :=
  .block (by decide)

/-- A comment behind the space that follows a return type. -/
theorem commentBehindSpace_read
    : markedHeader.read ("VX_API_ENTRY int ".toList ++ statusComment ++ "vxFoo(void);".toList)
      = markedHeader.read ("VX_API_ENTRY int ".toList ++ ' ' :: lineBreaks (breaks statusComment)
          ++ "vxFoo(void);".toList) := by
  have plain : '/' ∉ "VX_API_ENTRY int ".toList := by decide
  have space : "VX_API_ENTRY int ".toList.getLast? = some ' ' := by decide
  refine (read_comment (isClosed_of_not_mem plain) (statusComment_isComment _) markedHeader).2 ?_ ?_
  · rw [stripComments_eq plain, IsGap, space]
    exact .inl fun c last => by
      cases last
      exact isBlank_space
  · rw [stripComments_eq plain, EndsPlainly, space]
    rintro c ⟨⟩
    decide

/-- Without that space the comment joins the return type and the name of the command. -/
theorem commentBehindType_joins
    : IsClosed "VX_API_ENTRY int".toList
      ∧ IsComment statusComment "vxFoo(void);".toList
      ∧ markedHeader.read ("VX_API_ENTRY int".toList ++ statusComment ++ "vxFoo(void);".toList)
        ≠ markedHeader.read ("VX_API_ENTRY int".toList ++ ' ' :: lineBreaks (breaks statusComment)
            ++ "vxFoo(void);".toList) := by
  refine ⟨isClosed_of_not_mem (by decide), statusComment_isComment _, fun same => ?_⟩
  exact absurd (congrArg (·.commands) same) (by decide +kernel)

end Header

end ApiBindings
