import ApiBindings.Proofs.Reading.Places

/-! Texts that end with a line, and the openings of linkages that are taken out of them.
Openings are found before lines are told apart, and the blanks in them may be line breaks. So one
can start on the last line of a text, even of a directive, and go on into the text behind it. Where
none does so, what is left of two texts is what is left of each of them.
-/

namespace ApiBindings.Header

open ApiBindings.Text

variable {front back : List Char}

-----------------------------------------------------------------------------------------
-- Openings over two texts
-----------------------------------------------------------------------------------------

/-- An opening starts in a text, and is completed by the one behind it. -/
def OpensInto (front back : List Char) : Prop :=
  ∃ tail ∈ front.tails, tail ≠ [] ∧ linkage? tail = none ∧ linkage? (tail ++ back) ≠ none

instance (front back : List Char) : Decidable (OpensInto front back) :=
  inferInstanceAs (Decidable (∃ tail ∈ front.tails, _))

theorem unlink_append_of_not_opensInto (apart : ¬OpensInto front back)
    : unlink (front ++ back) = unlink front ++ unlink back := by
  refine unlink_append_of_linkage? fun tail member nonempty => ?_
  cases alone : linkage? tail with
  | none =>
      by_contra whole
      exact apart ⟨tail, member, nonempty, alone, whole⟩
  | some found =>
      obtain ⟨opening, shape, again⟩ := exists_of_linkage? alone
      have same : found.1 = breaks opening := by
        rw [shape, again] at alone
        exact (congrArg Prod.fst (Option.some.inj alone)).symm
      rw [shape, List.append_assoc, again, Option.map_some, same]

/-- A text that goes on no opening at whose gap it stands: it does not start with what is behind
one.
-/
def ContinuesNone (back : List Char) : Prop :=
  ∀ c ∈ back.head?, isBlank c = false ∧ c ≠ '"' ∧ c ≠ '\x7b'

/-- What follows a gap is read there by its first sign. -/
theorem strip?_trimStart_break {start : List Char} {sign : Char}
    (apart : ∀ c ∈ back.head?, isBlank c = false ∧ c ≠ sign) (solid : '\n' ∉ sign :: start)
    (front : List Char)
    : strip? (sign :: start) (trimStart (front ++ '\n' :: back)) =
        (strip? (sign :: start) (trimStart front)).map (· ++ '\n' :: back) := by
  rw [trimStart_append]
  split
  · rename_i blank
    have nothing : trimStart front = [] :=
      List.dropWhile_eq_nil_iff.mpr (List.all_eq_true.mp blank)
    rw [trimStart_cons_of_blank (by decide), nothing]
    cases back with
    | nil => rfl
    | cons c back =>
        obtain ⟨word, other⟩ := apart c rfl
        rw [trimStart_cons word, strip?_cons_of_ne other.symm]
        rfl
  · exact strip?_append_cons solid _ _

/-- An opening that starts on a line ends on it, unless what follows goes on with it. -/
theorem linkage?_break (apart : ContinuesNone back) (front : List Char)
    : linkage? (front ++ '\n' :: back) =
        (linkage? front).map fun found => (found.1, found.2 ++ '\n' :: back) := by
  have word : '\n' ∉ "extern".toList := by decide
  have language (front : List Char)
      : strip? "\"C\"".toList (trimStart (front ++ '\n' :: back)) =
        (strip? "\"C\"".toList (trimStart front)).map (· ++ '\n' :: back) :=
    strip?_trimStart_break (fun c first => ⟨(apart c first).1, (apart c first).2.1⟩) (by decide) front
  have brace (front : List Char)
      : strip? ['\x7b'] (trimStart (front ++ '\n' :: back)) =
        (strip? ['\x7b'] (trimStart front)).map (· ++ '\n' :: back) :=
    strip?_trimStart_break (fun c first => ⟨(apart c first).1, (apart c first).2.2⟩) (by decide) front
  simp only [linkage?, Option.bind_eq_bind, strip?_append_cons word, language, brace,
    Option.map_bind, Option.bind_map, Function.comp_def, breaks, List.count_append,
    Nat.add_sub_add_right, Option.map_some]

-----------------------------------------------------------------------------------------
-- Ends of lines
-----------------------------------------------------------------------------------------

/-- A text whose last line is over. -/
def EndsInBreak (cs : List Char) : Prop :=
  ∀ c ∈ cs.getLast?, c = '\n'

instance (cs : List Char) : Decidable (EndsInBreak cs) :=
  inferInstanceAs (Decidable (∀ c ∈ cs.getLast?, c = '\n'))

variable {cs : List Char}

theorem EndsInBreak.eq_nil_or (ends : EndsInBreak cs)
    : cs = [] ∨ ∃ front, cs = front ++ ['\n'] := by
  cases cs using List.reverseRecOn with
  | nil => exact .inl rfl
  | append_singleton front last _ =>
      obtain rfl := ends last List.getLast?_concat
      exact .inr ⟨front, rfl⟩

theorem endsInBreak_concat (front : List Char) : EndsInBreak (front ++ ['\n']) := by
  intro c last
  rw [List.getLast?_concat] at last
  exact (Option.some.inj last).symm

/-- The lines of a text are those of what follows it as well. -/
theorem EndsInBreak.exists_cut (ends : EndsInBreak cs)
    : ∃ lines, ∀ back, cut isBreak (cs ++ back) = lines ++ cut isBreak back := by
  rcases ends.eq_nil_or with rfl | ⟨front, rfl⟩
  · exact ⟨[], fun back => rfl⟩
  · refine ⟨cut isBreak front, fun back => ?_⟩
    rw [List.append_assoc, List.singleton_append, cut_append_of_cut (by decide)]

theorem EndsInBreak.unlink_append (ends : EndsInBreak front) (apart : ContinuesNone back)
    : unlink (front ++ back) = unlink front ++ unlink back := by
  have line {back : List Char} (apart : ContinuesNone back) (front : List Char)
      : unlink (front ++ '\n' :: back) = unlink front ++ '\n' :: unlink back := by
    rw [← unlink_of_isBlank (by decide)]
    exact unlink_append_of_linkage? fun tail _ _ => linkage?_break apart tail
  rcases ends.eq_nil_or with rfl | ⟨front, rfl⟩
  · rw [unlink_nil, List.nil_append, List.nil_append]
  · have none : ContinuesNone [] := fun c first => by cases first
    rw [List.append_assoc, List.singleton_append, line apart, line none, unlink_nil,
      List.append_assoc, List.singleton_append]

theorem EndsInBreak.unlink (ends : EndsInBreak cs) : EndsInBreak (unlink cs) := by
  rcases ends.eq_nil_or with rfl | ⟨front, rfl⟩
  · rw [unlink_nil]
    exact ends
  · have none : ContinuesNone [] := fun c first => by cases first
    rw [unlink_append_of_linkage? fun tail _ _ => linkage?_break none tail,
      unlink_of_isBlank (by decide), unlink_nil]
    exact endsInBreak_concat _

-----------------------------------------------------------------------------------------
-- Texts that end with a line
-----------------------------------------------------------------------------------------

/-- The text of a header without comments, its continued lines joined. -/
def joinedText (text : List Char) : List Char :=
  joinContinued (stripComments text)

theorem prepare_eq_unlink_joinedText (text : List Char) : prepare text = unlink (joinedText text) :=
  prepare_eq_unlink text

/-- A text that ends with a line, not within a comment, and without continuing the line. -/
structure EndsLines (text : List Char) : Prop where
  comments : IsClosed text
  ends : EndsInBreak text
  ended
    : ∀ line ∈ (cut isBreak (stripComments text)).dropLast.getLast?, isContinued line = false

theorem isContinued_of_not_mem {line : List Char} (absent : '\\' ∉ line)
    : isContinued line = false := by
  have inside : '\\' ∉ dropReturn line := by
    unfold dropReturn
    split
    · exact fun member => absent (List.mem_of_mem_dropLast member)
    · exact absent
  have last : (dropReturn line).getLast? ≠ some '\\' := fun last =>
    inside (List.mem_of_getLast? last)
  rw [isContinued, continued?, if_neg last]
  rfl

/-- A break that is not part of a comment is kept. By induction on how the text is closed. -/
theorem IsClosed.getLast?_strip {text : List Char} (closed : IsClosed text)
    (ends : text.getLast? = some '\n')
    : (stripComments text).getLast? = some '\n' := by
  have behind {cs : List Char} (front : List Char) (ends : cs.getLast? = some '\n')
      : (front ++ cs).getLast? = some '\n' := by
    rw [List.getLast?_append, ends]
    rfl
  induction closed with
  | nil => cases ends
  | @char c cs other _ ih =>
      rw [stripComments_cons_of_ne other]
      cases cs with
      | nil => rwa [stripComments_nil]
      | cons d cs => exact behind [c] (ih (by simpa using ends))
  | @slash c cs block line _ ih =>
      rw [stripComments_char (fun _ _ same => line (List.cons.inj same).1)
        (fun _ _ same => block (List.cons.inj same).1)]
      exact behind ['/'] (ih (by simpa using ends))
  | @block inner cs inside _ ih =>
      rw [(IsComment.block inside).strip]
      cases cs with
      | nil =>
          rw [List.append_nil, List.getLast?_append_of_ne_nil _ (by decide)] at ends
          exact absurd ends (by decide)
      | cons c cs =>
          rw [List.getLast?_append_of_ne_nil _ (by simp)] at ends
          exact behind _ (ih ends)
  | @line inner cs within _ ih =>
      rw [(IsComment.line within (by simp)).strip]
      rw [List.getLast?_append_of_ne_nil _ (by simp)] at ends
      exact behind _ (ih ends)

/-- Lines of which the last one is over are joined among themselves. By induction on the lines. -/
theorem exists_joinLines_over {lines : List (List Char)} (nonempty : lines ≠ [])
    (ended : ∀ line ∈ lines.getLast?, isContinued line = false) (held : Nat)
    : ∃ text, ∀ rest, rest ≠ []
        → joinLines held (lines ++ rest) = text ++ '\n' :: joinLines 0 rest := by
  induction lines generalizing held with
  | nil => exact absurd rfl nonempty
  | cons line lines ih =>
      cases lines with
      | nil =>
          have plain : continued? (dropReturn line) = none := by
            simpa [isContinued] using ended line rfl
          refine ⟨dropReturn line ++ lineBreaks held, fun rest more => ?_⟩
          have breaks : lineBreaks (held + 1) = lineBreaks held ++ ['\n'] :=
            List.replicate_succ'
          rw [List.singleton_append, joinLines, plain]
          simp [more, breaks]
      | cons next lines =>
          have later := ih (by simp) (by simpa using ended)
          cases continues : continued? (dropReturn line) with
          | some head =>
              obtain ⟨text, later⟩ := later (held + 1)
              refine ⟨head ++ ' ' :: text, fun rest more => ?_⟩
              rw [List.cons_append, joinLines, continues]
              dsimp only
              rw [later rest more, List.append_assoc, List.cons_append]
          | none =>
              obtain ⟨text, later⟩ := later 0
              refine ⟨dropReturn line ++ lineBreaks (held + 1) ++ text, fun rest more => ?_⟩
              rw [List.cons_append, joinLines, continues]
              simp only [later rest more, List.isEmpty_iff, List.append_eq_nil_iff,
                List.cons_ne_nil, false_and, if_false, List.append_assoc]

theorem joinedText_nil : joinedText [] = [] := by
  rw [joinedText, stripComments_nil]
  rfl

theorem EndsLines.exists_joinedText {text : List Char} (whole : EndsLines text)
    : text = []
      ∨ ∃ front, ∀ back, joinedText (text ++ back) = front ++ '\n' :: joinedText back := by
  refine whole.ends.eq_nil_or.imp_right ?_
  rintro ⟨front, shape⟩
  have last := whole.comments.getLast?_strip (by rw [shape, List.getLast?_concat])
  obtain ⟨stripped, same⟩ := List.getLast?_eq_some_iff.mp last
  have pieces (back : List Char)
      : cut isBreak (stripped ++ ['\n'] ++ back) = cut isBreak stripped ++ cut isBreak back := by
    rw [List.append_assoc, List.singleton_append, cut_append_of_cut (by decide)]
  have ended : ∀ line ∈ (cut isBreak stripped).getLast?, isContinued line = false := by
    have ended := whole.ended
    rwa [same, ← List.append_nil (stripped ++ ['\n']), pieces, show cut isBreak [] = [[]] from rfl,
      List.dropLast_concat] at ended
  obtain ⟨joined, joins⟩ := exists_joinLines_over (cut_ne_nil isBreak stripped) ended 0
  refine ⟨joined, fun back => ?_⟩
  rw [joinedText, whole.comments.strip_append, same, joinContinued, pieces,
    joins _ (cut_ne_nil isBreak _)]
  rfl

/-- A text that ends with a line is joined as if nothing followed it. -/
theorem EndsLines.joinedText_append {text : List Char} (whole : EndsLines text) (back : List Char)
    : joinedText (text ++ back) = joinedText text ++ joinedText back := by
  rcases whole.exists_joinedText with shape | ⟨front, shape⟩
  · rw [shape, joinedText_nil]
    rfl
  · have alone := shape []
    rw [List.append_nil, joinedText_nil] at alone
    rw [shape, alone, List.append_assoc, List.singleton_append]

theorem EndsLines.endsInBreak_joinedText {text : List Char} (whole : EndsLines text)
    : EndsInBreak (joinedText text) := by
  rcases whole.exists_joinedText with shape | ⟨front, shape⟩
  · rw [shape, joinedText_nil]
    nofun
  · have alone := shape []
    rw [List.append_nil, joinedText_nil] at alone
    rw [alone]
    exact endsInBreak_concat front

-----------------------------------------------------------------------------------------
-- Lines that openings are taken out of
-----------------------------------------------------------------------------------------

theorem isDirective_cons_iff {c : Char}
    : IsDirective (c :: cs) ↔ c = '#' ∨ isBlank c = true ∧ IsDirective cs := by
  have alone : IsDirective [c] ↔ c = '#' := by
    rw [IsDirective, head?_trim]
    cases blank : isBlank c with
    | true =>
        rw [trimStart_cons_of_blank blank]
        refine iff_of_false (by decide) ?_
        rintro rfl
        cases blank
    | false =>
        rw [trimStart_cons blank]
        simp
  rw [← List.singleton_append, isDirective_append_iff, alone, List.forall_mem_singleton]

theorem startsDirective_cons_iff {c : Char}
    : StartsDirective (c :: cs)
      ↔ c = '#' ∨ isBlank c = true ∧ c ≠ '\n' ∧ StartsDirective cs := by
  cases breaks : isBreak c with
  | true =>
      obtain rfl : c = '\n' := eq_of_beq breaks
      have nothing : ¬IsDirective [] := by decide
      simp [StartsDirective, cut_cons_of_cut breaks, nothing]
  | false =>
      have other : c ≠ '\n' := fun same => by simp [isBreak, same] at breaks
      obtain ⟨piece, rest, shape, longer⟩ := cut_cons_of_not_cut breaks cs
      simp [StartsDirective, shape, longer, isDirective_cons_iff, other]

instance (cs : List Char) : Decidable (StartsDirective cs) :=
  inferInstanceAs (Decidable (∃ line ∈ (cut isBreak cs).head?, IsDirective line))

/-- No opening in a text has a number sign behind it that starts a directive once it is taken out.
-/
def SparesDirectives (cs : List Char) : Prop :=
  ∀ tail ∈ cs.tails, ∀ found ∈ linkage? tail, ¬StartsDirective found.2

instance (cs : List Char) : Decidable (SparesDirectives cs) :=
  inferInstanceAs (Decidable (∀ tail ∈ cs.tails, _))

theorem SparesDirectives.of_suffix (spares : SparesDirectives cs) (suffix : back <:+ cs)
    : SparesDirectives back :=
  fun tail member =>
    spares tail ((List.mem_tails _ _).mpr (((List.mem_tails _ _).mp member).trans suffix))

/-- Along the openings of a text, and the signs that are in none. -/
theorem unlink_induction {motive : List Char → Prop} (nil : motive [])
    (opening
      : ∀ one two after, (∀ c ∈ one, isBlank c = true) → (∀ c ∈ two, isBlank c = true)
        → motive after → motive (opening one two ++ after))
    (char : ∀ c rest, linkage? (c :: rest) = none → motive rest → motive (c :: rest))
    (cs : List Char)
    : motive cs := by
  induction size : cs.length using Nat.strongRecOn generalizing cs with
  | _ length ih =>
      subst size
      cases opens : linkage? cs with
      | some found =>
          obtain ⟨one, two, blank, blank', same⟩ := exists_opening opens
          rw [same]
          exact opening one two _ blank blank' (ih _ (length_of_linkage? opens) _ rfl)
      | none =>
          cases cs with
          | nil => exact nil
          | cons c rest => exact char c rest opens (ih _ (Nat.lt_succ_self _) _ rfl)

theorem not_startsDirective_lineBreaks (n : Nat) (plain : ¬StartsDirective cs)
    : ¬StartsDirective (lineBreaks n ++ cs) := by
  cases n with
  | zero => exact plain
  | succ n =>
      rw [lineBreaks, List.replicate_succ, List.cons_append, startsDirective_cons_iff]
      simp

/-- What is left of a text when signs are taken out of it and blanks are put in. It has the same
line breaks and the same braces that close, and no line of it starts with a number sign that has
been behind what is taken out.
-/
inductive Thins : List Char → List Char → Prop
  | nil : Thins [] []
  | keep (c : Char) {cs ds : List Char} (later : Thins cs ds) : Thins (c :: cs) (c :: ds)
  | drop {c : Char} {cs ds : List Char} (solid : c ≠ '\n') (other : c ∉ "#\x7d".toList)
    (plain : ¬StartsDirective ds) (later : Thins cs ds)
    : Thins (c :: cs) ds
  | space {cs ds : List Char} (later : Thins cs ds) : Thins cs (' ' :: ds)

/-- Without its other signs a text leaves its line breaks. -/
theorem Thins.drops {ds front : List Char} (thins : Thins cs ds) (plain : ¬StartsDirective ds)
    (other : ∀ c ∈ front, c ∉ "#\x7d".toList)
    : Thins (front ++ cs) (lineBreaks (breaks front) ++ ds) := by
  induction front with
  | nil => exact thins
  | cons c front ih =>
      obtain ⟨here, other⟩ := List.forall_mem_cons.mp other
      by_cases ends : c = '\n'
      · have count : lineBreaks (breaks (c :: front)) = c :: lineBreaks (breaks front) := by
          rw [ends]
          simp [lineBreaks, breaks, List.replicate_succ]
        rw [count]
        exact .keep c (ih other)
      · have count : breaks (c :: front) = breaks front := List.count_cons_of_ne ends
        rw [count]
        exact .drop ends here (not_startsDirective_lineBreaks _ plain) (ih other)

theorem unlink_opening_append {one two : List Char} (blank : ∀ c ∈ one, isBlank c = true)
    (blank' : ∀ c ∈ two, isBlank c = true) (after : List Char)
    : unlink (opening one two ++ after) = leftOf (breaks (opening one two)) ++ unlink after :=
  unlink_opening (linkage?_opening blank blank' after)

/-- No directive starts where none has been before an opening was taken out. -/
theorem SparesDirectives.not_startsDirective_unlink (spares : SparesDirectives cs)
    (plain : ¬StartsDirective cs)
    : ¬StartsDirective (unlink cs) := by
  induction cs using unlink_induction with
  | nil =>
      rw [unlink_nil]
      exact plain
  | opening one two after blank blank' ih =>
      have apart : ¬StartsDirective after :=
        spares _ (by simp) _ (linkage?_opening blank blank' after)
      have later := ih (spares.of_suffix (List.suffix_append _ _)) apart
      rw [unlink_opening_append blank blank', leftOf]
      split
      · rw [List.singleton_append, startsDirective_cons_iff]
        simp [later]
      · exact not_startsDirective_lineBreaks _ later
  | char c rest none ih =>
      rw [unlink_char none, startsDirective_cons_iff]
      rw [startsDirective_cons_iff] at plain
      refine fun starts => plain (starts.imp_right fun ⟨blank, other, later⟩ => ?_)
      by_contra apart
      refine ih (spares.of_suffix (List.suffix_cons c rest)) (fun starts => ?_) later
      exact apart ⟨blank, other, starts⟩

/-- Taking openings out of a text drops no brace that closes a block. -/
theorem SparesDirectives.thins (spares : SparesDirectives cs) : Thins cs (unlink cs) := by
  induction cs using unlink_induction with
  | nil =>
      rw [unlink_nil]
      exact .nil
  | opening one two after blank blank' ih =>
      have apart : ¬StartsDirective after :=
        spares _ (by simp) _ (linkage?_opening blank blank' after)
      have spares := spares.of_suffix (List.suffix_append _ _)
      have later := spares.not_startsDirective_unlink apart
      have gap {signs : List Char} (blank : ∀ c ∈ signs, isBlank c = true)
          : ∀ c ∈ signs, c ∉ "#\x7d".toList := by
        intro c member inside
        have solid : ∀ sign ∈ "#\x7d".toList, isBlank sign = false := by decide
        cases (blank c member).symm.trans (solid c inside)
      have other : ∀ c ∈ opening one two, c ∉ "#\x7d".toList := by
        unfold opening
        simp only [List.forall_mem_append]
        exact ⟨by decide, gap blank, by decide, gap blank', by decide⟩
      have thins := (ih spares).drops later other
      rw [unlink_opening_append blank blank', leftOf]
      split
      · rename_i none
        rw [none] at thins
        exact .space thins
      · exact thins
  | char c rest none ih =>
      rw [unlink_char none]
      exact .keep c (ih (spares.of_suffix (List.suffix_cons c rest)))

end ApiBindings.Header
