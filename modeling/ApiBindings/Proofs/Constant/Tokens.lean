import ApiBindings.Constant.Token
import ApiBindings.Proofs.Text.Layout

/-! The tokens of a text, part by part.
A token ends where a character follows that no token goes on with. So a text is cut at its gaps, and
at parentheses and commas, without any change to its tokens.
-/

namespace ApiBindings.Constant.Token

/-- No token goes on with what a text starts with. -/
def EndsToken : List Char → Prop
  | [] => True
  | c :: _ => isNameChar c = false ∧ c ≠ '<' ∧ c ≠ '>'

variable {front back : List Char}

theorem EndsToken.stops {c : Char} (ends : EndsToken (c :: back)) {part : Char → Bool}
    (named : ∀ c, part c = true → isNameChar c = true)
    : part c = false := by
  cases goesOn : part c with
  | false => rfl
  | true => exact absurd (named c goesOn) (by simp [ends.1])

theorem takeWhile_append_of_endsToken {part : Char → Bool}
    (named : ∀ c, part c = true → isNameChar c = true) (ends : EndsToken back)
    : (front ++ back).takeWhile part = front.takeWhile part := by
  induction front with
  | nil =>
      cases back with
      | nil => rfl
      | cons c back => simp [ends.stops named]
  | cons c front ih => simp [List.takeWhile_cons, ih]

theorem dropWhile_append_of_endsToken {part : Char → Bool}
    (named : ∀ c, part c = true → isNameChar c = true) (ends : EndsToken back)
    : (front ++ back).dropWhile part = front.dropWhile part ++ back := by
  induction front with
  | nil =>
      cases back with
      | nil => rfl
      | cons c back => simp [ends.stops named]
  | cons c front ih =>
      by_cases goesOn : part c = true
      · simp [goesOn, ih]
      · simp [goesOn]

/-- The signs that are tokens of their own. -/
def marks : List Char :=
  ['(', ')', ',', '|', '&', '^', '+', '-', '*', '/', '%', '~']

/-- The only other signs are made of two angle brackets. -/
theorem sign?_eq_none {c : Char} (other : c ∉ marks)
    (single : ∀ later, front = c :: later → c ≠ '<' ∧ c ≠ '>')
    : sign? (c :: front) = none := by
  unfold sign?
  split
  case h_1 later shape =>
    obtain ⟨rfl, twice⟩ := List.cons.inj shape
    exact absurd rfl (single later twice).1
  case h_2 later shape =>
    obtain ⟨rfl, twice⟩ := List.cons.inj shape
    exact absurd rfl (single later twice).2
  case h_15 => rfl
  all_goals
    rename_i shape
    rw [(List.cons.inj shape).1] at other
    exact absurd (by decide) other

/-- A sign of two characters is not begun before the end of a token. -/
theorem sign?_append (c : Char) (front : List Char) (ends : EndsToken back)
    : sign? (c :: (front ++ back))
      = (sign? (c :: front)).map fun (token, later) => (token, later ++ back) := by
  by_cases member : c ∈ marks
  · simp only [marks, List.mem_cons, List.not_mem_nil, or_false] at member
    rcases member with rfl | rfl | rfl | rfl | rfl | rfl | rfl | rfl | rfl | rfl | rfl | rfl <;> rfl
  by_cases double : ∃ later, front = c :: later ∧ (c = '<' ∨ c = '>')
  · obtain ⟨later, rfl, rfl | rfl⟩ := double <;> rfl
  have single : ∀ later, front = c :: later → c ≠ '<' ∧ c ≠ '>' := fun later shape =>
    not_or.mp fun sign => double ⟨later, shape, sign⟩
  have longer : ∀ later, front ++ back = c :: later → c ≠ '<' ∧ c ≠ '>' := by
    intro later shape
    cases front with
    | nil =>
        rw [List.nil_append] at shape
        subst shape
        exact ends.2
    | cons d front =>
        obtain ⟨rfl, -⟩ := List.cons.inj shape
        exact single front rfl
  rw [sign?_eq_none member single, sign?_eq_none member longer]
  rfl

theorem isNameChar_of_isAlphanum (c : Char) (alphanum : c.isAlphanum = true)
    : isNameChar c = true := by
  simp [isNameChar, alphanum]

/-- Tokens that end are not changed by what follows them. By induction on how they are read. -/
theorem tokens?_append (ends : EndsToken back)
    : tokens? (front ++ back)
      = (tokens? front).bind fun first => (tokens? back).map fun later => first ++ later := by
  fun_induction tokens? front with
  | case1 => simp
  | case2 c rest gap ih => 
     rw [List.cons_append, tokens?, if_pos gap, ih]
  | case3 c rest noGap digit ih =>
      rw [List.cons_append, tokens?, if_neg noGap, if_pos digit,
        takeWhile_append_of_endsToken isNameChar_of_isAlphanum ends,
        dropWhile_append_of_endsToken isNameChar_of_isAlphanum ends, ih]
      cases literal? (c :: rest.takeWhile Char.isAlphanum) <;>
        cases tokens? (rest.dropWhile Char.isAlphanum) <;> cases tokens? back <;> simp
  | case4 c rest noGap noDigit name ih =>
      rw [List.cons_append, tokens?, if_neg noGap, if_neg noDigit, if_pos name,
        takeWhile_append_of_endsToken (fun _ => id) ends,
        dropWhile_append_of_endsToken (fun _ => id) ends, ih]
      cases tokens? (rest.dropWhile isNameChar) <;> cases tokens? back <;> simp
  | case5 c rest noGap noDigit noName token later sign ih =>
      have longer := sign?_append c rest ends
      rw [List.cons_append, tokens?, if_neg noGap, if_neg noDigit, if_neg noName]
      split
      · rename_i found
        rw [longer, sign] at found
        cases found
        rw [ih]
        cases tokens? later <;> cases tokens? back <;> simp
      · rename_i missing
        rw [longer, sign] at missing
        cases missing
  | case6 c rest noGap noDigit noName noSign =>
      have longer := sign?_append c rest ends
      rw [List.cons_append, tokens?, if_neg noGap, if_neg noDigit, if_neg noName]
      split
      · rename_i found
        rw [longer, noSign] at found
        cases found
      · rfl

/-- A gap ends a token and is none. -/
theorem endsToken_of_isGap {c : Char} (gap : isGap c = true) (back : List Char)
    : EndsToken (c :: back) := by
  simp only [isGap, Bool.or_eq_true, beq_iff_eq] at gap
  rcases gap with (((rfl | rfl) | rfl) | rfl) | rfl <;> exact ⟨by decide, by decide, by decide⟩

theorem tokens?_cons_of_isGap {c : Char} (gap : isGap c = true) (back : List Char)
    : tokens? (c :: back) = tokens? back := by
  rw [tokens?, if_pos gap]

/-- The pieces of a text between its gaps. -/
def pieces (text : List Char) : List (List Char) :=
  (Text.cut isGap text).filter fun piece => !piece.isEmpty

theorem pieces_append_cons {c : Char} (gap : isGap c = true) (front back : List Char)
    : pieces (front ++ c :: back) = pieces front ++ pieces back := by
  simp [pieces, Text.cut_append_of_cut gap]

theorem tokens?_solid (solid : ∀ c ∈ front, isGap c = false)
    : tokens? front = ((pieces front).mapM tokens?).map List.flatten := by
  rw [pieces, Text.cut_of_solid solid]
  cases front with
  | nil => simp [tokens?]
  | cons c front => cases found : tokens? (c :: front) <;> simp [found]

/-- A text is read piece by piece. By induction on what follows a part that has no gap. -/
theorem tokens?_append_pieces (solid : ∀ c ∈ front, isGap c = false) (back : List Char)
    : tokens? (front ++ back) = ((pieces (front ++ back)).mapM tokens?).map List.flatten := by
  induction back generalizing front with
  | nil =>
      rw [List.append_nil]
      exact tokens?_solid solid
  | cons c back ih =>
      by_cases gap : isGap c = true
      · have later := ih (List.forall_mem_nil (isGap · = false))
        rw [List.nil_append] at later
        rw [tokens?_append (endsToken_of_isGap gap back), tokens?_cons_of_isGap gap, later,
          tokens?_solid solid, pieces_append_cons gap, List.mapM_append]
        cases (pieces front).mapM tokens? <;> cases (pieces back).mapM tokens? <;> simp
      · have further : ∀ d ∈ front ++ [c], isGap d = false := by
          intro d member
          rcases List.mem_append.mp member with earlier | last
          · exact solid d earlier
          · rw [List.mem_singleton.mp last]
            simpa using gap
        simpa using ih further

theorem tokens?_eq_pieces (text : List Char)
    : tokens? text = ((pieces text).mapM tokens?).map List.flatten :=
  tokens?_append_pieces (List.forall_mem_nil (isGap · = false)) text

end ApiBindings.Constant.Token
