import ApiBindings.Proofs.Constant.Notation
import Mathlib.Data.List.TakeWhile

/-! The words of an expression are read as their tokens, and there are no other tokens but commas.
-/

namespace ApiBindings.Constant

-----------------------------------------------------------------------------------------
-- Digits
-----------------------------------------------------------------------------------------

theorem isDigit_of_digitValue {c : Char} (fits : Text.digitValue c < 10) : c.isDigit = true := by
  by_contra noDigit
  unfold Text.digitValue at fits
  split at fits
  · contradiction
  · split at fits
    · omega
    · split at fits <;> omega

theorem spells_of_numeral? {base n : Nat} {digits : List Char}
    (found : Text.numeral? base digits = some n)
    : Text.Spells base digits n := by
  unfold Text.numeral? at found
  split at found
  · cases found
  · rename_i proper
    simp only [Bool.or_eq_true, List.isEmpty_iff, List.any_eq_true, decide_eq_true_eq, not_or,
      not_exists, not_and, Nat.not_le] at proper
    exact ⟨proper.1, proper.2, Option.some.inj found⟩

theorem isAlphanum_of_digitValue {c : Char} (fits : Text.digitValue c < 16)
    : c.isAlphanum = true := by
  unfold Text.digitValue at fits
  split at fits
  · rename_i digit
    simp [Char.isAlphanum, digit]
  · split at fits
    · rename_i small
      have isLower : (decide (c ≥ 'a') && decide (c ≤ 'z')) = true := by
        simp only [Bool.and_eq_true, decide_eq_true_eq]
        exact ⟨small.1, Char.le_trans small.2 (by decide)⟩
      have isAlpha : c.isAlpha = true := Bool.or_eq_true_iff.mpr (.inr isLower)
      simp [Char.isAlphanum, isAlpha]
    · split at fits
      · rename_i capital
        have isUpper : c.isUpper = true :=
          decide_eq_true ⟨capital.1, Char.le_trans capital.2 (by decide)⟩
        have isAlpha : c.isAlpha = true := Bool.or_eq_true_iff.mpr (.inl isUpper)
        simp [Char.isAlphanum, isAlpha]
      · omega

-----------------------------------------------------------------------------------------
-- Literals
-----------------------------------------------------------------------------------------

namespace Literal

/-- Digits end where the suffix starts. -/
theorem takeWhile_digits {digits suffix : List Char} {isDigit : Char → Bool}
    (all : ∀ c ∈ digits, isDigit c = true)
    (others : ∀ c ∈ ['u', 'U', 'l', 'L'], isDigit c = false)
    (suffixed : ∀ c ∈ suffix, c ∈ ['u', 'U', 'l', 'L'])
    : (digits ++ suffix).takeWhile isDigit = digits
      ∧ (digits ++ suffix).dropWhile isDigit = suffix := by
  rw [List.takeWhile_append_of_pos all, List.dropWhile_append_of_pos all]
  cases suffix with
  | nil => simp
  | cons c suffix => simp [others c (suffixed c List.mem_cons_self)]

/-- A text is no hexadecimal literal if no `x` follows its first zero. -/
theorem isHex_cons_eq_false {c : Char} {cs : List Char}
    (others : c = '0' → ∀ d, cs.head? = some d → d ≠ 'x' ∧ d ≠ 'X')
    : Token.isHex (c :: cs) = false := by
  unfold Token.isHex
  split
  · rename_i d later shape
    obtain ⟨rfl, rfl⟩ := List.cons.inj shape
    obtain ⟨small, capital⟩ := others rfl d rfl
    simp [small, capital]
  · rfl

theorem literalParts_octal {c : Char} {rest suffix : List Char}
    (noHex : Token.isHex ('0' :: c :: rest ++ suffix) = false)
    (all : ∀ d ∈ '0' :: c :: rest, d.isDigit = true)
    (suffixed : ∀ c ∈ suffix, c ∈ ['u', 'U', 'l', 'L'])
    : Token.literalParts ('0' :: c :: rest ++ suffix) = (8, c :: rest, suffix) := by
  obtain ⟨taken, dropped⟩ := takeWhile_digits all (by decide) suffixed
  simp only [Token.literalParts, noHex, taken, dropped, Bool.false_eq_true, if_false]

theorem literalParts_decimal {digits suffix : List Char}
    (noHex : Token.isHex (digits ++ suffix) = false) (all : ∀ c ∈ digits, c.isDigit = true)
    (lone : ∀ c rest, digits ≠ '0' :: c :: rest)
    (suffixed : ∀ c ∈ suffix, c ∈ ['u', 'U', 'l', 'L'])
    : Token.literalParts (digits ++ suffix) = (10, digits, suffix) := by
  obtain ⟨taken, dropped⟩ := takeWhile_digits all (by decide) suffixed
  simp only [Token.literalParts, noHex, taken, dropped, Bool.false_eq_true, if_false]

theorem literalParts_hexadecimal {mark : Char} (marks : mark = 'x' ∨ mark = 'X')
    {digits suffix : List Char} (nonempty : digits ≠ [])
    (fits : ∀ c ∈ digits, Text.digitValue c < 16)
    (suffixed : ∀ c ∈ suffix, c ∈ ['u', 'U', 'l', 'L'])
    : Token.literalParts ('0' :: mark :: (digits ++ suffix)) = (16, digits, suffix) := by
  have isHex : Token.isHex ('0' :: mark :: (digits ++ suffix)) = true := by
    rcases marks with rfl | rfl <;> rfl
  have all : ∀ c ∈ digits, decide (Token.literalParts.digitValue c < 16) = true :=
    fun c member => decide_eq_true (fits c member)
  obtain ⟨taken, dropped⟩ := takeWhile_digits all (by decide) suffixed
  have isEmpty : digits.isEmpty = false := by simpa using nonempty
  simp only [Token.literalParts, isHex, if_true, List.drop_succ_cons, List.drop_zero, taken,
    dropped, isEmpty, Bool.false_eq_true, if_false]

theorem literalParts_text (literal : Literal)
    : Token.literalParts literal.text = (literal.base.radix, literal.digits, literal.suffix) := by
  obtain ⟨base, digits, suffix, number, spells, leads, fits, suffixed⟩ := literal
  obtain ⟨first, rest, rfl⟩ := List.exists_cons_of_ne_nil spells.nonempty
  cases base with
  | decimal =>
      have all : ∀ c ∈ first :: rest, c.isDigit = true := fun c member =>
        isDigit_of_digitValue (spells.fits c member)
      have lone (zero : first = '0') : rest = [] := by
        rw [zero] at leads
        exact (List.cons.inj (leads rfl rfl)).2
      have noHex : Token.isHex (first :: rest ++ suffix) = false := by
        refine isHex_cons_eq_false fun zero d head => ?_
        rw [lone zero] at head
        have letter := suffixed d (List.mem_of_head? head)
        constructor <;> rintro rfl <;> simp at letter
      refine literalParts_decimal noHex all (fun c later shape => ?_) suffixed
      obtain ⟨zero, more⟩ := List.cons.inj shape
      rw [lone zero] at more
      cases more
  | octal =>
      have fits : ∀ c ∈ first :: rest, Text.digitValue c < 8 := spells.fits
      have all : ∀ c ∈ '0' :: first :: rest, c.isDigit = true := by
        intro c member
        rcases List.mem_cons.mp member with rfl | inside
        · decide
        · exact isDigit_of_digitValue (Nat.lt_trans (fits c inside) (by decide))
      have noHex : Token.isHex ('0' :: first :: rest ++ suffix) = false := by
        refine isHex_cons_eq_false fun _ d head => ?_
        cases head
        have octal := fits first List.mem_cons_self
        constructor <;> rintro rfl <;> exact absurd octal (by decide)
      exact literalParts_octal noHex all suffixed
  | hexadecimal isCapital =>
      refine literalParts_hexadecimal ?_ spells.nonempty spells.fits suffixed
      cases isCapital <;> simp

/-- What a literal is read as, from its parts. -/
theorem literal?_eq_some_iff {text : List Char} {token : Token}
    : Token.literal? text = some token
      ↔ ∃ base digits suffix n,
          Token.literalParts text = (base, digits, suffix)
          ∧ (∀ c ∈ suffix, c ∈ ['u', 'U', 'l', 'L'])
          ∧ Text.numeral? base digits = some n
          ∧ n < 0x10000000000000000
          ∧ token
            = .number (BitVec.ofNat 64 n)
                (2 ≤ suffix.countP (fun c => c == 'l' || c == 'L') || 0x100000000 ≤ n) := by
  unfold Token.literal?
  obtain ⟨base, digits, suffix⟩ := Token.literalParts text
  have suffixed : suffix.all Token.isSuffixChar = true ↔ ∀ c ∈ suffix, c ∈ ['u', 'U', 'l', 'L'] := by
    simp [Token.isSuffixChar, or_assoc]
  constructor
  · intro found
    dsimp only at found
    split at found
    · cases found
    · rename_i proper
      obtain ⟨n, spells, found⟩ := Option.bind_eq_some_iff.mp found
      split at found
      · rename_i fits
        cases found
        refine ⟨base, digits, suffix, n, rfl, ?_, spells, fits, rfl⟩
        exact suffixed.mp (by simpa using proper)
      · cases found
  · rintro ⟨_, _, _, n, same, letters, spells, fits, rfl⟩
    cases same
    simp only [suffixed.mpr letters, spells, Bool.not_true, Bool.false_eq_true, if_false,
      Option.bind_eq_bind, Option.bind_some, if_pos fits]

theorem token_eq (literal : Literal)
    : literal.token
      = .number (BitVec.ofNat 64 literal.number)
          (2 ≤ literal.suffix.countP (fun c => c == 'l' || c == 'L')
            || 0x100000000 ≤ literal.number) := by
  rw [token, Bool.or_comm, ← Bool.decide_or]
  rfl

theorem literal?_text (literal : Literal)
    : Token.literal? literal.text = some literal.token :=
  literal?_eq_some_iff.mpr ⟨_, _, _, _, literalParts_text literal, literal.suffixed,
    literal.spells.numeral?, literal.fits, literal.token_eq⟩

/-- The literal of given parts, if they are read as a number. -/
theorem exists_of_parts (base : Base) {digits suffix : List Char} {n : Nat}
    (leads : base = .decimal → digits.head? = some '0' → digits = ['0'])
    (suffixed : ∀ c ∈ suffix, c ∈ ['u', 'U', 'l', 'L'])
    (found : Text.numeral? base.radix digits = some n) (fits : n < 0x10000000000000000)
    : ∃ literal : Literal,
        literal.text = base.mark ++ digits ++ suffix
        ∧ literal.token
          = .number (BitVec.ofNat 64 n)
              (2 ≤ suffix.countP (fun c => c == 'l' || c == 'L') || 0x100000000 ≤ n) :=
  ⟨{ base, digits, suffix, number := n, spells := spells_of_numeral? found, leads, fits, suffixed },
    rfl, token_eq _⟩

theorem exists_mark_of_isHex {text : List Char} (isHex : Token.isHex text = true)
    : ∃ isCapital rest, text = (Base.hexadecimal isCapital).mark ++ rest := by
  unfold Token.isHex at isHex
  split at isHex
  · rename_i c rest
    rcases (Bool.or_eq_true _ _).mp isHex with small | capital
    · exact ⟨false, rest, by simp [Base.mark, beq_iff_eq.mp small]⟩
    · exact ⟨true, rest, by simp [Base.mark, beq_iff_eq.mp capital]⟩
  · cases isHex

/-- The parts of a text with an `x` are those of a hexadecimal literal, if they are read. -/
theorem exists_of_isHex {isCapital : Bool} {rest digits suffix : List Char} {radix n : Nat}
    (parts
      : Token.literalParts ((Base.hexadecimal isCapital).mark ++ rest) = (radix, digits, suffix))
    (spells : Text.numeral? radix digits = some n)
    : radix = 16 ∧ rest = digits ++ suffix := by
  have isHex : Token.isHex ((Base.hexadecimal isCapital).mark ++ rest) = true := by
    cases isCapital <;> rfl
  simp only [Token.literalParts, isHex, if_true] at parts
  split at parts
  · obtain ⟨rfl, rfl, rfl⟩ := parts
    have unread : Text.numeral? 8 [if isCapital then 'X' else 'x'] = none := by
      cases isCapital <;> decide
    exact absurd (spells.symm.trans unread) (by simp)
  · obtain ⟨rfl, rfl, rfl⟩ := parts
    exact ⟨rfl, List.takeWhile_append_dropWhile.symm⟩

/-- The parts of a text without an `x` are those of a decimal or of an octal literal. -/
theorem exists_of_not_isHex {text digits suffix : List Char} {radix : Nat}
    (noHex : Token.isHex text = false)
    (parts : Token.literalParts text = (radix, digits, suffix))
    : ∃ base : Base,
        base.radix = radix
        ∧ text = base.mark ++ digits ++ suffix
        ∧ (base = .decimal → digits.head? = some '0' → digits = ['0']) := by
  simp only [Token.literalParts, noHex, Bool.false_eq_true, if_false] at parts
  have whole := List.takeWhile_append_dropWhile (p := Char.isDigit) (l := text)
  split at parts
  · rename_i c rest taken
    obtain ⟨rfl, rfl, rfl⟩ := parts
    rw [taken] at whole
    exact ⟨.octal, rfl, whole.symm, fun decimal => by cases decimal⟩
  · rename_i lone
    obtain ⟨rfl, rfl, rfl⟩ := parts
    refine ⟨.decimal, rfl, whole.symm, fun _ zero => ?_⟩
    cases taken : text.takeWhile Char.isDigit with
    | nil => simp [taken] at zero
    | cons first later =>
        rw [taken] at lone zero
        cases zero
        cases later with
        | nil => rfl
        | cons second later => exact absurd rfl (lone second later)

/-- Whatever is read as a literal is one. -/
theorem exists_of_literal? {text : List Char} {token : Token}
    (found : Token.literal? text = some token)
    : ∃ literal : Literal, literal.text = text ∧ literal.token = token := by
  obtain ⟨radix, digits, suffix, n, parts, suffixed, spells, fits, rfl⟩ :=
    literal?_eq_some_iff.mp found
  by_cases isHex : Token.isHex text = true
  · obtain ⟨isCapital, rest, rfl⟩ := exists_mark_of_isHex isHex
    obtain ⟨rfl, rfl⟩ := exists_of_isHex parts spells
    obtain ⟨literal, same, token⟩ := exists_of_parts (.hexadecimal isCapital)
      (fun decimal => by cases decimal) suffixed spells fits
    exact ⟨literal, by simpa using same, token⟩
  · obtain ⟨base, rfl, rfl, leads⟩ := exists_of_not_isHex (by simpa using isHex) parts
    exact exists_of_parts base leads suffixed spells fits

/-- A literal is one run of digits and letters that starts with a digit. -/
theorem exists_text_eq (literal : Literal)
    : ∃ first rest,
        literal.text = first :: rest
        ∧ first.isDigit = true
        ∧ ∀ c ∈ rest, c.isAlphanum = true := by
  obtain ⟨base, digits, suffix, number, spells, leads, fits, suffixed⟩ := literal
  obtain ⟨first, rest, rfl⟩ := List.exists_cons_of_ne_nil spells.nonempty
  have letters : ∀ c ∈ suffix, c.isAlphanum = true := by
    intro c member
    have letter := suffixed c member
    simp only [List.mem_cons, List.not_mem_nil, or_false] at letter
    rcases letter with rfl | rfl | rfl | rfl <;> decide
  have inner : ∀ c ∈ first :: rest ++ suffix, c.isAlphanum = true := by
    intro c member
    rcases List.mem_append.mp member with digit | letter
    · have fits := spells.fits c digit
      refine isAlphanum_of_digitValue (Nat.lt_of_lt_of_le fits ?_)
      cases base <;> simp [Base.radix]
    · exact letters c letter
  cases base with
  | decimal =>
      exact ⟨first, rest ++ suffix, rfl,
        isDigit_of_digitValue (spells.fits first List.mem_cons_self),
        fun c member => inner c (List.mem_cons_of_mem _ member)⟩
  | octal => exact ⟨'0', first :: rest ++ suffix, rfl, by decide, inner⟩
  | hexadecimal isCapital =>
      refine ⟨'0', _ :: (first :: rest ++ suffix), rfl, by decide, ?_⟩
      exact List.forall_mem_cons.mpr ⟨by cases isCapital <;> decide, inner⟩

end Literal

-----------------------------------------------------------------------------------------
-- Words
-----------------------------------------------------------------------------------------

theorem not_isGap_of_isDigit {c : Char} (digit : c.isDigit = true) : Token.isGap c = false := by
  by_contra gap
  simp only [Token.isGap, Bool.not_eq_false, Bool.or_eq_true, beq_iff_eq] at gap
  rcases gap with (((rfl | rfl) | rfl) | rfl) | rfl <;> exact absurd digit (by decide)

theorem not_isGap_of_isNameStart {c : Char} (starts : Text.isNameStart c = true)
    : Token.isGap c = false := by
  by_contra gap
  simp only [Token.isGap, Bool.not_eq_false, Bool.or_eq_true, beq_iff_eq] at gap
  rcases gap with (((rfl | rfl) | rfl) | rfl) | rfl <;> exact absurd starts (by decide)

theorem not_isDigit_of_isNameStart {c : Char} (starts : Text.isNameStart c = true)
    : ¬c.isDigit = true := by
  intro digit
  simp only [Char.isDigit, Bool.and_eq_true, decide_eq_true_eq] at digit
  have above : 48 ≤ c.toNat := digit.1
  have below : c.toNat ≤ 57 := digit.2
  rcases Bool.or_eq_true_iff.mp starts with letter | underscore
  · rcases Bool.or_eq_true_iff.mp letter with capital | small
    · have least : 65 ≤ c.toNat := (of_decide_eq_true capital).1
      omega
    · have least : 97 ≤ c.toNat := of_decide_eq_true (Bool.and_eq_true_iff.mp small).1
      omega
  · obtain rfl : c = '_' := eq_of_beq underscore
    exact absurd below (by decide)

theorem Literal.tokens?_text (literal : Literal)
    : Token.tokens? literal.text = some [literal.token] := by
  have found := literal.literal?_text
  obtain ⟨first, rest, shape, digit, inner⟩ := literal.exists_text_eq
  rw [shape] at found ⊢
  rw [Token.tokens?, if_neg (by simp [not_isGap_of_isDigit digit]), if_pos digit,
    List.takeWhile_eq_self_iff.mpr inner, List.dropWhile_eq_nil_iff.mpr inner, found, Token.tokens?]
  rfl

theorem Identifier.tokens?_text (identifier : Identifier)
    : Token.tokens? identifier.text = some [.name identifier.name] := by
  obtain ⟨first, rest, starts, goesOn⟩ := identifier
  rw [text, Token.tokens?, if_neg (by simp [not_isGap_of_isNameStart starts]),
    if_neg (not_isDigit_of_isNameStart starts), if_pos starts,
    List.takeWhile_eq_self_iff.mpr goesOn, List.dropWhile_eq_nil_iff.mpr goesOn, Token.tokens?]
  rfl

/-- Every word is read as its token. -/
theorem Lexeme.tokens?_text (lexeme : Lexeme)
    : Token.tokens? lexeme.text = some [lexeme.token] := by
  cases lexeme with
  | literal numeral => exact numeral.tokens?_text
  | name identifier => exact identifier.tokens?_text
  | sign op => cases op <;> decide +kernel
  | operator op => cases op <;> decide +kernel
  | opening => decide +kernel
  | closing => decide +kernel

/-- The sign that a text starts with is a word or a comma. -/
theorem exists_lexeme_of_sign? {text later : List Char} {token : Token}
    (found : Token.sign? text = some (token, later))
    : token = .comma ∨ ∃ lexeme : Lexeme, lexeme.token = token := by
  cases token with
  | comma => exact .inl rfl
  | op op => exact .inr ⟨.operator op, rfl⟩
  | tilde => exact .inr ⟨.sign .complement, rfl⟩
  | opening => exact .inr ⟨.opening, rfl⟩
  | closing => exact .inr ⟨.closing, rfl⟩
  | number bits long =>
      unfold Token.sign? at found
      split at found <;> cases found
  | name name =>
      unfold Token.sign? at found
      split at found <;> cases found

/-- Every token but a comma is that of a word. By induction on how a text is read. -/
theorem exists_lexeme_of_tokens? {text : List Char} {tokens : List Token}
    (found : Token.tokens? text = some tokens)
    : ∀ token ∈ tokens, token = .comma ∨ ∃ lexeme : Lexeme, lexeme.token = token := by
  fun_induction Token.tokens? text generalizing tokens with
  | case1 =>
      cases found
      exact List.forall_mem_nil _
  | case2 c rest gap ih => exact ih found
  | case3 c rest noGap digit ih =>
      obtain ⟨first, literal, found⟩ := Option.bind_eq_some_iff.mp found
      obtain ⟨later, others, same⟩ := Option.bind_eq_some_iff.mp found
      cases same
      obtain ⟨numeral, -, read⟩ := Literal.exists_of_literal? literal
      exact List.forall_mem_cons.mpr ⟨.inr ⟨.literal numeral, read⟩, ih others⟩
  | case4 c rest noGap noDigit name ih =>
      obtain ⟨later, others, same⟩ := Option.bind_eq_some_iff.mp found
      cases same
      let identifier : Identifier := {
        first := c
        rest := rest.takeWhile Token.isNameChar
        starts := name
        goesOn := fun d member => List.mem_takeWhile_imp member
      }
      exact List.forall_mem_cons.mpr ⟨.inr ⟨.name identifier, rfl⟩, ih others⟩
  | case5 c rest noGap noDigit noName token later sign ih =>
      obtain ⟨others, read, same⟩ := Option.map_eq_some_iff.mp found
      cases same
      exact List.forall_mem_cons.mpr ⟨exists_lexeme_of_sign? sign, ih read⟩
  | case6 => cases found

end ApiBindings.Constant
