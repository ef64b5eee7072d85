import ApiBindings.Markup.Writer
import ApiBindings.Proofs.Markup.Stages

/-! The values of attributes as they are written and read again.
What is escaped in a value comes back as references, which are replaced while they are read. A value
holds no sign that ends it or its tag, but it may hold the beginnings of such signs.
-/

namespace ApiBindings.Markup

-----------------------------------------------------------------------------------------
-- Tokens of a value
-----------------------------------------------------------------------------------------

/-- A character that stands as it is between quotes: no sign that begins or ends anything there. -/
def isQuotable (c : Char) : Bool :=
  c != '<' && c != '>' && c != '"' && c != '\x27'

/-- The token of a character between quotes. -/
def valueToken (c : Char) : Token :=
  if c = '&' then .ampersand
  else if c = '=' then .equals
  else if c = ';' then .semicolon
  else .char c

/-- The characters that are held back between quotes: one that may begin the end of a tag, or those
that may begin the end of character data.
-/
inductive Holds : ScanMode → List Token → Prop where
  | nothing : Holds .plain []
  | slash : Holds .slash [.char '/']
  | bracket : Holds .bracket [.char ']']
  | brackets : Holds .brackets [.char ']', .char ']']

/-- A character is read on its own, or it is held back. -/
theorem cutPlain_eq {c : Char} (quotable : isQuotable c = true)
    : ∃ tokens mode held,
        Scanner.cutPlain false c = { tokens, mode, isTyped := false }
        ∧ Holds mode held
        ∧ tokens ++ held = [valueToken c] := by
  simp only [isQuotable, Bool.and_eq_true, bne_iff_ne] at quotable
  obtain ⟨⟨⟨noStart, noEnd⟩, noQuote⟩, noApostrophe⟩ := quotable
  by_cases slash : c = '/'
  · subst slash
    exact ⟨[], .slash, _, rfl, .slash, rfl⟩
  · by_cases bracket : c = ']'
    · subst bracket
      exact ⟨[], .bracket, _, rfl, .bracket, rfl⟩
    · refine ⟨[valueToken c], .plain, [], ?_, .nothing, rfl⟩
      unfold Scanner.cutPlain valueToken
      rw [if_neg noStart, if_neg slash, if_neg bracket, if_neg noEnd]
      by_cases equals : c = '='
      · subst equals
        rfl
      · rw [if_neg equals, if_neg noQuote, if_neg noApostrophe, if_neg equals]
        split
        · rfl
        · split <;> rfl

/-- What is held back is read before the next character, as far as that one does not hold it back
still.
-/
theorem exists_cut? {mode : ScanMode} {held : List Token} (holds : Holds mode held) {c : Char}
    (quotable : isQuotable c = true)
    : ∃ tokens next behind,
        Scanner.cut? false mode c = some { tokens, mode := next, isTyped := false }
        ∧ Holds next behind
        ∧ tokens ++ behind = held ++ [valueToken c] := by
  obtain ⟨tokens, next, behind, cuts, nextHolds, same⟩ := cutPlain_eq quotable
  have noEnd : c ≠ '>' := by
    rintro rfl
    cases quotable
  cases holds with
  | nothing => exact ⟨tokens, next, behind, congrArg some cuts, nextHolds, same⟩
  | slash =>
      refine ⟨.char '/' :: tokens, next, behind, ?_, nextHolds, by simp [same]⟩
      rw [Scanner.cut?, if_neg noEnd, Scanner.cutHome, if_neg (by decide), cuts]
      rfl
  | bracket =>
      by_cases bracket : c = ']'
      · subst bracket
        exact ⟨[], .brackets, _, rfl, .brackets, rfl⟩
      · refine ⟨.char ']' :: tokens, next, behind, ?_, nextHolds, by simp [same]⟩
        rw [Scanner.cut?, if_neg bracket, cuts]
        rfl
  | brackets =>
      by_cases bracket : c = ']'
      · subst bracket
        exact ⟨[.char ']'], .brackets, _, rfl, .brackets, rfl⟩
      · refine ⟨.char ']' :: .char ']' :: tokens, next, behind, ?_, nextHolds, by simp [same]⟩
        rw [Scanner.cut?, if_neg noEnd, if_neg bracket, cuts]
        rfl

/-- A text between quotes is read character by character, up to the second quote. By induction on
the text, whatever is held back before it.
-/
theorem scan?_quotable {text : List Char} (quotable : ∀ c ∈ text, isQuotable c = true)
    {mode : ScanMode} {held : List Token} (holds : Holds mode held)
    : scan? mode (text ++ ['"']) = some (held ++ text.map valueToken ++ [.quote], .plain) := by
  induction text generalizing mode held with
  | nil => cases holds <;> rfl
  | cons c text ih =>
      obtain ⟨first, others⟩ := List.forall_mem_cons.mp quotable
      obtain ⟨tokens, next, behind, cuts, nextHolds, same⟩ := exists_cut? holds first
      rw [List.cons_append, scan?_cons cuts (ih others nextHolds), List.map_cons]
      rw [List.append_assoc behind, ← List.append_assoc tokens, same]
      simp

/-- Whatever a text is, its escape can stand between quotes. -/
theorem isQuotable_of_mem_escape (c : Char) : ∀ d ∈ escape c, isQuotable d = true := by
  unfold escape
  split
  case h_8 noAmpersand noStart noEnd noQuote noApostrophe _ _ =>
    intro d member
    obtain rfl := List.mem_singleton.mp member
    simp only [isQuotable, Bool.and_eq_true, bne_iff_ne]
    exact ⟨⟨⟨noStart, noEnd⟩, noQuote⟩, noApostrophe⟩
  all_goals decide

-----------------------------------------------------------------------------------------
-- Runs of a value
-----------------------------------------------------------------------------------------

/-- Reads the tokens of a value in a document without entities of its own. -/
def Run.extendAll? (run : Run) (tokens : List Token) : Option Run :=
  tokens.foldlM (fun run token => run.extend? [] false token) run

/-- The escape of a character is read as that character. -/
theorem extendAll?_escape {c : Char} (plain : isPlain false c = true) (chars : List Char)
    : Run.extendAll? { chars } ((escape c).map valueToken) = some { chars := c :: chars } := by
  unfold escape
  split
  case h_8 noAmpersand noStart _ _ _ _ _ =>
    rw [List.map_singleton, valueToken, if_neg noAmpersand]
    split
    · subst_vars
      rfl
    · split
      · subst_vars
        rfl
      · simp [Run.extendAll?, Run.extend?, plain, Run.push]
  all_goals rfl

theorem Run.extendAll?_append {run next : Run} {earlier : List Token}
    (first : run.extendAll? earlier = some next) (later : List Token)
    : run.extendAll? (earlier ++ later) = next.extendAll? later := by
  rw [extendAll?, List.foldlM_append]
  exact congrArg (· >>= _) first

/-- A value is read as it was before it was escaped. By induction on the value. -/
theorem extendAll?_escaped {text : List Char} (plain : ∀ c ∈ text, isPlain false c = true)
    (chars : List Char)
    : Run.extendAll? { chars } ((text.flatMap escape).map valueToken)
      = some { chars := text.reverse ++ chars } := by
  induction text generalizing chars with
  | nil => rfl
  | cons c text ih =>
      obtain ⟨first, others⟩ := List.forall_mem_cons.mp plain
      rw [List.flatMap_cons, List.map_append,
        Run.extendAll?_append (extendAll?_escape first chars), ih others]
      simp

end ApiBindings.Markup
