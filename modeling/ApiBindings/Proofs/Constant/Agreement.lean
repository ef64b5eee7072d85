import ApiBindings.Proofs.Constant.Lexemes
import ApiBindings.Proofs.Constant.Reading
import ApiBindings.Proofs.Constant.Tokens
import ApiBindings.Proofs.Text.Spacing

/-! Scopes that agree on all expressions.
The parameters of a macro are any texts, but only names are ever replaced by arguments. So scopes
agree when they have the same constants and their macros expand to the same tokens, even if
parameters that are no names are spelled differently.
-/

namespace ApiBindings.Constant

open Text (isBlank)

-----------------------------------------------------------------------------------------
-- Tokens in gaps of any width
-----------------------------------------------------------------------------------------

namespace Token

variable {text : List Char}

theorem not_isNameChar_of_isBlank {c : Char} (blank : isBlank c = true) : isNameChar c = false := by
  have apart : ∀ code ∈ Text.blankCodes, isNameChar (Char.ofNat code) = false := by decide +kernel
  simpa using apart c.toNat (Text.toNat_mem_blankCodes blank)

/-- No blank belongs to a sign. -/
theorem exists_append_of_sign? {rest later : List Char} {token : Token}
    (sign : sign? rest = some (token, later))
    : ∃ front, rest = front ++ later ∧ ∀ c ∈ front, isBlank c = false := by
  unfold sign? at sign
  split at sign <;> cases sign
  all_goals first | exact ⟨[_, _], rfl, by decide⟩ | exact ⟨[_], rfl, by decide⟩

/-- A blank is behind all characters of the name or number that a text starts with. -/
theorem mem_dropWhile {first c : Char} {rest : List Char} {part : Char → Bool}
    (member : c ∈ first :: rest) (blank : isBlank c = true) (starts : isNameChar first = true)
    (solid : ∀ d, part d = true → isNameChar d = true)
    : c ∈ rest.dropWhile part := by
  have noName := not_isNameChar_of_isBlank blank
  have behind : c ∈ rest := (List.mem_cons.mp member).resolve_left fun same => by
    rw [same, starts] at noName
    cases noName
  rw [← List.takeWhile_append_dropWhile (p := part) (l := rest)] at behind
  rcases List.mem_append.mp behind with inside | behind
  · rw [solid c (List.mem_takeWhile_imp inside)] at noName
    cases noName
  · exact behind

/-- A text with a blank that is no gap is no expression. By induction on how a text is read. -/
theorem tokens?_eq_none {c : Char} (member : c ∈ text) (blank : isBlank c = true)
    (solid : isGap c = false)
    : tokens? text = none := by
  fun_induction tokens? text with
  | case1 => cases member
  | case2 d rest gap ih =>
      refine ih ((List.mem_cons.mp member).resolve_left ?_)
      rintro rfl
      cases gap.symm.trans solid
  | case3 d rest noGap digit ih =>
      have starts := isNameChar_of_isAlphanum d (by simp [Char.isAlphanum, digit])
      have behind := mem_dropWhile member blank starts isNameChar_of_isAlphanum
      rw [ih behind]
      cases literal? _ <;> rfl
  | case4 d rest noGap noDigit name ih =>
      have starts : isNameChar d = true := by
        rcases Bool.or_eq_true_iff.mp name with letter | underscore
        · simp [isNameChar, Char.isAlphanum, letter]
        · simp [isNameChar, underscore]
      rw [ih (mem_dropWhile member blank starts fun _ => id)]
      rfl
  | case5 d rest noGap noDigit noName token later sign ih =>
      obtain ⟨front, shape, word⟩ := exists_append_of_sign? sign
      rw [shape] at member
      rcases List.mem_append.mp member with inside | behind
      · cases blank.symm.trans (word c inside)
      · rw [ih behind]
        rfl
  | case6 => rfl

/-- One more space in a gap does not change the tokens. -/
theorem tokens?_respaced {spaced : List Char} (respaced : Text.Respaced text spaced)
    : tokens? spaced = tokens? text := by
  obtain ⟨front, back, rfl, rfl, place⟩ := respaced.exists_split
  have space : isGap ' ' = true := by decide
  rcases place with rfl | ⟨c, rest, rfl, blank⟩ | ⟨rest, c, rfl, blank⟩
  · rw [tokens?_eq_pieces, pieces_append_cons space, tokens?_eq_pieces (front ++ [])]
    simp [pieces, Text.cut]
  · by_cases gap : isGap c = true
    · rw [tokens?_eq_pieces, pieces_append_cons space, tokens?_eq_pieces (front ++ c :: rest),
        pieces_append_cons gap, ← List.nil_append (c :: rest), pieces_append_cons gap]
      simp [pieces, Text.cut]
    · rw [tokens?_eq_none (c := c) (by simp) blank (by simpa using gap),
        tokens?_eq_none (c := c) (by simp) blank (by simpa using gap)]
  · by_cases gap : isGap c = true
    · have same (back : List Char) : tokens? (rest ++ [c] ++ back) = tokens? (rest ++ c :: back) := by
        rw [List.append_assoc, List.singleton_append]
      rw [same, same, tokens?_eq_pieces, pieces_append_cons gap, tokens?_eq_pieces (rest ++ c :: back),
        pieces_append_cons gap, ← List.nil_append (' ' :: back), pieces_append_cons space]
      simp [pieces, Text.cut]
    · rw [tokens?_eq_none (c := c) (by simp) blank (by simpa using gap),
        tokens?_eq_none (c := c) (by simp) blank (by simpa using gap)]

theorem tokens?_loosened {spaced : List Char} (loosened : Text.Loosened text spaced)
    : tokens? spaced = tokens? text := by
  rcases loosened with rfl | respaced
  · rfl
  · exact tokens?_respaced respaced

end Token

-----------------------------------------------------------------------------------------
-- Macros
-----------------------------------------------------------------------------------------

/-- Two macros expand to the same tokens, whatever their arguments are. -/
def FunctionMacro.Agrees (called other : FunctionMacro) : Prop :=
  ∀ args, Reader.expansion? other args = Reader.expansion? called args

/-- The same parameter, or two that are no names as they have blanks in them. -/
def SameParam (param other : String) : Prop :=
  param = other
  ∨ (∃ c ∈ param.toList, isBlank c = true) ∧ ∃ c ∈ other.toList, isBlank c = true

theorem sameParam_of_loosened {param other : String}
    (loosened : Text.Loosened param.toList other.toList)
    : SameParam (String.ofList (Text.trim param.toList))
        (String.ofList (Text.trim other.toList)) := by
  rcases loosened.sameLine with same | respaced
  · exact .inl (by rw [same])
  · refine .inr ?_
    simp only [String.toList_ofList]
    exact respaced.exists_blank (Text.trimEnd_trim _)

/-- A name that is no parameter with blanks in it names the same argument. By induction on the
parameters.
-/
theorem lookup_zip_eq {params others : List String} (same : List.Forall₂ SameParam params others)
    {name : String} (solid : ∀ c ∈ name.toList, isBlank c = false) (args : List (List Token))
    : (others.zip args).lookup name = (params.zip args).lookup name := by
  have differs {param : String} (blank : ∃ c ∈ param.toList, isBlank c = true)
      : (name == param) = false := by
    obtain ⟨c, member, blank⟩ := blank
    refine beq_eq_false_iff_ne.mpr ?_
    rintro rfl
    cases blank.symm.trans (solid c member)
  induction same generalizing args with
  | nil => rfl
  | cons first rest ih =>
      cases args with
      | nil => simp
      | cons arg args =>
          rw [List.zip_cons_cons, List.zip_cons_cons, List.lookup_cons, List.lookup_cons, ih]
          rcases first with rfl | ⟨blank, blank'⟩
          · rfl
          · rw [differs blank, differs blank']

/-- The names among tokens that were read have no blanks in them. -/
theorem not_isBlank_of_mem_tokens? {text : List Char} {tokens : List Token} {name : String}
    (found : Token.tokens? text = some tokens) (member : .name name ∈ tokens)
    : ∀ c ∈ name.toList, isBlank c = false := by
  obtain none | ⟨lexeme, same⟩ := exists_lexeme_of_tokens? found _ member
  · cases none
  · cases lexeme with
    | name identifier =>
        obtain rfl := Token.name.inj same
        rw [Identifier.name, String.toList_ofList]
        refine List.forall_mem_cons.mpr
          ⟨Text.not_isBlank_of_isNameStart identifier.starts, fun c inside => ?_⟩
        cases blank : isBlank c with
        | false => rfl
        | true => cases (identifier.goesOn c inside).symm.trans (Token.not_isNameChar_of_isBlank blank)
    | sign op => cases op <;> cases same
    | _ => cases same

theorem agrees_of_params {params others : List String}
    (same : List.Forall₂ SameParam params others) {text : List Char} {body : List Token}
    (found : Token.tokens? text = some body)
    : FunctionMacro.Agrees { params, body } { params := others, body } := by
  intro args
  have each : ∀ token ∈ body, Reader.substitute (others.zip args) token
      = Reader.substitute (params.zip args) token := by
    intro token member
    cases token with
    | name name =>
        have solid := not_isBlank_of_mem_tokens? found member
        rw [Reader.substitute, lookup_zip_eq same solid, Reader.substitute]
    | _ => rfl
  simp only [Reader.expansion?, same.length_eq, List.flatMap_congr each]

-----------------------------------------------------------------------------------------
-- Scopes
-----------------------------------------------------------------------------------------

namespace Scope

/-- Two scopes have the same constants, and macros of the same names that expand alike. -/
structure Agrees (scope other : Scope) : Prop where
  constants : other.constants = scope.constants
  macros : ∀ name, Option.Rel FunctionMacro.Agrees (scope.macro? name) (other.macro? name)

variable {scope other : Scope}

theorem Agrees.refl (scope : Scope) : scope.Agrees scope where
  constants := rfl
  macros name := by
    cases scope.macro? name with
    | none => exact .none
    | some called => exact .some fun _ => rfl

theorem Agrees.symm (agrees : scope.Agrees other) : other.Agrees scope where
  constants := agrees.constants.symm
  macros name := by
    have same := agrees.macros name
    generalize scope.macro? name = one, other.macro? name = two at same
    cases same with
    | none => exact .none
    | some same => exact .some fun args => (same args).symm

theorem Agrees.trans {third : Scope} (first : scope.Agrees other) (second : other.Agrees third)
    : scope.Agrees third where
  constants := second.constants.trans first.constants
  macros name := by
    have first := first.macros name
    have second := second.macros name
    generalize scope.macro? name = one, other.macro? name = two, third.macro? name = three
      at first second
    cases first with
    | none => exact second
    | some first =>
        cases second with
        | some second => exact .some fun args => (second args).trans (first args)

theorem Agrees.constant?_eq (agrees : scope.Agrees other) (name : String)
    : other.constant? name = scope.constant? name := by
  rw [constant?, agrees.constants, constant?]

theorem Agrees.knows_eq (agrees : scope.Agrees other) (name : String)
    : other.knows name = scope.knows name := by
  have same := agrees.macros name
  rw [knows, agrees.constant?_eq, knows]
  generalize scope.macro? name = one, other.macro? name = two at same
  cases same <;> rfl

theorem Agrees.isTypeToken_eq (agrees : scope.Agrees other)
    : Reader.isTypeToken other = Reader.isTypeToken scope := by
  funext token
  cases token <;> simp [Reader.isTypeToken, agrees.knows_eq]

theorem Agrees.afterCast?_eq (agrees : scope.Agrees other) (tokens : List Token)
    : Reader.afterCast? other tokens = Reader.afterCast? scope tokens := by
  rw [Reader.afterCast?, agrees.isTypeToken_eq, Reader.afterCast?]

/-- What is read in a scope is read in one that agrees with it. By induction on the rules. -/
theorem Agrees.reads {expand expand' : List Token → Option Expr} (agrees : scope.Agrees other)
    (same : ∀ tokens expr, expand tokens = some expr → expand' tokens = some expr)
    {phase : Reader.Phase} {tokens rest : List Token} {expr : Expr}
    (reads : Reader.Reads scope expand phase tokens expr rest)
    : Reader.Reads other expand' phase tokens expr rest := by
  induction reads with
  | expr _ _ first more => exact .expr first more
  | stop ends => exact .stop ends
  | operator binds _ _ second more => exact .operator binds second more
  | negate _ operand => exact .negate operand
  | keep _ operand => exact .keep operand
  | complement _ operand => exact .complement operand
  | cast casts _ inner => exact .cast ((agrees.afterCast?_eq _).trans casts) inner
  | grouped plain _ inner => exact .grouped ((agrees.afterCast?_eq _).trans plain) inner
  | number => exact .number
  | constant known => exact .constant ((agrees.constant?_eq _).trans known)
  | @call name called after args expr rest free found split expanded =>
      obtain ⟨body, expansion, read⟩ := Option.bind_eq_some_iff.mp expanded
      have alike := agrees.macros name
      generalize found' : other.macro? name = called' at alike
      rw [found] at alike
      cases alike with
      | some alike =>
          refine .call ((agrees.constant?_eq _).trans free) found' split ?_
          exact Option.bind_eq_some_iff.mpr ⟨body, (alike args).trans expansion, same _ _ read⟩

theorem Agrees.expandWithin (agrees : scope.Agrees other) {budget : Nat} {tokens : List Token}
    {expr : Expr} (read : Reader.expandWithin scope budget tokens = some expr)
    : Reader.expandWithin other budget tokens = some expr := by
  induction budget generalizing tokens expr with
  | zero => cases read
  | succ budget ih =>
      rw [Reader.expandWithin, Reader.readNested?_eq, Reader.readAll?_eq_some_iff] at read ⊢
      exact agrees.reads (fun _ _ => ih) read

theorem Agrees.readNested?_eq (agrees : scope.Agrees other) (budget : Nat) (tokens : List Token)
    : Reader.readNested? other budget tokens = Reader.readNested? scope budget tokens := by
  refine Option.ext fun expr => ⟨fun read => ?_, fun read => ?_⟩
  · have same : Reader.expandWithin scope (budget + 1) tokens = some expr :=
      agrees.symm.expandWithin read
    exact same
  · have same : Reader.expandWithin other (budget + 1) tokens = some expr :=
      agrees.expandWithin read
    exact same

/-- Texts have the same values in scopes that agree. -/
theorem Agrees.eval?_eq (agrees : scope.Agrees other) (text : List Char)
    : other.eval? text = scope.eval? text := by
  simp only [eval?, agrees.readNested?_eq]

theorem eval?_loosened {text spaced : List Char} (loosened : Text.Loosened text spaced)
    : scope.eval? spaced = scope.eval? text := by
  rw [eval?, Token.tokens?_loosened loosened, eval?]

theorem Agrees.define (agrees : scope.Agrees other) (name : String) (value : Value)
    : (scope.define name value).Agrees (other.define name value) where
  constants := congrArg ((name, value) :: ·) agrees.constants
  macros := agrees.macros

/-- Scopes still agree after the definition of a macro whose body has the same tokens and whose
parameters differ in their gaps at most.
-/
theorem Agrees.defineMacro? (agrees : scope.Agrees other) (name : String)
    {params others : List String} {body spaced : List Char}
    (same
      : List.Forall₂ (fun param other => Text.Loosened param.toList other.toList) params others)
    (bodies : Token.tokens? spaced = Token.tokens? body)
    : ((scope.defineMacro? name params body).getD scope).Agrees
        ((other.defineMacro? name others spaced).getD other) := by
  rw [Scope.defineMacro?, Scope.defineMacro?, bodies]
  cases found : Token.tokens? body with
  | none => exact agrees
  | some tokens =>
      refine ⟨agrees.constants, fun looked => ?_⟩
      have params := List.forall₂_map_left_iff.mpr (List.forall₂_map_right_iff.mpr
        (same.imp fun _ _ => sameParam_of_loosened))
      simp only [Option.bind_eq_bind, Option.bind_some, Option.getD_some, macro?, List.lookup_cons]
      split
      · exact .some (agrees_of_params params found)
      · exact agrees.macros looked

end Scope

end ApiBindings.Constant
