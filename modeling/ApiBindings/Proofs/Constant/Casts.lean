import ApiBindings.Proofs.Constant.Calls

/-! Casts, and calls of the macro that stands for them.
A cast has the value of its operand. A call of the cast macro does so only for types of one word:
an argument of several tokens is put in parentheses, and a type in parentheses is no expression.
-/

namespace ApiBindings.Constant

open Token (opening closing)

/-- The name of a type: words, with stars behind them. -/
structure TypeName where
  first : String
  others : List String := []
  stars : Nat := 0

namespace TypeName

def words (type : TypeName) : List String :=
  type.first :: type.others

def tokens (type : TypeName) : List Token :=
  type.words.map .name ++ List.replicate type.stars (.op .mul)

/-- A type is named by one word. -/
def IsWord (type : TypeName) : Prop :=
  type.others = [] ∧ type.stars = 0

instance (type : TypeName) : Decidable type.IsWord :=
  inferInstanceAs (Decidable (_ ∧ _))

end TypeName

/-- The text of a cast. -/
def castText (type operand : List Char) : List Char :=
  '(' :: type ++ [')', '('] ++ operand ++ [')']

def castName : Identifier where
  first := 'E'
  rest := "GL_CAST".toList
  starts := rfl
  goesOn := by decide

theorem castName_name : castName.name = "EGL_CAST" := by
  decide

theorem tokens?_castText {type operand : List Char} {types tokens : List Token}
    (isType : Token.tokens? type = some types) (isOperand : Token.tokens? operand = some tokens)
    : Token.tokens? (castText type operand)
      = some (opening :: types ++ closing :: opening :: tokens ++ [closing]) := by
  have closing : Token.tokens? [')'] = some [closing] := by
    rw [tokens?_cons_of_sign? rfl rfl rfl rfl, Token.tokens?]
    rfl
  have shape
      : castText type operand = '(' :: (type ++ ')' :: ('(' :: (operand ++ [')']))) := by
    simp [castText]
  rw [shape, tokens?_cons_of_sign? rfl rfl rfl rfl, Token.tokens?_append (endsToken_closing _),
    isType, tokens?_cons_of_sign? rfl rfl rfl rfl, tokens?_cons_of_sign? rfl rfl rfl rfl,
    Token.tokens?_append (endsToken_closing _), isOperand, closing]
  simp

namespace Reader

variable {scope : Scope} {expand : List Token → Option Expr} {type : TypeName}
  {tokens rest : List Token} {expr : Expr}

-----------------------------------------------------------------------------------------
-- Types
-----------------------------------------------------------------------------------------

/-- The words of a type stand for nothing else. -/
def IsFree (scope : Scope) (type : TypeName) : Prop :=
  ∀ word ∈ type.words, scope.knows word = false

instance (scope : Scope) (type : TypeName) : Decidable (IsFree scope type) :=
  inferInstanceAs (Decidable (∀ word ∈ type.words, _))

theorem IsFree.isTypeToken (free : IsFree scope type)
    : ∀ token ∈ type.tokens, isTypeToken scope token = true := by
  intro token member
  rcases List.mem_append.mp member with word | star
  · obtain ⟨name, inside, rfl⟩ := List.mem_map.mp word
    simp [Reader.isTypeToken, free name inside]
  · rw [List.eq_of_mem_replicate star]
    rfl

theorem any_isName_tokens (type : TypeName) : type.tokens.any isName = true := by
  simp [TypeName.tokens, TypeName.words, isName]

theorem tokens_ne_nil (type : TypeName) : type.tokens ≠ [] := by
  simp [TypeName.tokens, TypeName.words]

/-- A type of one word is put into a macro as it is. -/
theorem wrapped_of_isWord (isWord : type.IsWord) : wrapped type.tokens = type.tokens := by
  simp [TypeName.tokens, TypeName.words, isWord.1, isWord.2, wrapped]

theorem wrapped_of_not_isWord (several : ¬type.IsWord)
    : wrapped type.tokens = opening :: type.tokens ++ [closing] := by
  refine wrapped_of_two_le ?_
  obtain ⟨first, others, stars⟩ := type
  cases others with
  | nil =>
      cases stars with
      | zero => exact absurd ⟨rfl, rfl⟩ several
      | succ stars => simp [TypeName.tokens, TypeName.words]
  | cons second others => simp [TypeName.tokens, TypeName.words]

-----------------------------------------------------------------------------------------
-- Reading casts
-----------------------------------------------------------------------------------------

/-- A cast of an expression in parentheses is read as the expression. -/
theorem Reads.castOf (free : IsFree scope type)
    (reads : Reads scope expand (.expr 0) tokens expr []) (rest : List Token)
    : Reads scope expand .operand
        (opening :: type.tokens ++ closing :: opening :: tokens ++ closing :: rest) expr rest := by
  have casts
      : afterCast? scope (type.tokens ++ closing :: opening :: tokens ++ closing :: rest)
        = some (opening :: (tokens ++ closing :: rest)) :=
    afterCast?_eq_some_iff.mpr
      ⟨type.tokens, opening, tokens ++ closing :: rest, by simp, free.isTypeToken,
        any_isName_tokens type, rfl, rfl⟩
  have inner := reads.append_closing rest
  exact .cast casts (.grouped (reads.afterCast?_append_eq_none _) inner)

/-- What is in parentheses that are no cast is an expression. -/
theorem Reads.inside {least : Nat} (plain : afterCast? scope tokens = none)
    (reads : Reads scope expand (.expr least) (opening :: tokens) expr rest)
    : ∃ inner behind, Reads scope expand (.expr 0) tokens inner behind := by
  cases reads with
  | expr first more =>
      cases first with
      | cast casts =>
          rw [plain] at casts
          cases casts
      | grouped _ inner => exact ⟨_, _, inner⟩

/-- A type in parentheses that closing ones follow is neither a cast nor an expression. -/
theorem not_reads_groupedType (free : IsFree scope type) {least : Nat}
    : ¬Reads scope expand (.expr least)
        (opening :: (type.tokens ++ closing :: closing :: tokens)) expr rest := by
  intro reads
  have areTypes := free.isTypeToken
  obtain ⟨first, others, shape⟩ := List.exists_cons_of_ne_nil (tokens_ne_nil type)
  have behind
      : (type.tokens ++ closing :: closing :: tokens).dropWhile (isTypeToken scope)
        = closing :: closing :: tokens := by
    rw [List.dropWhile_append_of_pos areTypes]
    rfl
  have plain : afterCast? scope (type.tokens ++ closing :: closing :: tokens) = none := by
    have noOperand : startsOperand closing = false := rfl
    unfold afterCast?
    rw [behind]
    dsimp only
    rw [noOperand, Bool.and_false]
    rfl
  obtain ⟨inner, behind, reads⟩ := reads.inside plain
  obtain ⟨head, later, same, noType⟩ := reads.exists_head
  rw [shape] at areTypes same
  cases same
  rw [areTypes first List.mem_cons_self] at noType
  cases noType

/-- What the cast macro stands for. -/
theorem expansion?_castMacro (types operand : List Token)
    : expansion? Scope.castMacro [types, operand]
      = some
        (opening :: opening :: wrapped types ++ closing :: opening :: wrapped operand
          ++ [closing, closing]) := by
  have value : [("type", types), ("value", operand)].lookup "value" = some operand := rfl
  simp [expansion?, Scope.castMacro, substitute, value]

/-- The expansion of the cast macro is read as its second argument if the first one is a type of one
word.
-/
theorem reads_expansion (free : IsFree scope type) (isWord : type.IsWord)
    (reads : Reads scope expand (.expr 0) tokens expr [])
    : Reads scope expand (.expr 0)
        (opening :: opening :: wrapped type.tokens ++ closing :: opening :: wrapped tokens
          ++ [closing, closing])
        expr [] := by
  have operand : Reads scope expand (.expr 0) (wrapped tokens) expr [] := by
    have whole := reads.wrapped []
    rw [List.append_nil] at whole
    exact .expr whole (.stop rfl)
  have cast := operand.castOf free [closing]
  have inner
      : Reads scope expand (.expr 0)
          (opening :: type.tokens ++ closing :: opening :: wrapped tokens
            ++ [closing, closing])
          expr [closing] :=
    .expr cast (.stop rfl)
  rw [wrapped_of_isWord isWord]
  exact .expr (.grouped (afterCast?_cons_eq_none rfl _) inner) (.stop rfl)

/-- The expansion of the cast macro is no expression if the first argument is another type. -/
theorem not_reads_expansion (free : IsFree scope type) (several : ¬type.IsWord)
    {operand : List Token}
    : ¬Reads scope expand (.expr 0)
        (opening :: opening :: wrapped type.tokens ++ closing :: opening :: operand
          ++ [closing, closing])
        expr [] := by
  intro reads
  have shape
      : opening :: opening :: wrapped type.tokens ++ closing :: opening :: operand
          ++ [closing, closing]
        = opening :: opening :: opening
          :: (type.tokens ++ closing :: closing
            :: (opening :: operand ++ [closing, closing])) := by
    simp [wrapped_of_not_isWord several]
  rw [shape] at reads
  obtain ⟨_, _, reads⟩ := reads.inside (afterCast?_cons_eq_none rfl _)
  obtain ⟨_, _, reads⟩ := reads.inside (afterCast?_cons_eq_none rfl _)
  exact not_reads_groupedType free reads

end Reader

-----------------------------------------------------------------------------------------
-- Evaluating casts
-----------------------------------------------------------------------------------------

open Reader

namespace Scope

variable {scope : Scope} {type : TypeName} {text operand : List Char} {value : Value}

/-- What a text has a value by, where expansions may be nested `budget` times. -/
theorem evalWithin?_eq_some_iff {budget : Nat}
    : scope.evalWithin? budget operand = some value
      ↔ ∃ tokens expr,
          Token.tokens? operand = some tokens
          ∧ Reads scope (expandWithin scope budget) (.expr 0) tokens expr []
          ∧ expr.value? = some value := by
  simp only [evalWithin?, Option.bind_eq_bind, Option.bind_eq_some_iff, readNested?_eq,
    readAll?_eq_some_iff]
  constructor
  · rintro ⟨tokens, split, expr, reads, valued⟩
    exact ⟨tokens, expr, split, reads, valued⟩
  · rintro ⟨tokens, expr, split, reads, valued⟩
    exact ⟨tokens, split, expr, reads, valued⟩

/-- A text that has a value may be nested deeper. -/
theorem eval?_of_evalWithin? {budget : Nat} (le : budget ≤ maxNesting)
    (evaluated : scope.evalWithin? budget operand = some value)
    : scope.eval? operand = some value := by
  obtain ⟨tokens, expr, split, reads, valued⟩ := evalWithin?_eq_some_iff.mp evaluated
  exact evalWithin?_eq_some_iff.mpr
    ⟨tokens, expr, split, reads.mono fun _ _ => expandWithin_mono le, valued⟩

theorem eval?_castText (spelled : Token.tokens? text = some type.tokens)
    (free : IsFree scope type) (evaluated : scope.eval? operand = some value)
    : scope.eval? (castText text operand) = some value := by
  obtain ⟨tokens, expr, split, reads, valued⟩ :=
    evalWithin?_eq_some_iff.mp (show scope.evalWithin? maxNesting operand = some value from evaluated)
  refine evalWithin?_eq_some_iff.mpr ⟨_, expr, tokens?_castText spelled split, ?_, valued⟩
  exact .expr (reads.castOf free []) (.stop rfl)

/-- A call of the cast macro is read as its expansion. -/
theorem eval?_castCall_eq (builtIn : scope.macro? "EGL_CAST" = some castMacro)
    (visible : scope.constant? "EGL_CAST" = none)
    (spelled : Token.tokens? text = some type.tokens) (free : IsFree scope type)
    {tokens : List Token} {expr : Expr} (split : Token.tokens? operand = some tokens)
    (reads : Reads scope (expandWithin scope 31) (.expr 0) tokens expr [])
    : scope.eval? (callText castName.text [text, operand])
      = (readNested? scope 31
          (opening :: opening :: wrapped type.tokens ++ closing :: opening :: wrapped tokens
            ++ [closing, closing])).bind Expr.value? := by
  have read
      : List.Forall₂ (fun arg tokens => Token.tokens? arg = some tokens) [text, operand]
          [type.tokens, tokens] :=
    .cons spelled (.cons split .nil)
  have balanced : IsBalanced tokens := by
    obtain ⟨front, shape, balanced⟩ := reads.exists_isBalanced
    rwa [shape, List.append_nil]
  obtain ⟨head, later, shape, -⟩ := reads.exists_head
  have expressions : ∀ part ∈ [type.tokens, tokens], part ≠ [] ∧ IsBalanced part := by
    rintro part member
    simp only [List.mem_cons, List.not_mem_nil, or_false] at member
    rcases member with rfl | rfl
    · exact ⟨tokens_ne_nil type, isBalanced_of_isTypeToken free.isTypeToken⟩
    · exact ⟨by simp [shape], balanced⟩
  have arguments := arguments?_intercalate expressions
  rw [eval?, tokens?_callText castName read, castName_name, Option.bind_eq_bind, Option.bind_some,
    show maxNesting = 31 + 1 from rfl,
    readNested?_call visible builtIn arguments (expansion?_castMacro type.tokens tokens) 31]
  rfl

/-- A cast has the value of its operand, and a call of the cast macro does so exactly if the macro
is not hidden by a constant and the type is one word. The operand must leave one of the nested
expansions to the macro.
-/
theorem eval?_castCall_eq_iff (builtIn : scope.macro? "EGL_CAST" = some castMacro)
    (spelled : Token.tokens? text = some type.tokens)
    (free : ∀ word ∈ type.words, scope.knows word = false)
    (evaluated : scope.evalWithin? (maxNesting - 1) operand = some value)
    : scope.eval? operand = some value
      ∧ scope.eval? (castText text operand) = some value
      ∧ (scope.eval? (callText castName.text [text, operand])
            = scope.eval? (castText text operand)
          ↔ scope.constant? "EGL_CAST" = none ∧ type.IsWord) := by
  have whole := eval?_of_evalWithin? (by decide) evaluated
  have cast := eval?_castText spelled free whole
  obtain ⟨tokens, expr, split, reads, valued⟩ := evalWithin?_eq_some_iff.mp evaluated
  refine ⟨whole, cast, ?_⟩
  rw [cast]
  cases visible : scope.constant? "EGL_CAST" with
  | some hider =>
      have read
          : List.Forall₂ (fun arg tokens => Token.tokens? arg = some tokens) [text, operand]
              [type.tokens, tokens] :=
        .cons spelled (.cons split .nil)
      have hidden : scope.constant? castName.name = some hider := by rw [castName_name, visible]
      have unread : scope.eval? (callText castName.text [text, operand]) = none :=
        evalWithin?_callText_of_constant hidden read maxNesting
      simp [unread]
  | none =>
      rw [eval?_castCall_eq builtIn visible spelled free split reads, readNested?_eq]
      constructor
      · intro same
        refine ⟨rfl, ?_⟩
        by_contra several
        obtain ⟨inner, read, -⟩ := Option.bind_eq_some_iff.mp same
        exact not_reads_expansion free several (readAll?_eq_some_iff.mp read)
      · rintro ⟨-, isWord⟩
        exact Option.bind_eq_some_iff.mpr
          ⟨expr, readAll?_eq_some_iff.mpr (reads_expansion free isWord reads), valued⟩

theorem initial_eval?_castCall
    : initial.eval? "-1".toList = some { bits := -1, width := .narrow }
      ∧ initial.eval? (castText "EGLint".toList "-1".toList)
        = some { bits := -1, width := .narrow }
      ∧ (initial.eval? (callText castName.text ["EGLint".toList, "-1".toList])
            = initial.eval? (castText "EGLint".toList "-1".toList)
          ↔ initial.constant? "EGL_CAST" = none ∧ TypeName.IsWord { first := "EGLint" }) :=
  eval?_castCall_eq_iff rfl (by decide +kernel) (by decide) (by decide +kernel)

/-- A type of two words can be cast to, but not by the macro. -/
theorem unsignedInt_not_castCall
    : initial.eval? (castText "unsigned int".toList "1".toList)
        = some { bits := 1, width := .narrow }
      ∧ initial.eval? "EGL_CAST(unsigned int, 1)".toList = none := by
  constructor <;> decide +kernel

end Scope

end ApiBindings.Constant
