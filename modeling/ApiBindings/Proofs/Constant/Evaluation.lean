import ApiBindings.Proofs.Constant.Precedence

/-! What the texts of constant expressions are evaluated to.
A text that writes a tree of literals and constants has the value of the tree. A text all of whose
names are those of constants has a value only if it writes a tree.
-/

namespace ApiBindings.Constant

variable {scope : Scope}

-----------------------------------------------------------------------------------------
-- The value of a tree
-----------------------------------------------------------------------------------------

theorem Literal.toInt_ofNat (numeral : Literal)
    : (BitVec.ofNat 64 numeral.number).toInt = wrap numeral.number := by
  rw [BitVec.toInt_ofNat']
  rfl

/-- A tree is evaluated to the pattern of what it stands for. By induction on the tree. -/
theorem Tree.toInt_eval? {tree : Tree} {expr : Expr} (read : tree.expr? scope = some expr)
    : expr.eval?.map BitVec.toInt = tree.denote? scope := by
  induction tree generalizing expr with
  | literal numeral =>
      cases read
      exact congrArg some numeral.toInt_ofNat
  | constant identifier =>
      obtain ⟨value, found, rfl⟩ := Option.map_eq_some_iff.mp read
      simp [Expr.eval?, denote?, found]
  | unary op operand ih =>
      obtain ⟨inside, found, rfl⟩ := Option.map_eq_some_iff.mp read
      rw [denote?, ← ih found, Expr.eval?, Option.map_map, Option.map_map]
      exact Option.map_congr fun bits _ => op.toInt_apply bits
  | binary op left right leftIh rightIh =>
      obtain ⟨first, leftFound, more⟩ := Option.bind_eq_some_iff.mp read
      obtain ⟨second, rightFound, same⟩ := Option.bind_eq_some_iff.mp more
      cases same
      rw [denote?, ← leftIh leftFound, ← rightIh rightFound, Expr.eval?]
      cases first.eval? with
      | none => rfl
      | some a =>
          cases second.eval? with
          | none => rfl
          | some b => exact op.toInt_apply? a b

theorem Tree.isLong_iff {tree : Tree} {expr : Expr} (read : tree.expr? scope = some expr)
    : expr.isLong = true ↔ tree.AsksWide scope := by
  induction tree generalizing expr with
  | literal numeral =>
      cases read
      exact decide_eq_true_iff
  | constant identifier =>
      obtain ⟨value, found, rfl⟩ := Option.map_eq_some_iff.mp read
      simp [Expr.isLong, AsksWide, found]
  | unary op operand ih =>
      obtain ⟨inside, found, rfl⟩ := Option.map_eq_some_iff.mp read
      rw [Expr.isLong, ih found]
      rfl
  | binary op left right leftIh rightIh =>
      obtain ⟨first, leftFound, more⟩ := Option.bind_eq_some_iff.mp read
      obtain ⟨second, rightFound, same⟩ := Option.bind_eq_some_iff.mp more
      cases same
      rw [Expr.isLong, Bool.or_eq_true, leftIh leftFound, rightIh rightFound]
      rfl

/-- A number is not one of 32 bits, be it a signed or an unsigned one. -/
def IsLarge (n : Int) : Prop :=
  n < -0x80000000 ∨ 0xFFFFFFFF < n

theorem isLarge_iff (n : Int) : IsLarge n ↔ ¬Value.isNarrow n = true := by
  simp only [IsLarge, Value.isNarrow, Bool.and_eq_true, decide_eq_true_eq]
  omega

theorem Expr.width_eq_wide_iff {expr : Expr} {value : Value} (found : expr.value? = some value)
    : value.width = .wide ↔ expr.isLong = true ∨ IsLarge value.bits.toInt := by
  obtain ⟨bits, -, rfl⟩ := Option.map_eq_some_iff.mp found
  rw [isLarge_iff]
  unfold Value.ofBits
  by_cases long : expr.isLong = true <;> by_cases narrow : Value.isNarrow bits.toInt = true <;>
    simp [long, narrow]

-----------------------------------------------------------------------------------------
-- Texts
-----------------------------------------------------------------------------------------

/-- A text writes words if they are its pieces between its gaps. -/
def WritesWords (text : List Char) (words : List Lexeme) : Prop :=
  Token.pieces text = words.map Lexeme.text

theorem mapM_tokens?_text (words : List Lexeme)
    : (words.map Lexeme.text).mapM Token.tokens? = some (words.map fun word => [word.token]) := by
  induction words with
  | nil => rfl
  | cons word words ih => simp [word.tokens?_text, ih]

theorem WritesWords.tokens? {text : List Char} {words : List Lexeme}
    (writes : WritesWords text words)
    : Token.tokens? text = some (words.map Lexeme.token) := by
  rw [Token.tokens?_eq_pieces, writes, mapM_tokens?_text, Option.map_some]
  exact congrArg some (by simp [List.flatten_eq_flatMap, List.flatMap_map, ← List.map_eq_flatMap])

/-- What a text that writes a tree of constants is evaluated to. -/
theorem WritesWords.eval? {text : List Char} {words : List Lexeme}
    (writes : WritesWords text words) {tree : Tree} (written : tree.IsWritten 0 words)
    (known : tree.IsKnown scope)
    : ∃ expr, tree.expr? scope = some expr ∧ scope.eval? text = expr.value? := by
  obtain ⟨expr, read⟩ := Tree.exists_expr? known
  refine ⟨expr, read, ?_⟩
  rw [Scope.eval?, writes.tokens?, Reader.readNested?_eq, Option.bind_eq_bind, Option.bind_some,
    written.readAll? known, read]
  rfl

/-- How a scope evaluates the texts in which every name is that of a constant. -/
structure Scope.EvaluatesTrees (scope : Scope) : Prop where
  /-- A text that writes a tree has the number that the tree stands for. -/
  number
    : ∀ {text words} {tree : Tree},
        WritesWords text words
        → tree.IsWritten 0 words
        → tree.IsKnown scope
        → (scope.eval? text).map (fun value => value.bits.toInt) = tree.denote? scope
  /-- The number is wide if a part of the tree or its size asks for that. -/
  width
    : ∀ {text words value} {tree : Tree},
        WritesWords text words
        → tree.IsWritten 0 words
        → tree.IsKnown scope
        → scope.eval? text = some value
        → (value.width = .wide ↔ tree.AsksWide scope ∨ IsLarge value.bits.toInt)
  /-- A text that has a value has the tokens of a way to write a tree. -/
  written
    : ∀ {text tokens value},
        Token.tokens? text = some tokens
        → (∀ name, .name name ∈ tokens → (scope.constant? name).isSome)
        → scope.eval? text = some value
        → ∃ (tree : Tree) (words : List Lexeme),
            tokens = words.map Lexeme.token
            ∧ tree.IsKnown scope
            ∧ tree.IsWritten 0 words

/-- The texts of constant expressions mean what they mean in C. -/
theorem Scope.evaluatesTrees (scope : Scope) : scope.EvaluatesTrees where
  number := by
    intro text words tree writes written known
    obtain ⟨expr, read, found⟩ := writes.eval? written known
    rw [found, ← tree.toInt_eval? read, Expr.value?, Option.map_map]
    rfl
  width := by
    intro text words value tree writes written known evaluated
    obtain ⟨expr, read, found⟩ := writes.eval? written known
    rw [found] at evaluated
    rw [expr.width_eq_wide_iff evaluated, tree.isLong_iff read]
  written := by
    intro text tokens value split known evaluated
    have plain : Plain scope tokens := ⟨exists_lexeme_of_tokens? split, known⟩
    rw [eval?, split, Reader.readNested?_eq, Option.bind_eq_bind, Option.bind_some] at evaluated
    obtain ⟨expr, read, -⟩ := Option.bind_eq_some_iff.mp evaluated
    have reads := Reader.readAll?_eq_some_iff.mp read
    obtain ⟨⟨tree, words, rfl, isKnown, written⟩, -⟩ := reads.writes plain (Nat.zero_le _)
    exact ⟨tree, words, by simp, isKnown, written⟩

end ApiBindings.Constant
