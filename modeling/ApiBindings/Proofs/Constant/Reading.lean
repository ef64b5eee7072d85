import ApiBindings.Constant.Reader

/-! Reading constant expressions as a relation.
The rules say for each way to read an expression what it is read to and what is left behind it. The
reader follows them, so what holds of all readings is shown by induction on the rules, without the
bounds that end the reader.
-/

namespace ApiBindings.Constant.Reader

/-- What is read next: an expression, the operators behind a left operand, or an operand. -/
inductive Phase where
  | expr (least : Nat)
  | operators (least : Nat) (left : Expr)
  | operand

/-- Whether tokens go on with an operator that binds at least as tightly as `least`. -/
def goesOn (least : Nat) : List Token → Bool
  | .op op :: _ => least ≤ op.precedence
  | _ => false

/-- What tokens are read to, with the tokens that are left. -/
inductive Reads (scope : Scope) (expand : List Token → Option Expr)
    : Phase → List Token → Expr → List Token → Prop
  | expr {least tokens left middle expr rest}
    (first : Reads scope expand .operand tokens left middle)
    (more : Reads scope expand (.operators least left) middle expr rest)
    : Reads scope expand (.expr least) tokens expr rest
  | stop {least left tokens} (ends : goesOn least tokens = false)
    : Reads scope expand (.operators least left) tokens left tokens
  | operator {least left op after right middle expr rest} (binds : least ≤ op.precedence)
    (second : Reads scope expand (.expr (op.precedence + 1)) after right middle)
    (more : Reads scope expand (.operators least (.binary op left right)) middle expr rest)
    : Reads scope expand (.operators least left) (.op op :: after) expr rest
  | negate {after expr rest} (operand : Reads scope expand .operand after expr rest)
    : Reads scope expand .operand (.op .sub :: after) (.unary .negate expr) rest
  | keep {after expr rest} (operand : Reads scope expand .operand after expr rest)
    : Reads scope expand .operand (.op .add :: after) (.unary .keep expr) rest
  | complement {after expr rest} (operand : Reads scope expand .operand after expr rest)
    : Reads scope expand .operand (.tilde :: after) (.unary .complement expr) rest
  | cast {after operand expr rest} (casts : afterCast? scope after = some operand)
    (inner : Reads scope expand .operand operand expr rest)
    : Reads scope expand .operand (.opening :: after) expr rest
  | grouped {after expr rest} (plain : afterCast? scope after = none)
    (inner : Reads scope expand (.expr 0) after expr (.closing :: rest))
    : Reads scope expand .operand (.opening :: after) expr rest
  | number {bits long after}
    : Reads scope expand .operand (.number bits long :: after) (.literal bits long) after
  | constant {name value after} (known : scope.constant? name = some value)
    : Reads scope expand .operand (.name name :: after) (.constant value) after
  | call {name called after args expr rest} (free : scope.constant? name = none)
    (found : scope.macro? name = some called)
    (split : arguments? after = some (args, rest))
    (expanded : (expansion? called args).bind expand = some expr)
    : Reads scope expand .operand (.name name :: after) expr rest

variable {scope : Scope} {expand : List Token → Option Expr}

-----------------------------------------------------------------------------------------
-- The reader follows the rules
-----------------------------------------------------------------------------------------

/-- The reader follows the rules on lists of fewer than `bound` tokens. -/
structure Follows (scope : Scope) (expand : List Token → Option Expr) (bound : Nat) : Prop where
  expr
    : ∀ {least tokens expr rest},
        tokens.length < bound
        → readExpr scope expand least tokens = some (expr, rest)
        → Reads scope expand (.expr least) tokens expr rest.1
  operators
    : ∀ {least left tokens expr rest},
        tokens.length < bound
        → readOperators scope expand least left tokens = some (expr, rest)
        → Reads scope expand (.operators least left) tokens expr rest.1
  operand
    : ∀ {tokens expr rest},
        tokens.length < bound
        → readUnary scope expand tokens = some (expr, rest)
        → Reads scope expand .operand tokens expr rest.1

section

variable {bound : Nat} (follows : Follows scope expand bound) {tokens : List Token} {expr : Expr}

include follows

theorem Follows.primary {rest : { rest : List Token // rest.length < tokens.length }}
    (few : tokens.length ≤ bound)
    (plain : ∀ after, tokens = .opening :: after → afterCast? scope after = none)
    (read : readPrimary scope expand tokens = some (expr, rest))
    : Reads scope expand .operand tokens expr rest.1 := by
  rw [readPrimary.eq_def] at read
  split at read
  · cases read
    exact .number
  · split at read
    · rename_i inner
      cases read
      exact .grouped (plain _ rfl) (follows.expr few inner)
    · cases read
  · split at read
    · rename_i known
      cases read
      exact .constant known
    · rename_i free
      split at read
      · rename_i found split
        obtain ⟨inner, expanded, same⟩ := Option.map_eq_some_iff.mp read
        cases same
        exact .call free found split expanded
      · cases read
  · cases read

theorem Follows.unary {rest : { rest : List Token // rest.length < tokens.length }}
    (few : tokens.length ≤ bound)
    (read : readUnary scope expand tokens = some (expr, rest))
    : Reads scope expand .operand tokens expr rest.1 := by
  rw [readUnary.eq_def] at read
  split at read
  · obtain ⟨⟨inner, behind⟩, operand, same⟩ := Option.map_eq_some_iff.mp read
    cases same
    exact .negate (follows.operand few operand)
  · obtain ⟨⟨inner, behind⟩, operand, same⟩ := Option.map_eq_some_iff.mp read
    cases same
    exact .keep (follows.operand few operand)
  · obtain ⟨⟨inner, behind⟩, operand, same⟩ := Option.map_eq_some_iff.mp read
    cases same
    exact .complement (follows.operand few operand)
  · split at read
    · rename_i operand casts
      obtain ⟨⟨inner, behind⟩, operand, same⟩ := Option.map_eq_some_iff.mp read
      cases same
      have shorter := length_of_afterCast? casts
      exact .cast casts (follows.operand (Nat.lt_trans shorter few) operand)
    · rename_i plain
      refine follows.primary few (fun after shape => ?_) read
      cases shape
      exact plain
  · rename_i noParenthesis
    exact follows.primary few (fun after shape => absurd shape (noParenthesis after)) read

theorem Follows.chain {least : Nat} {left : Expr}
    {rest : { rest : List Token // rest.length ≤ tokens.length }} (few : tokens.length ≤ bound)
    (read : readOperators scope expand least left tokens = some (expr, rest))
    : Reads scope expand (.operators least left) tokens expr rest.1 := by
  rw [readOperators.eq_def] at read
  split at read
  · split at read
    · rename_i binds
      split at read
      · cases read
      · rename_i right middle shorter second
        obtain ⟨⟨inner, behind⟩, more, same⟩ := Option.map_eq_some_iff.mp read
        cases same
        exact .operator binds (follows.expr few second)
          (follows.operators (Nat.lt_trans shorter few) more)
    · rename_i loose
      cases read
      exact .stop (decide_eq_false loose)
  · rename_i other
    cases read
    refine .stop ?_
    unfold goesOn
    split
    · exact absurd rfl (other _ _)
    · rfl

theorem Follows.whole {least : Nat} {rest : { rest : List Token // rest.length < tokens.length }}
    (few : tokens.length ≤ bound)
    (read : readExpr scope expand least tokens = some (expr, rest))
    : Reads scope expand (.expr least) tokens expr rest.1 := by
  rw [readExpr] at read
  split at read
  · cases read
  · rename_i left middle shorter first
    obtain ⟨⟨inner, behind⟩, more, same⟩ := Option.map_eq_some_iff.mp read
    cases same
    exact .expr (follows.unary few first)
      (follows.operators (Nat.lt_of_lt_of_le shorter few) more)

end

theorem follows (bound : Nat) : Follows scope expand bound := by
  induction bound with
  | zero => constructor <;> exact fun few => absurd few (Nat.not_lt_zero _)
  | succ bound ih =>
      exact {
        expr := fun few => ih.whole (Nat.le_of_lt_succ few)
        operators := fun few => ih.chain (Nat.le_of_lt_succ few)
        operand := fun few => ih.unary (Nat.le_of_lt_succ few)
      }

-----------------------------------------------------------------------------------------
-- The rules are followed by the reader
-----------------------------------------------------------------------------------------

/-- What the reader makes of tokens in a phase. -/
def read? (scope : Scope) (expand : List Token → Option Expr) (phase : Phase)
    (tokens : List Token)
    : Option (Expr × List Token) :=
  match phase with
  | .expr least => (readExpr scope expand least tokens).map fun (expr, rest) => (expr, rest.1)
  | .operators least left =>
      (readOperators scope expand least left tokens).map fun (expr, rest) => (expr, rest.1)
  | .operand => (readUnary scope expand tokens).map fun (expr, rest) => (expr, rest.1)

theorem read?_expr {least : Nat} {tokens middle : List Token} {left : Expr}
    (first : read? scope expand .operand tokens = some (left, middle))
    : read? scope expand (.expr least) tokens
      = read? scope expand (.operators least left) middle := by
  obtain ⟨⟨inner, behind⟩, found, same⟩ := Option.map_eq_some_iff.mp first
  cases same
  simp only [read?, readExpr, found, Option.map_map]
  rfl

theorem read?_stop {least : Nat} {left : Expr} {tokens : List Token}
    (ends : goesOn least tokens = false)
    : read? scope expand (.operators least left) tokens = some (left, tokens) := by
  rw [read?, readOperators.eq_def]
  split
  · rw [if_neg (of_decide_eq_false ends)]
    rfl
  · rfl

theorem read?_operator {least : Nat} {left right : Expr} {op : BinaryOp}
    {after middle : List Token} (binds : least ≤ op.precedence)
    (second : read? scope expand (.expr (op.precedence + 1)) after = some (right, middle))
    : read? scope expand (.operators least left) (.op op :: after)
      = read? scope expand (.operators least (.binary op left right)) middle := by
  obtain ⟨⟨inner, behind⟩, found, same⟩ := Option.map_eq_some_iff.mp second
  cases same
  simp only [read?]
  rw [readOperators.eq_def]
  simp only [if_pos binds, found, Option.map_map]
  rfl

theorem read?_signed {op : UnaryOp} {first : Token} {after rest : List Token} {expr : Expr}
    (operand : read? scope expand .operand after = some (expr, rest))
    : (signed op after (readUnary scope expand after) : Parsed (first :: after)).map
          (fun (expr, rest) => (expr, rest.1))
        = some (.unary op expr, rest) := by
  obtain ⟨⟨inner, behind⟩, found, same⟩ := Option.map_eq_some_iff.mp operand
  cases same
  rw [found]
  rfl

/-- The reader reads whatever the rules allow. By induction on the rules. -/
theorem read?_of_reads {phase : Phase} {tokens rest : List Token} {expr : Expr}
    (reads : Reads scope expand phase tokens expr rest)
    : read? scope expand phase tokens = some (expr, rest) := by
  induction reads with
  | expr first more firstIh moreIh => rw [read?_expr firstIh, moreIh]
  | stop ends => exact read?_stop ends
  | operator binds second more secondIh moreIh => rw [read?_operator binds secondIh, moreIh]
  | negate operand ih =>
      rw [read?, readUnary.eq_def]
      exact read?_signed ih
  | keep operand ih =>
      rw [read?, readUnary.eq_def]
      exact read?_signed ih
  | complement operand ih =>
      rw [read?, readUnary.eq_def]
      exact read?_signed ih
  | cast casts inner ih =>
      obtain ⟨⟨found, behind⟩, read, same⟩ := Option.map_eq_some_iff.mp ih
      cases same
      rw [read?, readUnary.eq_def]
      dsimp only
      split
      · rename_i operand again
        rw [casts] at again
        cases again
        simp only [read, Option.map_some]
      · rename_i plain
        rw [casts] at plain
        cases plain
  | grouped plain inner ih =>
      obtain ⟨⟨found, behind⟩, read, same⟩ := Option.map_eq_some_iff.mp ih
      rw [read?, readUnary.eq_def]
      dsimp only
      split
      · rename_i casts
        rw [plain] at casts
        cases casts
      · obtain ⟨behind, shorter⟩ := behind
        cases same
        rw [readPrimary.eq_def]
        simp only [read, Option.map_some]
  | number => simp [read?, readUnary, readPrimary]
  | constant known =>
      rw [read?, readUnary.eq_def]
      dsimp only
      rw [readPrimary.eq_def]
      dsimp only
      split
      · rename_i value again
        rw [known] at again
        cases again
        rfl
      · rename_i unknown
        rw [known] at unknown
        cases unknown
  | call free found split expanded =>
      rw [read?, readUnary.eq_def]
      dsimp only
      rw [readPrimary.eq_def]
      dsimp only
      split
      · rename_i known
        rw [free] at known
        cases known
      · split
        · rename_i again call
          rw [found] at again
          rw [split] at call
          cases again
          cases call
          rw [expanded]
          rfl
        · rename_i other
          exact absurd split (other _ _ _ found)

theorem reads_iff {phase : Phase} {tokens rest : List Token} {expr : Expr}
    : read? scope expand phase tokens = some (expr, rest)
      ↔ Reads scope expand phase tokens expr rest := by
  refine ⟨fun read => ?_, read?_of_reads⟩
  have whole : Follows scope expand (tokens.length + 1) := follows _
  cases phase with
  | expr least =>
      obtain ⟨⟨inner, behind⟩, found, same⟩ := Option.map_eq_some_iff.mp read
      cases same
      exact whole.expr (Nat.lt_succ_self _) found
  | operators least left =>
      obtain ⟨⟨inner, behind⟩, found, same⟩ := Option.map_eq_some_iff.mp read
      cases same
      exact whole.operators (Nat.lt_succ_self _) found
  | operand =>
      obtain ⟨⟨inner, behind⟩, found, same⟩ := Option.map_eq_some_iff.mp read
      cases same
      exact whole.operand (Nat.lt_succ_self _) found

/-- Tokens are one expression if nothing is left behind it. -/
theorem readAll?_eq_some_iff {tokens : List Token} {expr : Expr}
    : readAll? scope expand tokens = some expr ↔ Reads scope expand (.expr 0) tokens expr [] := by
  rw [← reads_iff, read?, readAll?]
  constructor
  · intro read
    split at read
    · rename_i found
      cases read
      rw [found]
      rfl
    · cases read
  · intro read
    obtain ⟨⟨inner, behind⟩, found, same⟩ := Option.map_eq_some_iff.mp read
    obtain ⟨behind, shorter⟩ := behind
    cases same
    rw [found]

/-- There is one way to read tokens. -/
theorem Reads.unique {phase : Phase} {tokens rest rest' : List Token} {expr expr' : Expr}
    (reads : Reads scope expand phase tokens expr rest)
    (again : Reads scope expand phase tokens expr' rest')
    : expr = expr' ∧ rest = rest' := by
  have same := (read?_of_reads reads).symm.trans (read?_of_reads again)
  exact Prod.mk.inj (Option.some.inj same)

/-- How calls are expanded where expansions may be nested `budget` times. -/
def expandWithin (scope : Scope) : Nat → List Token → Option Expr
  | 0 => fun _ => none
  | budget + 1 => readNested? scope budget

theorem readNested?_eq (scope : Scope) (budget : Nat)
    : readNested? scope budget = readAll? scope (expandWithin scope budget) := by
  cases budget <;> rfl

end ApiBindings.Constant.Reader
