import ApiBindings.Proofs.Constant.Arithmetic
import ApiBindings.Proofs.Constant.Lexemes
import ApiBindings.Proofs.Constant.Reading

/-! Expressions are read with the precedence and the associativity of C.
Whatever is a way to write a tree is read as that tree, and whatever is read where all names are
those of constants is a way to write a tree. Both go through the rules of the reader.
-/

namespace ApiBindings.Constant

open Reader

theorem BinaryOp.precedence_eq (op : BinaryOp) : op.precedence = op.tier + 5 := by
  cases op <;> rfl

theorem BinaryOp.tier_lt (op : BinaryOp) : op.tier < BinaryOp.tiers.length := by
  cases op <;> decide

/-- Every name among tokens is that of a constant. -/
def AllKnown (scope : Scope) (tokens : List Token) : Prop :=
  ∀ name, .name name ∈ tokens → (scope.constant? name).isSome

variable {scope : Scope} {expand : List Token → Option Expr}

theorem AllKnown.of_append {front back : List Token} (known : AllKnown scope (front ++ back))
    : AllKnown scope front ∧ AllKnown scope back :=
  ⟨fun name member => known name (List.mem_append_left back member),
    fun name member => known name (List.mem_append_right front member)⟩

theorem AllKnown.tail {token : Token} {tokens : List Token}
    (known : AllKnown scope (token :: tokens))
    : AllKnown scope tokens :=
  fun name member => known name (List.mem_cons_of_mem token member)

theorem isTypeToken_eq_false {name : String} (known : (scope.constant? name).isSome)
    : isTypeToken scope (.name name) = false := by
  simp [isTypeToken, Scope.knows, known]

/-- A type's name ends at the parenthesis that closes it. -/
theorem takeWhile_isTypeToken_subset (tokens rest : List Token)
    : (tokens ++ .closing :: rest).takeWhile (isTypeToken scope) ⊆ tokens := by
  induction tokens with
  | nil => simp [isTypeToken]
  | cons token tokens ih =>
      rw [List.cons_append, List.takeWhile_cons]
      split
      · exact List.cons_subset_cons token ih
      · exact List.nil_subset _

/-- There is no cast where every name up to the end of a type's name is that of a constant. -/
theorem afterCast?_eq_none {tokens known : List Token} (allKnown : AllKnown scope known)
    (within : tokens.takeWhile (isTypeToken scope) ⊆ known)
    : afterCast? scope tokens = none := by
  have nameless : (tokens.takeWhile (isTypeToken scope)).any isName = false := by
    rw [List.any_eq_false]
    intro token member isName
    cases token with
    | name name =>
        have isType := List.mem_takeWhile_imp member
        rw [isTypeToken_eq_false (allKnown name (within member))] at isType
        cases isType
    | _ => cases isName
  unfold afterCast?
  split
  · rw [nameless]
    rfl
  · rfl

-----------------------------------------------------------------------------------------
-- Trees
-----------------------------------------------------------------------------------------

namespace Tree

/-- What a tree is read to. -/
def expr? (scope : Scope) : Tree → Option Expr
  | literal numeral => some (.literal (BitVec.ofNat 64 numeral.number) (decide numeral.IsLong))
  | constant identifier => (scope.constant? identifier.name).map .constant
  | unary op operand => (operand.expr? scope).map (.unary op)
  | binary op left right => do some (.binary op (← left.expr? scope) (← right.expr? scope))

/-- A tree that may stand where only operators of a tier may, may stand where those of lower tiers
may, too.
-/
theorem IsWritten.mono {tier lower : Nat} {tree : Tree} {words : List Lexeme}
    (written : IsWritten tier tree words) (le : lower ≤ tier)
    : IsWritten lower tree words := by
  cases written with
  | literal => exact .literal
  | constant => exact .constant
  | unary inner => exact .unary inner
  | binary binds first second => exact .binary (Nat.le_trans le binds) first second
  | grouped inner => exact .grouped inner

theorem IsWritten.allKnown {tier : Nat} {tree : Tree} {words : List Lexeme}
    (written : IsWritten tier tree words) (known : tree.IsKnown scope)
    : AllKnown scope (words.map Lexeme.token) := by
  intro name member
  obtain ⟨word, among, same⟩ := List.mem_map.mp member
  induction written with
  | literal =>
      cases List.mem_singleton.mp among
      cases same
  | constant =>
      cases List.mem_singleton.mp among
      cases same
      exact known
  | @unary _ op _ _ _ ih =>
      rcases List.mem_cons.mp among with rfl | inside
      · cases op <;> cases same
      · exact ih known (List.mem_map.mpr ⟨word, inside, same⟩) inside
  | binary _ _ _ firstIh secondIh =>
      rcases List.mem_append.mp among with before | behind
      · exact firstIh known.1 (List.mem_map.mpr ⟨word, before, same⟩) before
      · rcases List.mem_cons.mp behind with rfl | behind
        · cases same
        · exact secondIh known.2 (List.mem_map.mpr ⟨word, behind, same⟩) behind
  | grouped _ ih =>
      rcases List.mem_append.mp among with inside | last
      · rcases List.mem_cons.mp inside with rfl | inside
        · cases same
        · exact ih known (List.mem_map.mpr ⟨word, inside, same⟩) inside
      · cases List.mem_singleton.mp last
        cases same

theorem exists_expr? {tree : Tree} (known : tree.IsKnown scope)
    : ∃ expr, tree.expr? scope = some expr := by
  induction tree with
  | literal numeral => exact ⟨_, rfl⟩
  | constant identifier =>
      obtain ⟨value, found⟩ := Option.isSome_iff_exists.mp known
      exact ⟨.constant value, by simp [expr?, found]⟩
  | unary op operand ih =>
      obtain ⟨expr, found⟩ := ih known
      exact ⟨.unary op expr, by simp [expr?, found]⟩
  | binary op left right leftIh rightIh =>
      obtain ⟨first, found⟩ := leftIh known.1
      obtain ⟨second, found'⟩ := rightIh known.2
      exact ⟨.binary op first second, by simp [expr?, found, found']⟩

-----------------------------------------------------------------------------------------
-- What is written is read
-----------------------------------------------------------------------------------------

/-- No operator of a higher tier than `tier` follows. -/
def EndsTier (tier : Nat) (tokens : List Token) : Prop :=
  ∀ op after, tokens = .op op :: after → op.tier ≤ tier

theorem goesOn_eq_false {tier least : Nat} {tokens : List Token} (ends : EndsTier tier tokens)
    (above : tier + 5 < least)
    : goesOn least tokens = false := by
  unfold goesOn
  split
  · rename_i op after
    have low := ends op after rfl
    have same := op.precedence_eq
    rw [decide_eq_false_iff_not]
    omega
  · rfl

/-- What is written is read as its tree, as far as what follows allows. A tree that operators may be
behind is read as their left operand. By induction on how the tree is written.
-/
theorem IsWritten.reads {tier : Nat} {tree : Tree} {words : List Lexeme}
    (written : IsWritten tier tree words) (known : tree.IsKnown scope) {expr : Expr}
    (reading : tree.expr? scope = some expr)
    : (BinaryOp.tiers.length ≤ tier
        → ∀ rest, Reads scope expand .operand (words.map Lexeme.token ++ rest) expr rest)
      ∧ ∀ least ≤ tier + 5, ∀ rest, EndsTier tier rest → ∀ whole behind,
          Reads scope expand (.operators least expr) rest whole behind
          → Reads scope expand (.expr least) (words.map Lexeme.token ++ rest) whole behind := by
  induction written generalizing expr with
  | literal =>
      cases reading
      exact ⟨fun _ rest => .number, fun _ _ rest _ _ _ more => .expr .number more⟩
  | constant =>
      obtain ⟨value, found, rfl⟩ := Option.map_eq_some_iff.mp reading
      exact ⟨fun _ rest => .constant found, fun _ _ rest _ _ _ more => .expr (.constant found) more⟩
  | @unary _ op operand words inner ih =>
      obtain ⟨inside, found, rfl⟩ := Option.map_eq_some_iff.mp reading
      have signed (rest : List Token)
          : Reads scope expand .operand (op.token :: (words.map Lexeme.token ++ rest))
              (.unary op inside) rest := by
        have operand := (ih known found).1 (Nat.le_refl _) rest
        cases op with
        | negate => exact .negate operand
        | keep => exact .keep operand
        | complement => exact .complement operand
      exact ⟨fun _ rest => signed rest, fun _ _ rest _ _ _ more => .expr (signed rest) more⟩
  | @binary tier op left right before behind binds first second firstIh secondIh =>
      obtain ⟨leftExpr, leftFound, more⟩ := Option.bind_eq_some_iff.mp reading
      obtain ⟨rightExpr, rightFound, same⟩ := Option.bind_eq_some_iff.mp more
      cases same
      refine ⟨fun high => absurd (Nat.le_trans high binds) (Nat.not_le.mpr op.tier_lt), ?_⟩
      intro least low rest ends whole later more
      have above : least ≤ op.precedence := by
        have same := op.precedence_eq
        omega
      -- What follows the right operand is left to the operators that follow the whole.
      have endsRight : EndsTier (op.tier + 1) rest := fun next after shape =>
        Nat.le_trans (ends next after shape) (Nat.le_succ_of_le binds)
      have stops : goesOn (op.precedence + 1) rest = false :=
        goesOn_eq_false ends (by have same := op.precedence_eq; omega)
      have right := (secondIh known.2 rightFound).2 (op.precedence + 1)
        (by have same := op.precedence_eq; omega) rest endsRight rightExpr rest (.stop stops)
      have endsLeft : EndsTier op.tier (.op op :: (behind.map Lexeme.token ++ rest)) := by
        rintro _ _ ⟨⟩
        exact Nat.le_refl _
      have left := (firstIh known.1 leftFound).2 least (by have same := op.precedence_eq; omega) _
        endsLeft whole later (.operator above right more)
      simpa [Lexeme.token] using left
  | @grouped tier tree words inner ih =>
      have whole (rest : List Token)
          : Reads scope expand .operand
              (.opening :: (words.map Lexeme.token ++ .closing :: rest)) expr rest := by
        have plain := afterCast?_eq_none (inner.allKnown known)
          (takeWhile_isTypeToken_subset (words.map Lexeme.token) rest)
        have ends : EndsTier 0 (.closing :: rest) := by rintro _ _ ⟨⟩
        exact .grouped plain
          ((ih known reading).2 0 (Nat.zero_le _) (.closing :: rest) ends expr _ (.stop rfl))
      constructor
      · intro _ rest
        simpa [Lexeme.token] using whole rest
      · intro _ _ rest _ _ _ more
        simpa [Lexeme.token] using .expr (whole rest) more

/-- What is written is read as its tree. -/
theorem IsWritten.readAll? {tree : Tree} {words : List Lexeme} (written : IsWritten 0 tree words)
    (known : tree.IsKnown scope)
    : readAll? scope expand (words.map Lexeme.token) = tree.expr? scope := by
  obtain ⟨expr, found⟩ := exists_expr? known
  have ends : EndsTier 0 [] := by rintro _ _ ⟨⟩
  have read : Reads scope expand (.expr 0) (words.map Lexeme.token ++ []) expr [] :=
    (written.reads known found).2 0 (Nat.zero_le _) [] ends expr [] (.stop rfl)
  rw [found, readAll?_eq_some_iff]
  simpa using read

end Tree

-----------------------------------------------------------------------------------------
-- What is read is written
-----------------------------------------------------------------------------------------

/-- Tokens that words and commas are read as, every name being that of a constant. -/
structure Plain (scope : Scope) (tokens : List Token) : Prop where
  spelled : ∀ token ∈ tokens, token = .comma ∨ ∃ lexeme : Lexeme, lexeme.token = token
  known : AllKnown scope tokens

namespace Plain

theorem tail {token : Token} {tokens : List Token} (plain : Plain scope (token :: tokens))
    : Plain scope tokens where
  spelled other member := plain.spelled other (List.mem_cons_of_mem token member)
  known := plain.known.tail

theorem back {front back : List Token} (plain : Plain scope (front ++ back))
    : Plain scope back where
  spelled token member := plain.spelled token (List.mem_append_right front member)
  known := plain.known.of_append.2

theorem exists_literal {bits : BitVec 64} {long : Bool} {after : List Token}
    (plain : Plain scope (.number bits long :: after))
    : ∃ numeral : Literal, numeral.token = .number bits long := by
  rcases plain.spelled _ List.mem_cons_self with comma | ⟨lexeme, same⟩
  · cases comma
  · cases lexeme with
    | literal numeral => exact ⟨numeral, same⟩
    | sign op => cases op <;> cases same
    | _ => cases same

theorem exists_identifier {name : String} {after : List Token}
    (plain : Plain scope (.name name :: after))
    : ∃ identifier : Identifier, identifier.name = name := by
  rcases plain.spelled _ List.mem_cons_self with comma | ⟨lexeme, same⟩
  · cases comma
  · cases lexeme with
    | name identifier => exact ⟨identifier, Token.name.inj same⟩
    | sign op => cases op <;> cases same
    | _ => cases same

theorem afterCast?_eq_none {tokens : List Token} (plain : Plain scope tokens)
    : afterCast? scope tokens = none :=
  Constant.afterCast?_eq_none plain.known (List.takeWhile_subset _)

end Plain

/-- Tokens up to `rest` that are those of a way to write a tree of constants, behind the words
`before`.
-/
def WritesTree (scope : Scope) (tier : Nat) (before : List Lexeme) (tokens rest : List Token)
    : Prop :=
  ∃ (tree : Tree) (words : List Lexeme),
    tokens = words.map Lexeme.token ++ rest
    ∧ tree.IsKnown scope
    ∧ tree.IsWritten tier (before ++ words)

/-- What tokens are in a phase of reading. The operators behind a left operand go on with whatever
way of writing it allows the first of them.
-/
def Reader.Phase.Writes (scope : Scope) (tokens rest : List Token) : Phase → Prop
  | .operand => WritesTree scope BinaryOp.tiers.length [] tokens rest
  | .expr least =>
      least ≤ BinaryOp.tiers.length + 5
      → WritesTree scope (least - 5) [] tokens rest ∧ goesOn least rest = false
  | .operators least _ =>
      ∀ tier left before,
        Tree.IsKnown scope left
        → Tree.IsWritten tier left before
        → least ≤ tier + 5
        → Tree.EndsTier tier tokens
        → WritesTree scope (least - 5) before tokens rest ∧ goesOn least rest = false

theorem endsTier_of_goesOn {op : BinaryOp} {tokens : List Token}
    (stops : goesOn (op.precedence + 1) tokens = false)
    : Tree.EndsTier op.tier tokens := by
  rintro next after rfl
  have loose := of_decide_eq_false stops
  have same := op.precedence_eq
  have sameNext := next.precedence_eq
  omega

/-- What is read where all names are those of constants is a tree that is written there. By
induction on the rules.
-/
theorem Reader.Reads.writes {phase : Phase} {tokens rest : List Token} {expr : Expr}
    (reads : Reads scope expand phase tokens expr rest) (plain : Plain scope tokens)
    : phase.Writes scope tokens rest := by
  induction reads with
  | @expr least tokens left middle expr rest first more firstIh moreIh =>
      intro low
      obtain ⟨tree, words, rfl, known, written⟩ := firstIh plain
      have ends : Tree.EndsTier BinaryOp.tiers.length middle := fun op _ _ =>
        Nat.le_of_lt op.tier_lt
      obtain ⟨⟨whole, later, rfl, knownWhole, writtenWhole⟩, stops⟩ :=
        moreIh plain.back _ _ _ known written low ends
      exact ⟨⟨whole, words ++ later, by simp, knownWhole, writtenWhole⟩, stops⟩
  | stop ends =>
      intro tier left before known written low _
      exact ⟨⟨left, [], rfl, known, by simpa using written.mono (by omega)⟩, ends⟩
  | @operator least leftExpr op after right middle expr rest binds second more secondIh moreIh =>
      intro tier left before known written low ends
      have same := op.precedence_eq
      have below := op.tier_lt
      obtain ⟨⟨rightTree, words, rfl, knownRight, writtenRight⟩, stops⟩ :=
        secondIh plain.tail (by omega)
      have writtenSecond : rightTree.IsWritten (op.tier + 1) words :=
        writtenRight.mono (by omega)
      have both
          : Tree.IsWritten op.tier (.binary op left rightTree)
              (before ++ .operator op :: words) :=
        .binary (Nat.le_refl _) (written.mono (ends op _ rfl)) writtenSecond
      have knownBoth : Tree.IsKnown scope (.binary op left rightTree) := ⟨known, knownRight⟩
      obtain ⟨⟨whole, later, rfl, knownWhole, writtenWhole⟩, stopsWhole⟩ :=
        moreIh plain.tail.back _ _ _ knownBoth both (by omega) (endsTier_of_goesOn stops)
      refine ⟨⟨whole, .operator op :: words ++ later, ?_, knownWhole, ?_⟩, stopsWhole⟩
      · simp [Lexeme.token]
      · simpa using writtenWhole
  | negate operand ih =>
      obtain ⟨tree, words, rfl, known, written⟩ := ih plain.tail
      exact ⟨.unary .negate tree, .sign .negate :: words, rfl, known, .unary written⟩
  | keep operand ih =>
      obtain ⟨tree, words, rfl, known, written⟩ := ih plain.tail
      exact ⟨.unary .keep tree, .sign .keep :: words, rfl, known, .unary written⟩
  | complement operand ih =>
      obtain ⟨tree, words, rfl, known, written⟩ := ih plain.tail
      exact ⟨.unary .complement tree, .sign .complement :: words, rfl, known, .unary written⟩
  | cast casts inner ih =>
      rw [plain.tail.afterCast?_eq_none] at casts
      cases casts
  | @grouped after expr rest noCast inner ih =>
      obtain ⟨⟨tree, words, rfl, known, written⟩, -⟩ := ih plain.tail (Nat.zero_le _)
      exact ⟨tree, .opening :: words ++ [.closing], by simp [Lexeme.token], known, .grouped written⟩
  | number =>
      obtain ⟨numeral, same⟩ := plain.exists_literal
      exact ⟨.literal numeral, [.literal numeral], by simp [Lexeme.token, same], trivial, .literal⟩
  | constant found =>
      obtain ⟨identifier, rfl⟩ := plain.exists_identifier
      exact ⟨.constant identifier, [.name identifier], rfl, by simp [Tree.IsKnown, found], .constant⟩
  | call free found split expanded =>
      have known := plain.known _ List.mem_cons_self
      rw [free] at known
      cases known

end ApiBindings.Constant
