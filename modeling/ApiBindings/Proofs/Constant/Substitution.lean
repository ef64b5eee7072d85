import ApiBindings.Proofs.Constant.Expansions

/-! Bodies of macros before and after arguments are put in.
What is read before arguments are put in the place of parameters is read after it, and the other way
round, to trees of the same value.
-/

namespace ApiBindings.Constant

namespace Reader

/-- What is read next is the same, up to a left operand of the same value. -/
inductive Phase.Agrees : Phase → Phase → Prop
  | expr {least} : Agrees (.expr least) (.expr least)
  | operators {least left left'} (same : left.eval? = left'.eval?)
    : Agrees (.operators least left) (.operators least left')
  | operand : Agrees .operand .operand

variable {scope : Scope} {bindings : List (String × Value)} {called : FunctionMacro}
  {expand : List Token → Option Expr} {budget : Nat} {phase phase' : Phase}
  {tokens before after rest : List Token} {expr : Expr}

theorem IsWithin.behind (within : IsWithin scope bindings called before)
    (reads : Reads (scope.bind bindings) expand phase before expr rest)
    : IsWithin scope bindings called rest := by
  obtain ⟨front, rfl, -⟩ := reads.exists_isBalanced
  exact within.isInfix (List.suffix_append front rest).isInfix

theorem IsWithin.tail {token : Token} (within : IsWithin scope bindings called (token :: before))
    : IsWithin scope bindings called before :=
  within.isInfix (List.suffix_cons token before).isInfix

theorem IsWithin.afterCast? {operand : List Token}
    (within : IsWithin scope bindings called before)
    (casts : Reader.afterCast? (scope.bind bindings) before = some operand)
    : IsWithin scope bindings called operand := by
  obtain ⟨types, next, later, rfl, -, -, -, rfl⟩ := afterCast?_eq_some_iff.mp casts
  refine within.isInfix (List.IsSuffix.isInfix ⟨types ++ [.closing], ?_⟩)
  simp

theorem constant?_bind_of_free {name : String} (free : bindings.lookup name = none)
    : (scope.bind bindings).constant? name = scope.constant? name := by
  rw [constant?_bind, free, Option.none_or]

theorem constant?_bind_of_bound {name : String} {value : Value}
    (bound : bindings.lookup name = some value)
    : (scope.bind bindings).constant? name = some value := by
  rw [constant?_bind, bound, Option.some_or]

/-- The name of a macro is not followed by a bound name. -/
theorem IsWithin.free_head {name : String}
    (within : IsWithin scope bindings called (.name name :: before))
    (calls : scope.StartsCall (.name name)) (param : String) (next : .name param ∈ before.head?)
    : bindings.lookup param = none := by
  obtain ⟨first, -⟩ := List.isChain_cons.mp within.apart
  by_contra bound
  exact first _ next param rfl (Option.isSome_iff_ne_none.mpr bound) calls

/-- What a call is expanded to is related before and after, and so is what follows it. -/
theorem Replaced.call {other : FunctionMacro} {name : String}
    (hygienic : IsHygienic scope bindings called)
    (within : IsWithin scope bindings called (.name name :: before))
    (related : Replaced scope bindings before after) (free : scope.constant? name = none)
    (found : scope.macro? name = some other)
    : (Reader.arguments? before = none ∧ Reader.arguments? after = none)
      ∨ ∃ split split',
          Reader.arguments? before = some split
          ∧ Reader.arguments? after = some split'
          ∧ Replaced scope bindings split.2 split'.2
          ∧ (Reader.expansion? other split.1).Rel
              (fun tokens tokens' =>
                IsWithin scope bindings called tokens ∧ Replaced scope bindings tokens tokens')
              (Reader.expansion? other split'.1) := by
  have calls : scope.StartsCall (.name name) := ⟨free, by simp [found]⟩
  have leads := within.leads name other List.mem_cons_self found
  rcases rel_cases (related.arguments? (within.free_head calls)) with
    none | ⟨split, split', isSplit, isSplit', args, behind⟩
  · exact .inl none
  · refine .inr ⟨split, split', isSplit, isSplit', behind, ?_⟩
    have parts : ∀ argument ∈ split.1, IsWithin scope bindings called argument :=
      fun argument member => within.tail.isInfix (isInfix_of_arguments? isSplit argument member)
    rcases rel_cases (Replaced.expansion? hygienic leads args) with
      ⟨none, none'⟩ | ⟨tokens, tokens', expanded, expanded', both⟩
    · rw [none, none']
      exact .none
    · rw [expanded, expanded']
      exact .some ⟨.expansion hygienic leads parts expanded, both⟩

theorem eval?_binary {op : BinaryOp} {left left' right right' : Expr}
    (sameLeft : left.eval? = left'.eval?) (sameRight : right.eval? = right'.eval?)
    : (Expr.binary op left right).eval? = (Expr.binary op left' right').eval? := by
  simp only [Expr.eval?, sameLeft, sameRight]

/-- What is read before arguments are put in is read after. By induction on the rules. -/
theorem Reads.replace (enough : maxNesting ≤ budget)
    (hygienic : IsHygienic scope bindings called)
    (expands
      : ∀ {before after expr},
          IsWithin scope bindings called before
          → Replaced scope bindings before after
          → expand before = some expr
          → ∃ expr', expandWithin scope budget after = some expr' ∧ expr'.eval? = expr.eval?)
    (reads : Reads (scope.bind bindings) expand phase before expr rest)
    (agrees : phase.Agrees phase') (within : IsWithin scope bindings called before)
    (related : Replaced scope bindings before after)
    : ∃ expr' rest',
        Reads scope (expandWithin scope budget) phase' after expr' rest'
        ∧ Replaced scope bindings rest rest'
        ∧ expr'.eval? = expr.eval? := by
  induction reads generalizing phase' after with
  | expr first _ firstIh moreIh =>
      cases agrees
      obtain ⟨left, middle, read, behind, same⟩ := firstIh .operand within related
      obtain ⟨whole, rest, more, behind, same⟩ :=
        moreIh (.operators same.symm) (within.behind first) behind
      exact ⟨whole, rest, .expr read more, behind, same⟩
  | stop ends =>
      cases agrees with
      | operators same =>
          exact ⟨_, after, .stop (by rwa [← related.goesOn_eq]), related, same.symm⟩
  | operator binds second _ secondIh moreIh =>
      cases agrees with
      | operators sameLeft =>
          cases related with
          | same _ later =>
              obtain ⟨right, middle, read, behind, sameRight⟩ := secondIh .expr within.tail later
              obtain ⟨whole, rest, more, behind, same⟩ :=
                moreIh (.operators (eval?_binary sameLeft sameRight.symm))
                  (within.tail.behind second) behind
              exact ⟨whole, rest, .operator binds read more, behind, same⟩
  | negate _ ih =>
      cases agrees
      cases related with
      | same _ later =>
          obtain ⟨inner, rest, read, behind, same⟩ := ih .operand within.tail later
          exact ⟨_, rest, .negate read, behind, by simp only [Expr.eval?, same]⟩
  | keep _ ih =>
      cases agrees
      cases related with
      | same _ later =>
          obtain ⟨inner, rest, read, behind, same⟩ := ih .operand within.tail later
          exact ⟨_, rest, .keep read, behind, by simp only [Expr.eval?, same]⟩
  | complement _ ih =>
      cases agrees
      cases related with
      | same _ later =>
          obtain ⟨inner, rest, read, behind, same⟩ := ih .operand within.tail later
          exact ⟨_, rest, .complement read, behind, by simp only [Expr.eval?, same]⟩
  | cast casts _ ih =>
      cases agrees
      cases related with
      | same _ later =>
          obtain ⟨operand, casts', alike⟩ := later.afterCast? casts
          obtain ⟨inner, rest, read, behind, same⟩ :=
            ih .operand (within.tail.afterCast? casts) alike
          exact ⟨inner, rest, .cast casts' read, behind, same⟩
  | grouped plain _ ih =>
      cases agrees
      cases related with
      | same _ later =>
          obtain ⟨inner, rest, read, behind, same⟩ := ih .expr within.tail later
          cases behind with
          | same _ behind =>
              exact ⟨inner, _, .grouped (later.afterCast?_eq_none_iff.mp plain) read, behind, same⟩
  | number =>
      cases agrees
      cases related with
      | same _ later => exact ⟨_, _, .number, later, rfl⟩
  | constant known =>
      cases agrees
      cases related with
      | same free later =>
          rw [constant?_bind_of_free (free _ rfl)] at known
          exact ⟨_, _, .constant known, later, rfl⟩
      | parameter bound denotes later =>
          rw [constant?_bind_of_bound bound] at known
          cases known
          obtain ⟨inner, read, same⟩ := denotes.exists_reads enough _
          exact ⟨inner, _, read, later, same⟩
  | call free found split expanded =>
      cases agrees
      cases related with
      | same noParam later =>
          rw [constant?_bind_of_free (noParam _ rfl)] at free
          rw [macro?_bind] at found
          rcases later.call hygienic within free found with
            ⟨none, -⟩ | ⟨args, args', isSplit, isSplit', behind, alike⟩
          · rw [none] at split
            cases split
          · rw [split] at isSplit
            cases isSplit
            obtain ⟨tokens, expansion, read⟩ := Option.bind_eq_some_iff.mp expanded
            rw [expansion] at alike
            rcases rel_cases alike with ⟨none, -⟩ | ⟨_, tokens', isExpansion, expansion', inside, both⟩
            · cases none
            · cases isExpansion
              obtain ⟨inner, read', same⟩ := expands inside both read
              refine ⟨inner, args'.2, .call free found isSplit' ?_, behind, same⟩
              rw [expansion', Option.bind_some, read']
      | parameter bound =>
          rw [constant?_bind_of_bound bound] at free
          cases free

/-- An operand that is read after is that of the same token before, or an argument. -/
theorem Replaced.of_operand {token : Token} (le : budget ≤ maxNesting)
    (related : Replaced scope bindings before (token :: after))
    (reads : Reads scope (expandWithin scope budget) .operand (token :: after) expr rest)
    : (∃ later,
        before = token :: later
        ∧ (∀ name, token = .name name → bindings.lookup name = none)
        ∧ Replaced scope bindings later after)
      ∨ ∃ expr' rest',
          Reads (scope.bind bindings) expand .operand before expr' rest'
          ∧ Replaced scope bindings rest' rest
          ∧ expr'.eval? = expr.eval? := by
  rcases related.of_after_cons with
    same | ⟨name, value, argument, later, behind, rfl, bound, denotes, shape, related⟩
  · exact .inl same
  · rw [shape] at reads
    obtain ⟨rfl, same⟩ := denotes.eq_of_reads le reads
    exact .inr ⟨.constant value, later, .constant (constant?_bind_of_bound bound), related,
      same.symm⟩

/-- What is read after arguments are put in is read before. By induction on the rules. -/
theorem Reads.restore (le : budget ≤ maxNesting) (hygienic : IsHygienic scope bindings called)
    (expands
      : ∀ {before after expr},
          IsWithin scope bindings called before
          → Replaced scope bindings before after
          → expandWithin scope budget after = some expr
          → ∃ expr', expand before = some expr' ∧ expr'.eval? = expr.eval?)
    (reads : Reads scope (expandWithin scope budget) phase after expr rest)
    (agrees : phase.Agrees phase') (within : IsWithin scope bindings called before)
    (related : Replaced scope bindings before after)
    : ∃ expr' rest',
        Reads (scope.bind bindings) expand phase' before expr' rest'
        ∧ Replaced scope bindings rest' rest
        ∧ expr'.eval? = expr.eval? := by
  induction reads generalizing phase' before with
  | expr _ _ firstIh moreIh =>
      cases agrees
      obtain ⟨left, middle, read, behind, same⟩ := firstIh .operand within related
      obtain ⟨whole, rest, more, behind, same⟩ :=
        moreIh (.operators same.symm) (within.behind read) behind
      exact ⟨whole, rest, .expr read more, behind, same⟩
  | stop ends =>
      cases agrees with
      | operators same =>
          exact ⟨_, before, .stop (by rwa [related.goesOn_eq]), related, same.symm⟩
  | @operator least left op _ _ _ _ _ binds _ _ secondIh moreIh =>
      cases agrees with
      | operators sameLeft =>
          have noAtom : startsAtom (.op op) = false := rfl
          obtain ⟨later, rfl, -, related⟩ := related.of_after_cons_of_plain (by simp [noAtom])
          obtain ⟨right, middle, read, behind, sameRight⟩ := secondIh .expr within.tail related
          obtain ⟨whole, rest, more, behind, same⟩ :=
            moreIh (.operators (eval?_binary sameLeft sameRight.symm))
              (within.tail.behind read) behind
          exact ⟨whole, rest, .operator binds read more, behind, same⟩
  | negate operand ih =>
      cases agrees
      rcases related.of_operand le (.negate operand) with ⟨later, rfl, -, related⟩ | argument
      · obtain ⟨inner, rest, read, behind, same⟩ := ih .operand within.tail related
        exact ⟨_, rest, .negate read, behind, by simp only [Expr.eval?, same]⟩
      · exact argument
  | keep operand ih =>
      cases agrees
      rcases related.of_operand le (.keep operand) with ⟨later, rfl, -, related⟩ | argument
      · obtain ⟨inner, rest, read, behind, same⟩ := ih .operand within.tail related
        exact ⟨_, rest, .keep read, behind, by simp only [Expr.eval?, same]⟩
      · exact argument
  | complement operand ih =>
      cases agrees
      rcases related.of_operand le (.complement operand) with ⟨later, rfl, -, related⟩ | argument
      · obtain ⟨inner, rest, read, behind, same⟩ := ih .operand within.tail related
        exact ⟨_, rest, .complement read, behind, by simp only [Expr.eval?, same]⟩
      · exact argument
  | cast casts inner ih =>
      cases agrees
      rcases related.of_operand le (.cast casts inner) with ⟨later, rfl, -, related⟩ | argument
      · obtain ⟨operand, casts', alike⟩ := related.of_afterCast? casts
        obtain ⟨inner, rest, read, behind, same⟩ :=
          ih .operand (within.tail.afterCast? casts') alike
        exact ⟨inner, rest, .cast casts' read, behind, same⟩
      · exact argument
  | grouped plain inner ih =>
      cases agrees
      rcases related.of_operand le (.grouped plain inner) with ⟨later, rfl, -, related⟩ | argument
      · obtain ⟨inner, rest, read, behind, same⟩ := ih .expr within.tail related
        have noAtom : startsAtom .closing = false := rfl
        obtain ⟨rest, rfl, -, behind⟩ := behind.of_after_cons_of_plain (by simp [noAtom])
        exact ⟨inner, rest, .grouped (related.afterCast?_eq_none_iff.mpr plain) read, behind, same⟩
      · exact argument
  | number =>
      cases agrees
      rcases related.of_operand le .number with ⟨later, rfl, -, related⟩ | argument
      · exact ⟨_, later, .number, related, rfl⟩
      · exact argument
  | constant known =>
      cases agrees
      rcases related.of_operand le (.constant known) with ⟨later, rfl, free, related⟩ | argument
      · rw [← constant?_bind_of_free (free _ rfl)] at known
        exact ⟨_, later, .constant known, related, rfl⟩
      · exact argument
  | call free found split expanded =>
      cases agrees
      rcases related.of_operand le (.call free found split expanded) with
        ⟨later, rfl, noParam, related⟩ | argument
      · rcases related.call hygienic within free found with
          ⟨-, none⟩ | ⟨args, args', isSplit, isSplit', behind, alike⟩
        · rw [none] at split
          cases split
        · rw [split] at isSplit'
          cases isSplit'
          obtain ⟨tokens, expansion, read⟩ := Option.bind_eq_some_iff.mp expanded
          rw [expansion] at alike
          rcases rel_cases alike with ⟨-, none⟩ | ⟨tokens', _, expansion', isExpansion, inside, both⟩
          · cases none
          · cases isExpansion
            obtain ⟨inner, read', same⟩ := expands inside both read
            rw [← constant?_bind_of_free (noParam _ rfl)] at free
            rw [← macro?_bind] at found
            refine ⟨inner, args.2, .call free found isSplit ?_, behind, same⟩
            rw [expansion', Option.bind_some, read']
      · exact argument

-----------------------------------------------------------------------------------------
-- Nested expansions
-----------------------------------------------------------------------------------------

theorem readAll?_replace (enough : maxNesting ≤ budget)
    (hygienic : IsHygienic scope bindings called)
    (expands
      : ∀ {before after expr},
          IsWithin scope bindings called before
          → Replaced scope bindings before after
          → expand before = some expr
          → ∃ expr', expandWithin scope budget after = some expr' ∧ expr'.eval? = expr.eval?)
    (within : IsWithin scope bindings called before)
    (related : Replaced scope bindings before after)
    (read : readAll? (scope.bind bindings) expand before = some expr)
    : ∃ expr', readNested? scope budget after = some expr' ∧ expr'.eval? = expr.eval? := by
  rw [readAll?_eq_some_iff] at read
  obtain ⟨expr', rest, reads, behind, same⟩ :=
    read.replace enough hygienic expands .expr within related
  cases behind
  exact ⟨expr', by rwa [readNested?_eq, readAll?_eq_some_iff], same⟩

/-- A body has its value after arguments are put in, if expansions may be nested deep enough. -/
theorem readNested?_replace (hygienic : IsHygienic scope bindings called)
    (within : IsWithin scope bindings called before)
    (related : Replaced scope bindings before after)
    (read : readNested? (scope.bind bindings) budget before = some expr)
    : ∃ expr',
        readNested? scope (maxNesting + budget) after = some expr' ∧ expr'.eval? = expr.eval? := by
  induction budget generalizing before after expr with
  | zero =>
      refine readAll?_replace (Nat.le_refl maxNesting) hygienic ?_ within related read
      exact fun _ _ none => by cases none
  | succ budget ih =>
      exact readAll?_replace (Nat.le_add_right maxNesting _) hygienic ih within related read

theorem readAll?_restore (le : budget ≤ maxNesting) (hygienic : IsHygienic scope bindings called)
    (expands
      : ∀ {before after expr},
          IsWithin scope bindings called before
          → Replaced scope bindings before after
          → expandWithin scope budget after = some expr
          → ∃ expr', expand before = some expr' ∧ expr'.eval? = expr.eval?)
    (within : IsWithin scope bindings called before)
    (related : Replaced scope bindings before after)
    (read : readNested? scope budget after = some expr)
    : ∃ expr',
        readAll? (scope.bind bindings) expand before = some expr'
        ∧ expr'.eval? = expr.eval? := by
  rw [readNested?_eq, readAll?_eq_some_iff] at read
  obtain ⟨expr', rest, reads, behind, same⟩ :=
    read.restore le hygienic expands .expr within related
  rw [behind.eq_nil] at reads
  exact ⟨expr', readAll?_eq_some_iff.mpr reads, same⟩

/-- A body has its value before arguments are put in. -/
theorem readNested?_restore (le : budget ≤ maxNesting)
    (hygienic : IsHygienic scope bindings called)
    (within : IsWithin scope bindings called before)
    (related : Replaced scope bindings before after)
    (read : readNested? scope budget after = some expr)
    : ∃ expr',
        readNested? (scope.bind bindings) budget before = some expr'
        ∧ expr'.eval? = expr.eval? := by
  induction budget generalizing before after expr with
  | zero =>
      refine readAll?_restore le hygienic ?_ within related read
      exact fun _ _ none => by cases none
  | succ budget ih =>
      exact readAll?_restore le hygienic (ih (Nat.le_of_succ_le le)) within related read

end Reader

end ApiBindings.Constant
