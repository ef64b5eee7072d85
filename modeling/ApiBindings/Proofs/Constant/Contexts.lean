import ApiBindings.Proofs.Constant.Reading
import Mathlib.Data.List.TakeWhile

/-! Expressions in larger contexts.
What is read stays what it is if expansions may be nested deeper, and if a closing parenthesis
follows. The parentheses in it are balanced, and its commas stand in them.
-/

namespace ApiBindings.Constant.Reader

variable {scope : Scope} {expand : List Token → Option Expr} {phase : Phase}
  {tokens rest : List Token} {expr : Expr}

-----------------------------------------------------------------------------------------
-- Deeper expansions
-----------------------------------------------------------------------------------------

/-- What is read stays so if more calls can be expanded. By induction on the rules. -/
theorem Reads.mono {expand' : List Token → Option Expr}
    (more : ∀ tokens expr, expand tokens = some expr → expand' tokens = some expr)
    (reads : Reads scope expand phase tokens expr rest)
    : Reads scope expand' phase tokens expr rest := by
  induction reads with
  | expr _ _ first more => exact .expr first more
  | stop ends => exact .stop ends
  | operator binds _ _ second more => exact .operator binds second more
  | negate _ operand => exact .negate operand
  | keep _ operand => exact .keep operand
  | complement _ operand => exact .complement operand
  | cast casts _ inner => exact .cast casts inner
  | grouped plain _ inner => exact .grouped plain inner
  | number => exact .number
  | constant known => exact .constant known
  | call free found split expanded =>
      obtain ⟨body, expansion, read⟩ := Option.bind_eq_some_iff.mp expanded
      exact .call free found split (Option.bind_eq_some_iff.mpr ⟨body, expansion, more _ _ read⟩)

theorem expandWithin_succ {budget : Nat} {tokens : List Token} {expr : Expr}
    (read : expandWithin scope budget tokens = some expr)
    : expandWithin scope (budget + 1) tokens = some expr := by
  induction budget generalizing tokens expr with
  | zero => cases read
  | succ budget ih =>
      rw [expandWithin, readNested?_eq, readAll?_eq_some_iff] at read ⊢
      exact read.mono fun tokens expr => ih

theorem expandWithin_mono {budget larger : Nat} (le : budget ≤ larger) {tokens : List Token}
    {expr : Expr} (read : expandWithin scope budget tokens = some expr)
    : expandWithin scope larger tokens = some expr := by
  induction le with
  | refl => exact read
  | step _ ih => exact expandWithin_succ ih

-----------------------------------------------------------------------------------------
-- Casts
-----------------------------------------------------------------------------------------

/-- A cast is the name of a type up to a closing parenthesis with an operand behind it. -/
theorem afterCast?_eq_some_iff {operand : List Token}
    : afterCast? scope tokens = some operand
      ↔ ∃ types next later,
          tokens = types ++ .closing :: next :: later
          ∧ (∀ token ∈ types, isTypeToken scope token = true)
          ∧ types.any isName = true
          ∧ startsOperand next = true
          ∧ operand = next :: later := by
  constructor
  · intro casts
    unfold afterCast? at casts
    split at casts
    · rename_i next later behind
      split at casts
      · rename_i named
        obtain ⟨isNamed, starts⟩ := (Bool.and_eq_true _ _).mp named
        refine ⟨tokens.takeWhile (isTypeToken scope), next, later, ?_, ?_, isNamed, starts,
          (Option.some.inj casts).symm⟩
        · rw [← behind, List.takeWhile_append_dropWhile]
        · exact fun token member => List.mem_takeWhile_imp member
      · cases casts
    · cases casts
  · rintro ⟨types, next, later, rfl, areTypes, isNamed, starts, rfl⟩
    have ends : isTypeToken scope .closing = false := rfl
    simp [afterCast?, List.takeWhile_append_of_pos areTypes, List.dropWhile_append_of_pos areTypes,
      ends, isNamed, starts]

theorem afterCast?_append {operand : List Token} (casts : afterCast? scope tokens = some operand)
    (back : List Token)
    : afterCast? scope (tokens ++ back) = some (operand ++ back) := by
  obtain ⟨types, next, later, rfl, areTypes, isNamed, starts, rfl⟩ := afterCast?_eq_some_iff.mp casts
  exact afterCast?_eq_some_iff.mpr
    ⟨types, next, later ++ back, by simp, areTypes, isNamed, starts, rfl⟩

/-- There is no cast before what cannot be part of a type's name. -/
theorem afterCast?_cons_eq_none {token : Token} (noType : isTypeToken scope token = false)
    (later : List Token)
    : afterCast? scope (token :: later) = none := by
  rw [Option.eq_none_iff_forall_ne_some]
  intro operand casts
  obtain ⟨types, next, behind, shape, areTypes, isNamed, -⟩ := afterCast?_eq_some_iff.mp casts
  cases types with
  | nil => cases isNamed
  | cons first types =>
      obtain ⟨rfl, -⟩ := List.cons.inj shape
      rw [areTypes token List.mem_cons_self] at noType
      cases noType

/-- No operand starts with what can be part of a type's name. -/
theorem Reads.exists_head_of_operand (reads : Reads scope expand .operand tokens expr rest)
    : ∃ token later, tokens = token :: later ∧ isTypeToken scope token = false := by
  cases reads with
  | constant known => exact ⟨_, _, rfl, by simp [isTypeToken, Scope.knows, known]⟩
  | call free found => exact ⟨_, _, rfl, by simp [isTypeToken, Scope.knows, found]⟩
  | _ => exact ⟨_, _, rfl, rfl⟩

theorem Reads.exists_head {least : Nat} (reads : Reads scope expand (.expr least) tokens expr rest)
    : ∃ token later, tokens = token :: later ∧ isTypeToken scope token = false := by
  cases reads with
  | expr first more => exact first.exists_head_of_operand

/-- An expression in parentheses is no cast. -/
theorem Reads.afterCast?_append_eq_none {least : Nat}
    (reads : Reads scope expand (.expr least) tokens expr rest) (back : List Token)
    : afterCast? scope (tokens ++ back) = none := by
  obtain ⟨token, later, rfl, noType⟩ := reads.exists_head
  exact afterCast?_cons_eq_none noType (later ++ back)

-----------------------------------------------------------------------------------------
-- Parentheses
-----------------------------------------------------------------------------------------

/-- How many parentheses are open behind a token that `depth` open ones stand before. There is no
such number if one is closed that is not open, or if a comma stands outside of all.
-/
def nestToken? (depth : Nat) : Token → Option Nat
  | .opening => some (depth + 1)
  | .closing =>
      match depth with
      | 0 => none
      | depth + 1 => some depth
  | .comma => if depth = 0 then none else some depth
  | _ => some depth

def nest? (depth : Nat) (tokens : List Token) : Option Nat :=
  tokens.foldlM nestToken? depth

/-- Every parenthesis that is opened is closed, and every comma stands in parentheses. -/
def IsBalanced (tokens : List Token) : Prop :=
  ∀ depth, nest? depth tokens = some depth

/-- A token does the same where more parentheses are open. -/
theorem nestToken?_deeper (base : Nat) {depth after : Nat} {token : Token}
    (nests : nestToken? depth token = some after)
    : nestToken? (base + depth + 1) token = some (base + after + 1) := by
  cases token with
  | closing =>
      cases depth with
      | zero => cases nests
      | succ depth =>
          cases nests
          rfl
  | comma =>
      have inside : depth ≠ 0 := by
        rintro rfl
        cases nests
      rw [nestToken?, if_neg inside] at nests
      cases nests
      rfl
  | _ =>
      cases nests
      rfl

/-- Outside of all parentheses a closing one is not that of an argument, and neither is a comma. -/
theorem nestToken?_eq_none {depth : Nat} {token : Token} (nests : nestToken? depth token = none)
    : depth = 0 ∧ (token = .closing ∨ token = .comma) := by
  cases token with
  | closing =>
      cases depth with
      | zero => exact ⟨rfl, .inl rfl⟩
      | succ depth => cases nests
  | comma =>
      refine ⟨?_, .inr rfl⟩
      by_contra inside
      rw [nestToken?, if_neg inside] at nests
      cases nests
  | _ => cases nests

theorem IsBalanced.nil : IsBalanced [] :=
  fun _ => rfl

theorem IsBalanced.append {front back : List Token} (first : IsBalanced front)
    (second : IsBalanced back)
    : IsBalanced (front ++ back) := by
  intro depth
  rw [nest?, List.foldlM_append, ← nest?, first]
  exact second depth

theorem IsBalanced.cons {token : Token} (plain : ∀ depth, nestToken? depth token = some depth)
    (later : IsBalanced tokens)
    : IsBalanced (token :: tokens) := by
  intro depth
  rw [nest?, List.foldlM_cons, plain]
  exact later depth

theorem IsBalanced.grouped (inside : IsBalanced tokens)
    : IsBalanced (.opening :: tokens ++ [.closing]) := by
  intro depth
  rw [nest?, List.foldlM_append, List.foldlM_cons]
  change ((nest? (depth + 1) tokens).bind fun depth => nest? depth [.closing]) = some depth
  rw [inside]
  rfl

/-- A token that keeps arguments going on belongs to the first of them. -/
theorem argumentsAt?_cons {depth after : Nat} {token : Token}
    (nests : nestToken? depth token = some after) (tokens : List Token)
    : argumentsAt? depth (token :: tokens)
      = (argumentsAt? after tokens).map fun (args, rest) => (intoFirst token args, rest) := by
  cases token with
  | closing =>
      cases depth with
      | zero => cases nests
      | succ depth =>
          cases nests
          rfl
  | comma =>
      have inside : depth ≠ 0 := by
        rintro rfl
        cases nests
      rw [nestToken?, if_neg inside] at nests
      cases nests
      simp [argumentsAt?, inside]
  | _ =>
      cases nests
      rfl

/-- The first token of arguments goes on with them, or ends them, or ends the first of them. -/
theorem argumentsAt?_cons_eq_some {depth : Nat} {token : Token} {args : List (List Token)}
    (split : argumentsAt? depth (token :: tokens) = some (args, rest))
    : (∃ after inner,
        nestToken? depth token = some after
        ∧ argumentsAt? after tokens = some (inner, rest)
        ∧ args = intoFirst token inner)
      ∨ (depth = 0 ∧ token = .closing ∧ args = [[]] ∧ rest = tokens)
      ∨ (depth = 0
          ∧ token = .comma
          ∧ ∃ inner, argumentsAt? 0 tokens = some (inner, rest) ∧ args = [] :: inner) := by
  cases nests : nestToken? depth token with
  | some after =>
      rw [argumentsAt?_cons nests] at split
      obtain ⟨⟨inner, behind⟩, inside, same⟩ := Option.map_eq_some_iff.mp split
      cases same
      exact .inl ⟨after, inner, rfl, inside, rfl⟩
  | none =>
      obtain ⟨rfl, rfl | rfl⟩ := nestToken?_eq_none nests
      · cases split
        exact .inr (.inl ⟨rfl, rfl, rfl, rfl⟩)
      · obtain ⟨⟨inner, behind⟩, inside, same⟩ := Option.map_eq_some_iff.mp split
        cases same
        exact .inr (.inr ⟨rfl, rfl, inner, inside, rfl⟩)

/-- Tokens whose commas stand in parentheses belong to the first of the arguments. -/
theorem argumentsAt?_append_of_nest? {depth after : Nat} {front : List Token}
    (nests : nest? depth front = some after) (back : List Token)
    : argumentsAt? depth (front ++ back)
      = (argumentsAt? after back).map fun (args, rest) => (front.foldr intoFirst args, rest) := by
  induction front generalizing depth with
  | nil =>
      cases nests
      simp
  | cons token front ih =>
      rw [nest?, List.foldlM_cons] at nests
      obtain ⟨between, first, later⟩ := Option.bind_eq_some_iff.mp nests
      rw [List.cons_append, argumentsAt?_cons first, ih later, Option.map_map]
      rfl

theorem foldr_intoFirst_cons (front argument : List Token) (args : List (List Token))
    : front.foldr intoFirst (argument :: args) = (front ++ argument) :: args := by
  induction front with
  | nil => rfl
  | cons token front ih => rw [List.foldr_cons, ih, intoFirst, List.cons_append]

theorem foldr_intoFirst_nil (token : Token) (front : List Token)
    : (token :: front).foldr intoFirst [] = [token :: front] := by
  induction front generalizing token with
  | nil => rfl
  | cons next front ih => rw [List.foldr_cons, ih, intoFirst]

/-- The first argument starts where the arguments do, and all are parts of the tokens. -/
theorem isInfix_of_argumentsAt? {depth : Nat} {args : List (List Token)}
    (split : argumentsAt? depth tokens = some (args, rest))
    : (∀ argument ∈ args.head?, argument <+: tokens) ∧ ∀ argument ∈ args, argument <:+: tokens := by
  induction tokens generalizing depth args with
  | nil => cases split
  | cons token tokens ih =>
      rcases argumentsAt?_cons_eq_some split with
        ⟨after, inner, nests, inside, rfl⟩ | ⟨rfl, rfl, rfl, rfl⟩ | ⟨rfl, rfl, inner, later, rfl⟩
      · obtain ⟨first, all⟩ := ih inside
        cases inner with
        | nil =>
            have alone : [token] <+: token :: tokens := ⟨tokens, rfl⟩
            simp [intoFirst, alone.isInfix]
        | cons argument others =>
            have longer : token :: argument <+: token :: tokens :=
              (List.prefix_cons_inj token).mpr (first argument rfl)
            refine ⟨by simpa [intoFirst] using longer, ?_⟩
            rw [intoFirst, List.forall_mem_cons]
            exact ⟨longer.isInfix, fun other member =>
              List.infix_cons (all other (List.mem_cons_of_mem argument member))⟩
      · simp
      · obtain ⟨-, all⟩ := ih later
        refine ⟨by simp, List.forall_mem_cons.mpr ⟨List.nil_infix, fun argument member => ?_⟩⟩
        exact List.infix_cons (all argument member)

/-- Nothing between the parentheses of a call is no argument. -/
def given (args : List (List Token)) : List (List Token) :=
  if args = [[]] then [] else args

theorem given_subset (args : List (List Token)) : given args ⊆ args := by
  unfold given
  split
  · exact List.nil_subset args
  · exact List.Subset.refl args

/-- The arguments of a call are those behind its parenthesis. -/
theorem exists_of_arguments? {args : List (List Token)}
    (split : arguments? tokens = some (args, rest))
    : ∃ inside parts,
        tokens = .opening :: inside
        ∧ argumentsAt? 0 inside = some (parts, rest)
        ∧ args = given parts := by
  unfold arguments? at split
  split at split
  · obtain ⟨⟨parts, after⟩, found, same⟩ := Option.map_eq_some_iff.mp split
    cases same
    exact ⟨_, parts, rfl, found, rfl⟩
  · cases split

theorem isInfix_of_arguments? {args : List (List Token)}
    (split : arguments? tokens = some (args, rest))
    : ∀ argument ∈ args, argument <:+: tokens := by
  obtain ⟨inside, parts, rfl, found, rfl⟩ := exists_of_arguments? split
  exact fun argument member =>
    List.infix_cons ((isInfix_of_argumentsAt? found).2 argument (given_subset parts member))

/-- Arguments close their parenthesis and are balanced otherwise. By induction on the tokens. -/
theorem exists_nest?_of_argumentsAt? {depth : Nat} {args : List (List Token)}
    (split : argumentsAt? depth tokens = some (args, rest))
    : ∃ front, tokens = front ++ rest ∧ ∀ base, nest? (base + depth + 1) front = some base := by
  induction tokens generalizing depth args with
  | nil => cases split
  | cons token tokens ih =>
      rcases argumentsAt?_cons_eq_some split with
        ⟨after, inner, nests, inside, rfl⟩ | ⟨rfl, rfl, rfl, rfl⟩ | ⟨rfl, rfl, inner, later, rfl⟩
      · obtain ⟨front, rfl, closes⟩ := ih inside
        refine ⟨token :: front, rfl, fun base => ?_⟩
        rw [nest?, List.foldlM_cons, nestToken?_deeper base nests]
        exact closes base
      · exact ⟨[.closing], rfl, fun base => rfl⟩
      · obtain ⟨front, rfl, closes⟩ := ih later
        exact ⟨.comma :: front, rfl, fun base => closes base⟩

theorem exists_isBalanced_of_arguments? {args : List (List Token)}
    (split : arguments? tokens = some (args, rest))
    : ∃ front, tokens = front ++ rest ∧ IsBalanced front := by
  obtain ⟨inside, parts, rfl, found, rfl⟩ := exists_of_arguments? split
  obtain ⟨front, rfl, closes⟩ := exists_nest?_of_argumentsAt? found
  refine ⟨.opening :: front, rfl, fun depth => ?_⟩
  rw [nest?, List.foldlM_cons]
  exact closes depth

theorem isBalanced_of_isTypeToken {types : List Token}
    (areTypes : ∀ token ∈ types, isTypeToken scope token = true)
    : IsBalanced types := by
  induction types with
  | nil => exact .nil
  | cons token types ih =>
      obtain ⟨isType, others⟩ := List.forall_mem_cons.mp areTypes
      refine .cons (fun depth => ?_) (ih others)
      cases token with
      | name => rfl
      | op => rfl
      | _ => cases isType

/-- What is read is balanced. By induction on the rules. -/
theorem Reads.exists_isBalanced (reads : Reads scope expand phase tokens expr rest)
    : ∃ front, tokens = front ++ rest ∧ IsBalanced front := by
  induction reads with
  | expr _ _ first more =>
      obtain ⟨front, rfl, balanced⟩ := first
      obtain ⟨back, rfl, balancedBack⟩ := more
      exact ⟨front ++ back, by simp, balanced.append balancedBack⟩
  | stop => exact ⟨[], rfl, .nil⟩
  | @operator least left op after right middle expr rest _ _ _ second more =>
      obtain ⟨front, rfl, balanced⟩ := second
      obtain ⟨back, rfl, balancedBack⟩ := more
      refine ⟨.op op :: (front ++ back), by simp, ?_⟩
      exact .cons (fun _ => rfl) (balanced.append balancedBack)
  | negate _ operand =>
      obtain ⟨front, rfl, balanced⟩ := operand
      exact ⟨_ :: front, rfl, .cons (fun _ => rfl) balanced⟩
  | keep _ operand =>
      obtain ⟨front, rfl, balanced⟩ := operand
      exact ⟨_ :: front, rfl, .cons (fun _ => rfl) balanced⟩
  | complement _ operand =>
      obtain ⟨front, rfl, balanced⟩ := operand
      exact ⟨_ :: front, rfl, .cons (fun _ => rfl) balanced⟩
  | cast casts _ inner =>
      obtain ⟨front, rfl, balanced⟩ := inner
      obtain ⟨types, next, later, rfl, areTypes, -, -, same⟩ := afterCast?_eq_some_iff.mp casts
      refine ⟨.opening :: types ++ [.closing] ++ front, by simp [same], ?_⟩
      exact (IsBalanced.grouped (isBalanced_of_isTypeToken areTypes)).append balanced
  | @grouped after expr rest _ _ inner =>
      obtain ⟨front, rfl, balanced⟩ := inner
      exact ⟨.opening :: front ++ [.closing], by simp, balanced.grouped⟩
  | number => exact ⟨[_], rfl, .cons (fun _ => rfl) .nil⟩
  | constant => exact ⟨[_], rfl, .cons (fun _ => rfl) .nil⟩
  | call _ _ split _ =>
      obtain ⟨front, rfl, balanced⟩ := exists_isBalanced_of_arguments? split
      exact ⟨_ :: front, rfl, .cons (fun _ => rfl) balanced⟩

-----------------------------------------------------------------------------------------
-- What follows
-----------------------------------------------------------------------------------------

/-- Arguments end at their parenthesis, whatever follows. By induction on the tokens. -/
theorem argumentsAt?_append {depth : Nat} {args : List (List Token)}
    (split : argumentsAt? depth tokens = some (args, rest)) (back : List Token)
    : argumentsAt? depth (tokens ++ back) = some (args, rest ++ back) := by
  induction tokens generalizing depth args with
  | nil => cases split
  | cons token tokens ih =>
      rcases argumentsAt?_cons_eq_some split with
        ⟨after, inner, nests, inside, rfl⟩ | ⟨rfl, rfl, rfl, rfl⟩ | ⟨rfl, rfl, inner, later, rfl⟩
      · rw [List.cons_append, argumentsAt?_cons nests, ih inside]
        rfl
      · rfl
      · rw [List.cons_append, argumentsAt?, ih later]
        rfl

theorem arguments?_append {args : List (List Token)}
    (split : arguments? tokens = some (args, rest)) (back : List Token)
    : arguments? (tokens ++ back) = some (args, rest ++ back) := by
  obtain ⟨inside, parts, rfl, found, rfl⟩ := exists_of_arguments? split
  rw [List.cons_append, arguments?, argumentsAt?_append found back]
  rfl

theorem goesOn_append_closing (least : Nat) (tokens back : List Token)
    : goesOn least (tokens ++ .closing :: back) = goesOn least tokens := by
  cases tokens with
  | nil => rfl
  | cons token tokens => cases token <;> rfl

/-- What is read stays so if a closing parenthesis follows. By induction on the rules. -/
theorem Reads.append_closing (reads : Reads scope expand phase tokens expr rest)
    (back : List Token)
    : Reads scope expand phase (tokens ++ .closing :: back) expr (rest ++ .closing :: back) := by
  induction reads with
  | expr _ _ first more => exact .expr first more
  | stop ends => exact .stop (by rwa [goesOn_append_closing])
  | operator binds _ _ second more => exact .operator binds second more
  | negate _ operand => exact .negate operand
  | keep _ operand => exact .keep operand
  | complement _ operand => exact .complement operand
  | cast casts _ inner => exact .cast (afterCast?_append casts _) inner
  | grouped _ reads inner => exact .grouped (reads.afterCast?_append_eq_none _) inner
  | number => exact .number
  | constant known => exact .constant known
  | call free found split expanded =>
      exact .call free found (arguments?_append split _) expanded

end ApiBindings.Constant.Reader
