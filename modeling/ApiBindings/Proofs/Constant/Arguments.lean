import ApiBindings.Proofs.Constant.Contexts
import Mathlib.Data.List.Forall2

/-! Arguments in the place of parameters.
The tokens of a macro's body are related to what they become in a call: a parameter, which is the
name of a constant before, becomes an argument that has the value of the constant. Casts, arguments
of inner calls and their expansions are found in the same places before and after.
-/

namespace ApiBindings.Constant

/-- A scope in which names are given values. -/
def Scope.bind (scope : Scope) (bindings : List (String × Value)) : Scope :=
  bindings.foldr (fun binding scope => scope.define binding.1 binding.2) scope

namespace Reader

variable {scope : Scope} {bindings : List (String × Value)}

theorem constant?_bind (scope : Scope) (bindings : List (String × Value)) (name : String)
    : (scope.bind bindings).constant? name
      = (bindings.lookup name).or (scope.constant? name) := by
  induction bindings with
  | nil => rfl
  | cons binding bindings ih =>
      obtain ⟨bound, value⟩ := binding
      by_cases same : name == bound
      · simp [Scope.bind, Scope.constant?, Scope.define, List.lookup_cons, same]
      · simpa [Scope.bind, Scope.constant?, Scope.define, List.lookup_cons, same] using ih

theorem macro?_bind (scope : Scope) (bindings : List (String × Value)) (name : String)
    : (scope.bind bindings).macro? name = scope.macro? name := by
  induction bindings with
  | nil => rfl
  | cons binding bindings ih => exact ih

-----------------------------------------------------------------------------------------
-- Arguments that have a value
-----------------------------------------------------------------------------------------

/-- Tokens are an expression that has a value. -/
def Denotes (scope : Scope) (argument : List Token) (bits : BitVec 64) : Prop :=
  ∃ expr, readNested? scope maxNesting argument = some expr ∧ expr.eval? = some bits

/-- Whether a token is the first of a literal, of a constant or of what is in parentheses. -/
def startsAtom : Token → Bool
  | .number .. | .name _ | .opening => true
  | _ => false

/-- A lone token is read as a literal or as a constant, whatever follows. -/
theorem Reads.of_singleton {expand : List Token → Option Expr} {token : Token} {expr : Expr}
    (reads : Reads scope expand (.expr 0) [token] expr [])
    : startsAtom token = true
      ∧ ∀ rest, Reads scope expand .operand (token :: rest) expr rest := by
  cases reads with
  | expr first more =>
      cases first with
      | number =>
          cases more
          exact ⟨rfl, fun rest => .number⟩
      | constant known =>
          cases more
          exact ⟨rfl, fun rest => .constant known⟩
      | call free found split => cases split
      | cast casts => cases casts
      | grouped plain inner =>
          obtain ⟨token, later, shape, -⟩ := inner.exists_head
          cases shape
      | negate operand =>
          obtain ⟨token, later, shape, -⟩ := operand.exists_head_of_operand
          cases shape
      | keep operand =>
          obtain ⟨token, later, shape, -⟩ := operand.exists_head_of_operand
          cases shape
      | complement operand =>
          obtain ⟨token, later, shape, -⟩ := operand.exists_head_of_operand
          cases shape

/-- An expression that is put into a body is read there as an operand. -/
theorem Reads.wrapped {expand : List Token → Option Expr} {argument : List Token} {expr : Expr}
    (reads : Reads scope expand (.expr 0) argument expr []) (rest : List Token)
    : Reads scope expand .operand (wrapped argument ++ rest) expr rest := by
  unfold Reader.wrapped
  split
  · exact reads.of_singleton.2 rest
  · have inner := reads.append_closing rest
    simpa using Reads.grouped (reads.afterCast?_append_eq_none _) inner

theorem Denotes.exists_reads {argument : List Token} {bits : BitVec 64}
    (denotes : Denotes scope argument bits) {budget : Nat} (enough : maxNesting ≤ budget)
    (rest : List Token)
    : ∃ expr,
        Reads scope (expandWithin scope budget) .operand (wrapped argument ++ rest) expr rest
        ∧ expr.eval? = some bits := by
  obtain ⟨expr, read, evaluated⟩ := denotes
  rw [readNested?_eq, readAll?_eq_some_iff] at read
  exact ⟨expr, (read.mono fun _ _ => expandWithin_mono enough).wrapped rest, evaluated⟩

/-- What is read where an argument was put is the argument. -/
theorem Denotes.eq_of_reads {argument rest after : List Token} {bits : BitVec 64} {expr : Expr}
    (denotes : Denotes scope argument bits) {budget : Nat} (le : budget ≤ maxNesting)
    (reads
      : Reads scope (expandWithin scope budget) .operand (wrapped argument ++ rest) expr after)
    : after = rest ∧ expr.eval? = some bits := by
  obtain ⟨whole, again, evaluated⟩ := denotes.exists_reads (Nat.le_refl maxNesting) rest
  obtain ⟨rfl, rfl⟩ := (reads.mono fun _ _ => expandWithin_mono le).unique again
  exact ⟨rfl, evaluated⟩

/-- An argument may be passed on to inner calls. -/
theorem Denotes.wrapped {argument : List Token} {bits : BitVec 64}
    (denotes : Denotes scope argument bits)
    : Denotes scope (wrapped argument) bits := by
  obtain ⟨expr, reads, evaluated⟩ := denotes.exists_reads (Nat.le_refl maxNesting) []
  refine ⟨expr, ?_, evaluated⟩
  rw [readNested?_eq, readAll?_eq_some_iff]
  rw [List.append_nil] at reads
  exact .expr reads (.stop rfl)

/-- An argument in a body starts with what starts an operand, but with neither an operator nor what
can be part of a type's name.
-/
theorem Denotes.exists_head {argument : List Token} {bits : BitVec 64}
    (denotes : Denotes scope argument bits)
    : ∃ token later,
        Reader.wrapped argument = token :: later
        ∧ isTypeToken scope token = false
        ∧ startsAtom token = true := by
  obtain ⟨expr, read, -⟩ := denotes
  rw [readNested?_eq, readAll?_eq_some_iff] at read
  unfold Reader.wrapped
  split
  · rename_i token
    obtain ⟨head, later, shape, noType⟩ := read.exists_head
    cases shape
    exact ⟨token, [], rfl, noType, read.of_singleton.1⟩
  · exact ⟨.opening, _, rfl, rfl, rfl⟩

theorem Denotes.isBalanced {argument : List Token} {bits : BitVec 64}
    (denotes : Denotes scope argument bits)
    : IsBalanced (Reader.wrapped argument) := by
  obtain ⟨expr, reads, -⟩ := denotes.exists_reads (Nat.le_refl maxNesting) []
  obtain ⟨front, shape, balanced⟩ := reads.exists_isBalanced
  rwa [List.append_cancel_right shape]

-----------------------------------------------------------------------------------------
-- Before and after a call
-----------------------------------------------------------------------------------------

/-- Tokens before and after arguments are put in the place of parameters. An argument has the value
that its parameter is bound to.
-/
inductive Replaced (scope : Scope) (bindings : List (String × Value))
    : List Token → List Token → Prop
  | nil : Replaced scope bindings [] []
  | same {token before after} (free : ∀ name, token = .name name → bindings.lookup name = none)
    (later : Replaced scope bindings before after)
    : Replaced scope bindings (token :: before) (token :: after)
  | parameter {name value argument before after} (bound : bindings.lookup name = some value)
    (denotes : Denotes scope argument value.bits) (later : Replaced scope bindings before after)
    : Replaced scope bindings (.name name :: before) (wrapped argument ++ after)

variable {before after : List Token}

namespace Replaced

theorem append {front back front' back' : List Token}
    (first : Replaced scope bindings front front') (second : Replaced scope bindings back back')
    : Replaced scope bindings (front ++ back) (front' ++ back') := by
  induction first with
  | nil => exact second
  | same free _ ih => exact .same free ih
  | parameter bound denotes _ ih =>
      rw [List.append_assoc]
      exact .parameter bound denotes ih

/-- A token that is no name is not replaced. -/
theorem cons {token : Token} (noName : isName token = false)
    (related : Replaced scope bindings before after)
    : Replaced scope bindings (token :: before) (token :: after) := by
  refine .same ?_ related
  rintro name rfl
  cases noName

theorem grouped (related : Replaced scope bindings before after)
    : Replaced scope bindings (.opening :: before ++ [.closing])
        (.opening :: after ++ [.closing]) := by
  have opened : Replaced scope bindings (.opening :: before) (.opening :: after) :=
    .cons rfl related
  exact opened.append (.cons rfl .nil)

theorem length_le (related : Replaced scope bindings before after)
    : before.length ≤ after.length := by
  induction related with
  | nil => exact Nat.le_refl 0
  | same _ _ ih => exact Nat.succ_le_succ ih
  | parameter _ denotes _ ih =>
      obtain ⟨token, later, shape, -⟩ := denotes.exists_head
      rw [shape]
      simp only [List.length_cons, List.length_append]
      omega

theorem eq_nil (related : Replaced scope bindings before []) : before = [] :=
  List.length_eq_zero_iff.mp (Nat.le_zero.mp related.length_le)

end Replaced

theorem wrapped_of_two_le {argument : List Token} (several : 2 ≤ argument.length)
    : wrapped argument = .opening :: argument ++ [.closing] := by
  unfold wrapped
  split
  · exact absurd several (by simp)
  · rfl

/-- Arguments of inner calls are put into their bodies alike. -/
theorem Replaced.wrapped (related : Replaced scope bindings before after)
    : Replaced scope bindings (wrapped before) (wrapped after) := by
  by_cases several : 2 ≤ before.length
  · rw [wrapped_of_two_le several, wrapped_of_two_le (Nat.le_trans several related.length_le)]
    exact related.grouped
  · cases related with
    | nil => exact Replaced.nil.grouped
    | same free later =>
        cases later with
        | nil => exact .same free .nil
        | same => simp at several
        | parameter => simp at several
    | parameter bound denotes later =>
        cases later with
        | nil =>
            have passed := Replaced.parameter bound denotes.wrapped .nil
            rw [List.append_nil] at passed ⊢
            exact passed
        | same => simp at several
        | parameter => simp at several

-----------------------------------------------------------------------------------------
-- Casts
-----------------------------------------------------------------------------------------

theorem isTypeToken_bind {token : Token}
    (free : ∀ name, token = .name name → bindings.lookup name = none)
    : isTypeToken (scope.bind bindings) token = isTypeToken scope token := by
  cases token with
  | name name =>
      simp [isTypeToken, Scope.knows, constant?_bind, macro?_bind, free name rfl]
  | op op => cases op <;> rfl
  | _ => rfl

theorem isTypeToken_bind_of_bound {name : String} {value : Value}
    (bound : bindings.lookup name = some value)
    : isTypeToken (scope.bind bindings) (.name name) = false := by
  simp [isTypeToken, Scope.knows, constant?_bind, bound]

namespace Replaced

/-- What comes after is a token that was there before, or starts with an argument. -/
theorem of_after_cons {token : Token}
    (related : Replaced scope bindings before (token :: after))
    : (∃ later,
        before = token :: later
        ∧ (∀ name, token = .name name → bindings.lookup name = none)
        ∧ Replaced scope bindings later after)
      ∨ ∃ name value argument later behind,
          before = .name name :: later
          ∧ bindings.lookup name = some value
          ∧ Denotes scope argument value.bits
          ∧ token :: after = Reader.wrapped argument ++ behind
          ∧ Replaced scope bindings later behind := by
  generalize shape : token :: after = whole at related
  cases related with
  | nil => cases shape
  | same free later =>
      cases shape
      exact .inl ⟨_, rfl, free, later⟩
  | parameter bound denotes later => exact .inr ⟨_, _, _, _, _, rfl, bound, denotes, rfl, later⟩

/-- No argument starts with what can be part of a type's name, or with what starts no atom. -/
theorem of_after_cons_of_plain {token : Token}
    (related : Replaced scope bindings before (token :: after))
    (plain : startsAtom token = true → isTypeToken scope token = true)
    : ∃ later,
        before = token :: later
        ∧ (∀ name, token = .name name → bindings.lookup name = none)
        ∧ Replaced scope bindings later after := by
  rcases related.of_after_cons with same | ⟨_, _, argument, _, behind, _, _, denotes, shape, _⟩
  · exact same
  · obtain ⟨head, later, start, noType, atom⟩ := denotes.exists_head
    rw [start] at shape
    cases shape
    rw [plain atom] at noType
    cases noType

theorem exists_startsOperand {next : Token} (related : Replaced scope bindings (next :: before) after)
    : ∃ head later, after = head :: later ∧ startsOperand head = startsOperand next := by
  cases related with
  | same => exact ⟨_, _, rfl, rfl⟩
  | parameter bound denotes =>
      obtain ⟨head, later, shape, -, atom⟩ := denotes.exists_head
      refine ⟨head, later ++ _, by rw [shape, List.cons_append], ?_⟩
      cases head with
      | number | name | opening => rfl
      | _ => cases atom

theorem types_append {types behind : List Token}
    (areTypes : ∀ token ∈ types, isTypeToken (scope.bind bindings) token = true)
    (related : Replaced scope bindings (types ++ behind) after)
    : (∀ token ∈ types, isTypeToken scope token = true)
      ∧ ∃ later, after = types ++ later ∧ Replaced scope bindings behind later := by
  induction types generalizing after with
  | nil => exact ⟨List.forall_mem_nil _, after, rfl, related⟩
  | cons token types ih =>
      obtain ⟨isType, others⟩ := List.forall_mem_cons.mp areTypes
      cases related with
      | same free later =>
          obtain ⟨areTypes, rest, rfl, behind⟩ := ih others later
          rw [isTypeToken_bind free] at isType
          exact ⟨List.forall_mem_cons.mpr ⟨isType, areTypes⟩, rest, rfl, behind⟩
      | parameter bound =>
          rw [isTypeToken_bind_of_bound bound] at isType
          cases isType

theorem of_types_append {types behind : List Token}
    (areTypes : ∀ token ∈ types, isTypeToken scope token = true)
    (related : Replaced scope bindings before (types ++ behind))
    : (∀ token ∈ types, isTypeToken (scope.bind bindings) token = true)
      ∧ ∃ later, before = types ++ later ∧ Replaced scope bindings later behind := by
  induction types generalizing before with
  | nil => exact ⟨List.forall_mem_nil _, before, rfl, related⟩
  | cons token types ih =>
      obtain ⟨isType, others⟩ := List.forall_mem_cons.mp areTypes
      obtain ⟨later, rfl, free, inside⟩ := related.of_after_cons_of_plain fun _ => isType
      obtain ⟨areTypes, rest, rfl, behind⟩ := ih others inside
      rw [← isTypeToken_bind free] at isType
      exact ⟨List.forall_mem_cons.mpr ⟨isType, areTypes⟩, rest, rfl, behind⟩

theorem afterCast? {operand : List Token} (related : Replaced scope bindings before after)
    (casts : Reader.afterCast? (scope.bind bindings) before = some operand)
    : ∃ operand',
        Reader.afterCast? scope after = some operand' ∧ Replaced scope bindings operand operand' := by
  obtain ⟨types, next, later, rfl, areTypes, named, starts, rfl⟩ := afterCast?_eq_some_iff.mp casts
  obtain ⟨areTypes, behind, rfl, closed⟩ := related.types_append areTypes
  cases closed with
  | same _ inside =>
      obtain ⟨head, tail, rfl, alike⟩ := inside.exists_startsOperand
      rw [starts] at alike
      exact ⟨head :: tail, afterCast?_eq_some_iff.mpr
        ⟨types, head, tail, rfl, areTypes, named, alike, rfl⟩, inside⟩

theorem of_afterCast? {operand : List Token} (related : Replaced scope bindings before after)
    (casts : Reader.afterCast? scope after = some operand)
    : ∃ operand',
        Reader.afterCast? (scope.bind bindings) before = some operand'
        ∧ Replaced scope bindings operand' operand := by
  obtain ⟨types, next, later, rfl, areTypes, named, starts, rfl⟩ := afterCast?_eq_some_iff.mp casts
  obtain ⟨areTypes, behind, rfl, closed⟩ := related.of_types_append areTypes
  have noAtom : startsAtom .closing = false := rfl
  obtain ⟨found, rfl, -, inside⟩ := closed.of_after_cons_of_plain (by simp [noAtom])
  cases found with
  | nil => cases inside
  | cons head tail =>
      obtain ⟨_, _, shape, alike⟩ := inside.exists_startsOperand
      cases shape
      rw [starts] at alike
      exact ⟨head :: tail, afterCast?_eq_some_iff.mpr
        ⟨types, head, tail, rfl, areTypes, named, alike.symm, rfl⟩, inside⟩

theorem afterCast?_eq_none_iff (related : Replaced scope bindings before after)
    : Reader.afterCast? (scope.bind bindings) before = none
      ↔ Reader.afterCast? scope after = none := by
  constructor
  · intro plain
    rw [Option.eq_none_iff_forall_ne_some]
    intro operand casts
    obtain ⟨operand', found, -⟩ := related.of_afterCast? casts
    rw [plain] at found
    cases found
  · intro plain
    rw [Option.eq_none_iff_forall_ne_some]
    intro operand casts
    obtain ⟨operand', found, -⟩ := related.afterCast? casts
    rw [plain] at found
    cases found

theorem goesOn_eq (related : Replaced scope bindings before after) (least : Nat)
    : goesOn least before = goesOn least after := by
  cases related with
  | nil => rfl
  | @same token => cases token <;> rfl
  | parameter _ denotes =>
      obtain ⟨head, later, shape, -, atom⟩ := denotes.exists_head
      rw [shape]
      cases head with
      | op => cases atom
      | _ => rfl

end Replaced

-----------------------------------------------------------------------------------------
-- Inner calls
-----------------------------------------------------------------------------------------

theorem rel_map {α β γ δ : Type} {r : α → β → Prop} {s : γ → δ → Prop} {f : α → γ} {g : β → δ}
    {a : Option α} {b : Option β} (step : ∀ a b, r a b → s (f a) (g b)) (related : a.Rel r b)
    : (a.map f).Rel s (b.map g) := by
  cases related with
  | none => exact .none
  | some both => exact .some (step _ _ both)

theorem rel_cases {α β : Type} {r : α → β → Prop} {a : Option α} {b : Option β}
    (related : a.Rel r b)
    : (a = none ∧ b = none) ∨ ∃ x y, a = some x ∧ b = some y ∧ r x y := by
  cases related with
  | none => exact .inl ⟨rfl, rfl⟩
  | some both => exact .inr ⟨_, _, rfl, rfl, both⟩

namespace Replaced

/-- The arguments of an inner call and what follows it, before and after. -/
def Split (scope : Scope) (bindings : List (String × Value))
    (before after : List (List Token) × List Token)
    : Prop :=
  List.Forall₂ (Replaced scope bindings) before.1 after.1 ∧ Replaced scope bindings before.2 after.2

variable {args args' : List (List Token)}

theorem intoFirst {token : Token}
    (free : ∀ name, token = .name name → bindings.lookup name = none)
    (related : List.Forall₂ (Replaced scope bindings) args args')
    : List.Forall₂ (Replaced scope bindings) (intoFirst token args) (intoFirst token args') := by
  cases related with
  | nil => exact .cons (.same free .nil) .nil
  | cons first others => exact .cons (.same free first) others

theorem foldr_intoFirst {name : String} {value : Value} {argument : List Token}
    (bound : bindings.lookup name = some value) (denotes : Denotes scope argument value.bits)
    (related : List.Forall₂ (Replaced scope bindings) args args')
    : List.Forall₂ (Replaced scope bindings) (Reader.intoFirst (.name name) args)
        ((Reader.wrapped argument).foldr Reader.intoFirst args') := by
  cases related with
  | nil =>
      obtain ⟨head, later, shape, -⟩ := denotes.exists_head
      have alone := Replaced.parameter bound denotes .nil
      rw [List.append_nil, shape] at alone
      rw [shape, foldr_intoFirst_nil]
      exact .cons alone .nil
  | cons first others =>
      rw [foldr_intoFirst_cons]
      exact .cons (.parameter bound denotes first) others

/-- The arguments of an inner call are split in the same places. By induction on the tokens. -/
theorem argumentsAt? (related : Replaced scope bindings before after) (depth : Nat)
    : Option.Rel (Split scope bindings) (argumentsAt? depth before) (argumentsAt? depth after) := by
  induction related generalizing depth with
  | nil => exact .none
  | @same token before after free later ih =>
      cases nests : nestToken? depth token with
      | some open' =>
          rw [argumentsAt?_cons nests, argumentsAt?_cons nests]
          exact rel_map (fun _ _ split => ⟨intoFirst free split.1, split.2⟩) (ih open')
      | none =>
          obtain ⟨rfl, rfl | rfl⟩ := nestToken?_eq_none nests
          · exact .some ⟨.cons .nil .nil, later⟩
          · exact rel_map (fun _ _ split => ⟨.cons .nil split.1, split.2⟩) (ih 0)
  | parameter bound denotes later ih =>
      rw [argumentsAt?_cons (show nestToken? depth (.name _) = some depth from rfl),
        argumentsAt?_append_of_nest? (denotes.isBalanced depth)]
      exact rel_map (fun _ _ split => ⟨foldr_intoFirst bound denotes split.1, split.2⟩) (ih depth)

theorem forall₂_eq_blank_iff (related : List.Forall₂ (Replaced scope bindings) args args')
    : args = [[]] ↔ args' = [[]] := by
  constructor
  · rintro rfl
    cases related with
    | cons first others =>
        cases first
        cases others
        rfl
  · rintro rfl
    cases related with
    | cons first others =>
        cases others
        rw [first.eq_nil]

/-- The arguments of an inner call are found alike if no parameter follows its name. -/
theorem arguments? (related : Replaced scope bindings before after)
    (free : ∀ name, .name name ∈ before.head? → bindings.lookup name = none)
    : Option.Rel (Split scope bindings) (Reader.arguments? before) (Reader.arguments? after) := by
  cases related with
  | nil => exact .none
  | @same token before after _ later =>
      cases token with
      | opening =>
          refine rel_map (fun args args' split => ⟨?_, split.2⟩) (later.argumentsAt? 0)
          have blank : args.1 = [[]] ↔ args'.1 = [[]] := forall₂_eq_blank_iff split.1
          by_cases isBlank : args.1 = [[]]
          · simp [isBlank, blank.mp isBlank]
          · simpa [isBlank, mt blank.mpr isBlank] using split.1
      | _ => exact .none
  | parameter bound =>
      rw [free _ rfl] at bound
      cases bound

end Replaced

end Reader

end ApiBindings.Constant
