import ApiBindings.Proofs.Constant.Arguments
import Mathlib.Data.List.Chain

/-! Expansions of inner calls.
A body that arguments are put into may call other macros, which get the arguments passed on. What
their calls are expanded to is related before and after the arguments are put in, as long as the
parameters mean nothing else in the other bodies and no argument is taken for those of a call.
-/

namespace ApiBindings.Constant

/-- Whether a token is read as the start of a macro's call. -/
def Scope.StartsCall (scope : Scope) : Token → Prop
  | .name name => scope.constant? name = none ∧ (scope.macro? name).isSome
  | _ => False

instance (scope : Scope) : DecidablePred scope.StartsCall
  | .name _ => inferInstanceAs (Decidable (_ ∧ _))
  | .number .. | .op _ | .tilde | .comma | .opening | .closing => inferInstanceAs (Decidable False)

/-- The macros that a macro leads to: itself, and those that are named in the bodies of such. -/
inductive Scope.Leads (scope : Scope) (called : FunctionMacro) : FunctionMacro → Prop
  | self : Leads scope called called
  | call {outer name inner} (leads : Leads scope called outer) (named : .name name ∈ outer.body)
    (found : scope.macro? name = some inner)
    : Leads scope called inner

/-- No parameter stands directly behind the name of a macro or of a parameter. The parentheses
around an argument would be those of a call there.
-/
def FunctionMacro.IsApart (scope : Scope) (called : FunctionMacro) : Prop :=
  called.body.IsChain fun first second =>
    ∀ param ∈ called.params,
      second = .name param
      → ¬scope.StartsCall first ∧ ∀ name ∈ called.params, first ≠ .name name

instance (scope : Scope) (called : FunctionMacro) : Decidable (called.IsApart scope) :=
  inferInstanceAs (Decidable (List.IsChain _ _))

namespace Reader

variable {scope : Scope} {bindings : List (String × Value)}

-----------------------------------------------------------------------------------------
-- Parameters of inner macros
-----------------------------------------------------------------------------------------

theorem mem_of_lookup_zip {α : Type} {names : List String} {given : List α} {name : String}
    {value : α} (found : (names.zip given).lookup name = some value)
    : name ∈ names ∧ value ∈ given := by
  obtain ⟨front, back, shape, -⟩ := List.lookup_eq_some_iff.mp found
  have member : (name, value) ∈ names.zip given := by simp [shape]
  exact List.of_mem_zip member

theorem not_mem_of_lookup_zip {names : List String} {args : List (List Token)} {name : String}
    (sameLength : args.length = names.length) (free : (names.zip args).lookup name = none)
    : name ∉ names := by
  intro member
  rw [← List.map_fst_zip (Nat.le_of_eq sameLength.symm)] at member
  obtain ⟨pair, inside, rfl⟩ := List.mem_map.mp member
  have differs := List.lookup_eq_none_iff.mp free pair inside
  simp at differs

/-- What a name is given in two ways is related if all that is given is. -/
theorem rel_lookup_zip {α β : Type} {r : α → β → Prop} {given : List α} {given' : List β}
    (related : List.Forall₂ r given given') (names : List String) (name : String)
    : ((names.zip given).lookup name).Rel r ((names.zip given').lookup name) := by
  induction related generalizing names with
  | nil =>
      rw [List.zip_nil_right, List.zip_nil_right]
      exact .none
  | cons first others ih =>
      cases names with
      | nil => exact .none
      | cons own names =>
          by_cases same : name == own
          · simpa [List.lookup_cons, same] using Option.Rel.some first
          · simpa [List.lookup_cons, same] using ih names

theorem substitute_of_none {arguments : List (String × List Token)} {name : String}
    (free : arguments.lookup name = none)
    : substitute arguments (.name name) = [.name name] := by
  simp [substitute, free]

theorem substitute_of_some {arguments : List (String × List Token)} {name : String}
    {argument : List Token} (found : arguments.lookup name = some argument)
    : substitute arguments (.name name) = wrapped argument := by
  simp [substitute, found]

/-- What a token of an inner macro's body becomes is replaced alike. -/
theorem Replaced.substitute {args args' : List (List Token)} {names : List String} {token : Token}
    (sameLength : args.length = names.length)
    (related : List.Forall₂ (Replaced scope bindings) args args')
    (own : ∀ name, token = .name name → (bindings.lookup name).isSome → name ∈ names)
    : Replaced scope bindings (substitute (names.zip args) token)
        (substitute (names.zip args') token) := by
  cases token with
  | name name =>
      rcases rel_cases (rel_lookup_zip related names name) with
        ⟨found, found'⟩ | ⟨argument, argument', found, found', both⟩
      · rw [substitute_of_none found, substitute_of_none found']
        refine .same ?_ .nil
        rintro _ ⟨⟩
        rw [Option.eq_none_iff_forall_ne_some]
        intro value bound
        exact not_mem_of_lookup_zip sameLength found (own name rfl (by simp [bound]))
      · rw [substitute_of_some found, substitute_of_some found']
        exact both.wrapped
  | _ => exact .cons rfl .nil

theorem Replaced.flatMap_substitute {args args' : List (List Token)} {names : List String}
    {body : List Token} (sameLength : args.length = names.length)
    (related : List.Forall₂ (Replaced scope bindings) args args')
    (own : ∀ name, .name name ∈ body → (bindings.lookup name).isSome → name ∈ names)
    : Replaced scope bindings (body.flatMap (Reader.substitute (names.zip args)))
        (body.flatMap (Reader.substitute (names.zip args'))) := by
  induction body with
  | nil => exact .nil
  | cons token body ih =>
      rw [List.flatMap_cons, List.flatMap_cons]
      refine (Replaced.substitute sameLength related ?_).append (ih ?_)
      · rintro name rfl
        exact own name List.mem_cons_self
      · exact fun name member => own name (List.mem_cons_of_mem token member)

-----------------------------------------------------------------------------------------
-- Tokens of a macro and of those that it leads to
-----------------------------------------------------------------------------------------

/-- The parameters of a macro stand for the same values wherever their names are found in the bodies
that it leads to, and no argument is taken there for those of a call.
-/
structure IsHygienic (scope : Scope) (bindings : List (String × Value)) (called : FunctionMacro)
    : Prop where
  own
    : ∀ {other},
        scope.Leads called other
        → ∀ name, .name name ∈ other.body → (bindings.lookup name).isSome → name ∈ other.params
  apart : ∀ {other}, scope.Leads called other → other.IsApart scope

/-- A bound name does not stand directly behind that of a macro. -/
def Apart (scope : Scope) (bindings : List (String × Value)) (first second : Token) : Prop :=
  ∀ param, second = .name param → (bindings.lookup param).isSome → ¬scope.StartsCall first

/-- Tokens that are found in the body of a macro, or in an expansion that it leads to. -/
structure IsWithin (scope : Scope) (bindings : List (String × Value)) (called : FunctionMacro)
    (tokens : List Token)
    : Prop where
  apart : tokens.IsChain (Apart scope bindings)
  leads
    : ∀ name inner,
        .name name ∈ tokens
        → scope.macro? name = some inner
        → scope.Leads called inner

namespace IsWithin

variable {called : FunctionMacro} {front back tokens : List Token}

theorem nil : IsWithin scope bindings called [] where
  apart := .nil
  leads _ _ member := by cases member

theorem isInfix (whole : IsWithin scope bindings called tokens) (part : front <:+: tokens)
    : IsWithin scope bindings called front where
  apart := whole.apart.infix part
  leads name inner member := whole.leads name inner (part.subset member)

theorem append (first : IsWithin scope bindings called front)
    (second : IsWithin scope bindings called back)
    (boundary : ∀ token ∈ front.getLast?, ∀ next ∈ back.head?, Apart scope bindings token next)
    : IsWithin scope bindings called (front ++ back) where
  apart := List.isChain_append.mpr ⟨first.apart, second.apart, boundary⟩
  leads name inner member := by
    rcases List.mem_append.mp member with before | behind
    · exact first.leads name inner before
    · exact second.leads name inner behind

theorem singleton {token : Token}
    (leads
      : ∀ name inner,
          token = .name name → scope.macro? name = some inner → scope.Leads called inner)
    : IsWithin scope bindings called [token] where
  apart := .singleton token
  leads name inner member := leads name inner (List.mem_singleton.mp member).symm

theorem wrapped (inside : IsWithin scope bindings called tokens)
    : IsWithin scope bindings called (wrapped tokens) := by
  unfold Reader.wrapped
  split
  · exact inside
  · have opening : IsWithin scope bindings called [.opening] := singleton fun _ _ shape => by cases shape
    have closing : IsWithin scope bindings called [.closing] := singleton fun _ _ shape => by cases shape
    have opened := opening.append inside fun token last _ _ _ _ _ => by
      cases last
      exact id
    refine opened.append closing fun _ _ next head param shape => ?_
    cases head
    cases shape

end IsWithin

-----------------------------------------------------------------------------------------
-- Expansions of the macros that a macro leads to
-----------------------------------------------------------------------------------------

/-- A token that is no parameter stays as it is. -/
theorem substitute_of_not_mem {names : List String} {args : List (List Token)} {token : Token}
    (other : ∀ name ∈ names, token ≠ .name name)
    : substitute (names.zip args) token = [token] := by
  cases token with
  | name name =>
      refine substitute_of_none ?_
      rw [Option.eq_none_iff_forall_ne_some]
      intro argument found
      exact other name (mem_of_lookup_zip found).1 rfl
  | _ => rfl

section

variable {called : FunctionMacro} {names : List String} {args : List (List Token)}
  {body : List Token}

/-- A bound name that an expansion starts with stands in the place of a parameter. -/
theorem exists_head_of_flatMap {param : String}
    (own : ∀ name, .name name ∈ body → (bindings.lookup name).isSome → name ∈ names)
    (bound : (bindings.lookup param).isSome)
    (head : .name param ∈ (body.flatMap (substitute (names.zip args))).head?)
    : ∃ name ∈ names, .name name ∈ body.head? := by
  cases body with
  | nil => cases head
  | cons token body =>
      by_cases isOwn : ∃ name ∈ names, token = .name name
      · obtain ⟨name, member, rfl⟩ := isOwn
        exact ⟨name, member, rfl⟩
      · have other : ∀ name ∈ names, token ≠ .name name := fun name member same =>
          isOwn ⟨name, member, same⟩
        rw [List.flatMap_cons, substitute_of_not_mem other] at head
        cases head
        exact absurd rfl (other param (own param List.mem_cons_self bound))

theorem IsWithin.substitute {token : Token}
    (within : ∀ argument ∈ args, IsWithin scope bindings called argument)
    (leads
      : ∀ name inner,
          token = .name name → scope.macro? name = some inner → scope.Leads called inner)
    : IsWithin scope bindings called (substitute (names.zip args) token) := by
  cases token with
  | name name =>
      cases found : (names.zip args).lookup name with
      | none =>
          rw [substitute_of_none found]
          exact .singleton leads
      | some argument =>
          rw [substitute_of_some found]
          exact (within argument (mem_of_lookup_zip found).2).wrapped
  | _ => exact .singleton leads

/-- An expansion is within what a macro leads to, if the body and the arguments are. By induction on
the body: a parameter's argument is not put directly behind the name of a macro.
-/
theorem IsWithin.flatMap_substitute
    (within : ∀ argument ∈ args, IsWithin scope bindings called argument)
    (leads
      : ∀ name inner,
          .name name ∈ body → scope.macro? name = some inner → scope.Leads called inner)
    (own : ∀ name, .name name ∈ body → (bindings.lookup name).isSome → name ∈ names)
    (apart : FunctionMacro.IsApart scope { params := names, body := body })
    : IsWithin scope bindings called (body.flatMap (Reader.substitute (names.zip args))) := by
  induction body with
  | nil => exact .nil
  | cons token body ih =>
      obtain ⟨first, others⟩ := List.isChain_cons.mp apart
      have ownLater : ∀ name, .name name ∈ body → (bindings.lookup name).isSome → name ∈ names :=
        fun name member => own name (List.mem_cons_of_mem token member)
      have later := ih (fun name inner member => leads name inner (List.mem_cons_of_mem token member))
        ownLater others
      have front : IsWithin scope bindings called (Reader.substitute (names.zip args) token) :=
        .substitute within fun name inner same => leads name inner (by simp [same])
      rw [List.flatMap_cons]
      refine front.append later ?_
      rintro last isLast next isNext param rfl bound
      obtain ⟨second, member, isSecond⟩ := exists_head_of_flatMap ownLater bound isNext
      obtain ⟨noCall, noParam⟩ := first _ isSecond second member rfl
      rw [substitute_of_not_mem noParam] at isLast
      cases isLast
      exact noCall

end

theorem expansion?_of_length {called : FunctionMacro} {args : List (List Token)}
    (complete : args.length = called.params.length)
    : expansion? called args
      = some (called.body.flatMap (substitute (called.params.zip args))) :=
  if_pos complete

/-- Inner calls are expanded alike, to what is within the macros that are led to. -/
theorem Replaced.expansion? {called other : FunctionMacro} {args args' : List (List Token)}
    (hygienic : IsHygienic scope bindings called) (leads : scope.Leads called other)
    (related : List.Forall₂ (Replaced scope bindings) args args')
    : (expansion? other args).Rel (Replaced scope bindings) (expansion? other args') := by
  by_cases complete : args.length = other.params.length
  · rw [expansion?_of_length complete,
      expansion?_of_length (related.length_eq.symm.trans complete)]
    exact .some (.flatMap_substitute complete related (hygienic.own leads))
  · unfold Reader.expansion?
    rw [← related.length_eq, if_neg complete, if_neg complete]
    exact .none

theorem IsWithin.expansion {called other : FunctionMacro} {args : List (List Token)}
    {tokens : List Token} (hygienic : IsHygienic scope bindings called)
    (leads : scope.Leads called other)
    (within : ∀ argument ∈ args, IsWithin scope bindings called argument)
    (expanded : Reader.expansion? other args = some tokens)
    : IsWithin scope bindings called tokens := by
  unfold Reader.expansion? at expanded
  split at expanded
  · cases expanded
    exact .flatMap_substitute within (fun name inner member => leads.call member)
      (hygienic.own leads) (hygienic.apart leads)
  · cases expanded

end Reader

end ApiBindings.Constant
