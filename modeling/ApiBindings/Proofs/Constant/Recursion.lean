import ApiBindings.Proofs.Constant.Expansions
import ApiBindings.Proofs.Constant.Termination

/-! Macros that call themselves.
A macro that has no value without a call of itself has none at all, be the call in its own body or
in that of a macro that it calls. That a macro is called is seen in a body: it is, if its name
stands outside of the arguments of other calls.
-/

namespace ApiBindings.Constant

namespace Reader

variable {scope : Scope} {tokens rest : List Token} {name : String}

-----------------------------------------------------------------------------------------
-- Macros that require each other
-----------------------------------------------------------------------------------------

/-- A call that reads a name as the call of a macro. -/
inductive IsCallOf (scope : Scope) (called : FunctionMacro) : Call → Prop
  | intro {depth name after} (free : scope.constant? name = none)
    (found : scope.macro? name = some called)
    : IsCallOf scope called ⟨depth, .primary, .name name :: after⟩

/-- A macro requires another one if no call of it has a value without a call of the other one. -/
def Requires (scope : Scope) (called other : FunctionMacro) : Prop :=
  ∀ call,
    IsCallOf scope called call
    → (answer scope call).isSome
    → ∃ callee, IsCallOf scope other callee ∧ Relation.TransGen (Calls scope) call callee

namespace Requires

variable {called other : FunctionMacro}

theorem trans {third : FunctionMacro} (first : Requires scope called other)
    (second : Requires scope other third)
    : Requires scope called third := by
  intro call isCall answered
  obtain ⟨callee, isCallee, reaches⟩ := first call isCall answered
  have also : (answer scope callee).isSome := by
    rw [Option.isSome_iff_ne_none] at answered ⊢
    exact fun refused => answered (Reaches.answer_eq_none reaches.to_reflTransGen refused)
  obtain ⟨last, isLast, further⟩ := second callee isCallee also
  exact ⟨last, isLast, reaches.trans further⟩

/-- A macro that requires itself has no value: a call with a value would need smaller ones without
end.
-/
theorem answer_eq_none (itself : Requires scope called called) {call : Call}
    (isCall : IsCallOf scope called call)
    : answer scope call = none := by
  induction call using (calls_wellFounded scope).transGen.induction with
  | h call ih =>
      by_contra answered
      obtain ⟨callee, isCallee, reaches⟩ :=
        itself call isCall (Option.isSome_iff_ne_none.mpr answered)
      have refused := ih callee (Relation.transGen_swap.mpr reaches) isCallee
      exact answered (Reaches.answer_eq_none reaches.to_reflTransGen refused)

end Requires

-----------------------------------------------------------------------------------------
-- Names outside of arguments
-----------------------------------------------------------------------------------------

/-- How many parentheses are open from that of arguments on, behind one that opens. It opens
arguments if a name stands in front.
-/
def openInside (inside : Nat) (named : Bool) : Nat :=
  if inside = 0 ∧ named = false then 0 else inside + 1

/-- The names that stand outside of arguments, if `inside` parentheses are open from that of
arguments on, and a name stands in front or not.
-/
def outerNames (inside : Nat) (named : Bool) : List Token → List String
  | [] => []
  | .name name :: rest =>
      if inside = 0 then name :: outerNames inside true rest else outerNames inside true rest
  | .opening :: rest => outerNames (openInside inside named) false rest
  | .closing :: rest => outerNames (inside - 1) false rest
  | _ :: rest => outerNames inside false rest

theorem openInside_mono {inside inside' : Nat} {named named' : Bool} (fewer : inside' ≤ inside)
    (follows : named' = true → named = true)
    : openInside inside' named' ≤ openInside inside named := by
  by_cases grouped : inside = 0 ∧ named = false
  · obtain ⟨rfl, rfl⟩ := grouped
    obtain rfl : inside' = 0 := Nat.le_zero.mp fewer
    obtain rfl : named' = false := by simpa using follows
    exact Nat.le_refl _
  · rw [openInside, openInside, if_neg grouped]
    split <;> omega

theorem openInside_le (inside : Nat) (named : Bool) : openInside inside named ≤ inside + 1 := by
  unfold openInside
  split <;> omega

theorem mem_outerNames_name {inside : Nat} {named : Bool} {own : String}
    : name ∈ outerNames inside named (.name own :: tokens)
      ↔ (inside = 0 ∧ name = own) ∨ name ∈ outerNames inside true tokens := by
  by_cases outside : inside = 0 <;> simp [outerNames, outside]

theorem mem_outerNames_name_of_le {tokens' : List Token} {inside inside' : Nat}
    {named named' : Bool} {own : String} (fewer : inside' ≤ inside)
    (later : name ∈ outerNames inside true tokens → name ∈ outerNames inside' true tokens')
    (outer : name ∈ outerNames inside named (.name own :: tokens))
    : name ∈ outerNames inside' named' (.name own :: tokens') := by
  rw [mem_outerNames_name] at outer ⊢
  exact outer.imp (fun ⟨outside, same⟩ => ⟨Nat.le_zero.mp (outside ▸ fewer), same⟩) later

/-- Fewer open parentheses leave more names outside. By induction on the tokens. -/
theorem outerNames_mono {inside inside' : Nat} {named named' : Bool} (fewer : inside' ≤ inside)
    (follows : named' = true → named = true) (outer : name ∈ outerNames inside named tokens)
    : name ∈ outerNames inside' named' tokens := by
  induction tokens generalizing inside inside' named named' with
  | nil => exact outer
  | cons token tokens ih =>
      cases token with
      | name own =>
          exact mem_outerNames_name_of_le fewer (ih fewer id) outer
      | opening => exact ih (openInside_mono fewer follows) id outer
      | closing => exact ih (Nat.sub_le_sub_right fewer 1) id outer
      | _ => exact ih fewer id outer

/-- Behind balanced tokens no more parentheses are open than before them. By induction on them. -/
theorem mem_outerNames_append_of_nest? {front : List Token} {base depth after inside : Nat}
    {named : Bool} (nests : nest? depth front = some after) (few : inside ≤ base + depth)
    (outer : name ∈ outerNames (base + after) true rest)
    : name ∈ outerNames inside named (front ++ rest) := by
  induction front generalizing depth inside named with
  | nil =>
      cases nests
      exact outerNames_mono few (fun _ => rfl) outer
  | cons token front ih =>
      rw [nest?, List.foldlM_cons] at nests
      obtain ⟨between, first, later⟩ := Option.bind_eq_some_iff.mp nests
      cases token with
      | name own =>
          cases first
          exact mem_outerNames_name.mpr (.inr (ih later few))
      | opening =>
          cases first
          exact ih later (Nat.le_trans (openInside_le inside named) (Nat.succ_le_succ few))
      | closing =>
          cases depth with
          | zero => cases first
          | succ depth =>
              cases first
              exact ih later (Nat.sub_le_of_le_add few)
      | comma =>
          obtain ⟨-, rfl⟩ : depth ≠ 0 ∧ depth = between := by simpa [nestToken?] using first
          exact ih later few
      | _ =>
          cases first
          exact ih later few

theorem IsBalanced.mem_outerNames_append {front : List Token} (balanced : IsBalanced front)
    {inside : Nat} {named : Bool} (outer : name ∈ outerNames inside true rest)
    : name ∈ outerNames inside named (front ++ rest) :=
  mem_outerNames_append_of_nest? (balanced 0) (Nat.le_refl inside) outer

/-- The arguments of a call are balanced, where the first one may close what is open already. -/
theorem isBalanced_of_argumentsAt? {nested : Nat} {args : List (List Token)}
    (split : argumentsAt? nested tokens = some (args, rest))
    : (∀ first ∈ args.head?, ∀ base, nest? (base + nested) first = some base)
      ∧ ∀ argument ∈ args.tail, IsBalanced argument := by
  induction tokens generalizing nested args with
  | nil => cases split
  | cons token tokens ih =>
      rcases argumentsAt?_cons_eq_some split with
        ⟨after, inner, nests, inside, rfl⟩ | ⟨rfl, rfl, rfl, rfl⟩ | ⟨rfl, rfl, inner, later, rfl⟩
      · obtain ⟨head, tail⟩ := ih inside
        obtain ⟨first, others, rfl⟩ := List.exists_cons_of_ne_nil (argumentsAt?_ne_nil inside)
        refine ⟨fun _ isFirst base => ?_, tail⟩
        cases isFirst
        have deeper : nestToken? (base + nested) token = some (base + after) := by
          cases base with
          | zero => simpa using nests
          | succ base => simpa [Nat.add_right_comm] using nestToken?_deeper base nests
        rw [nest?, List.foldlM_cons, deeper]
        exact head first rfl base
      · refine ⟨fun _ isFirst base => ?_, List.forall_mem_nil _⟩
        cases isFirst
        rfl
      · obtain ⟨head, tail⟩ := ih later
        obtain ⟨first, others, rfl⟩ := List.exists_cons_of_ne_nil (argumentsAt?_ne_nil later)
        refine ⟨fun _ isFirst base => ?_, List.forall_mem_cons.mpr ⟨head first rfl, tail⟩⟩
        cases isFirst
        rfl

theorem isBalanced_of_arguments? {args : List (List Token)}
    (split : arguments? tokens = some (args, rest))
    : ∀ argument ∈ args, IsBalanced argument := by
  obtain ⟨inside, parts, rfl, found, rfl⟩ := exists_of_arguments? split
  obtain ⟨head, tail⟩ := isBalanced_of_argumentsAt? found
  obtain ⟨first, others, rfl⟩ := List.exists_cons_of_ne_nil (argumentsAt?_ne_nil found)
  have all : ∀ argument ∈ first :: others, IsBalanced argument :=
    List.forall_mem_cons.mpr ⟨head first rfl, tail⟩
  exact fun argument member => all argument (given_subset _ member)

theorem IsBalanced.wrapped {argument : List Token} (balanced : IsBalanced argument)
    : IsBalanced (Reader.wrapped argument) := by
  unfold Reader.wrapped
  split
  · exact balanced
  · exact balanced.grouped

/-- A name that is no parameter stays outside of arguments where a macro is expanded. By induction
on the body.
-/
theorem outerNames_flatMap_substitute {bindings : List (String × List Token)}
    (balanced : ∀ param argument, bindings.lookup param = some argument → IsBalanced argument)
    (free : bindings.lookup name = none) {body : List Token} {inside inside' : Nat}
    {named named' : Bool} (fewer : inside' ≤ inside) (follows : named' = true → named = true)
    (outer : name ∈ outerNames inside named body)
    : name ∈ outerNames inside' named' (body.flatMap (substitute bindings)) := by
  induction body generalizing inside inside' named named' with
  | nil => cases outer
  | cons token body ih =>
      rw [List.flatMap_cons]
      cases token with
      | name own =>
          cases found : bindings.lookup own with
          | some argument =>
              rw [substitute_of_some found]
              refine (balanced own argument found).wrapped.mem_outerNames_append (ih fewer id ?_)
              rcases mem_outerNames_name.mp outer with ⟨-, rfl⟩ | behind
              · rw [free] at found
                cases found
              · exact behind
          | none =>
              rw [substitute_of_none found, List.singleton_append]
              exact mem_outerNames_name_of_le fewer (ih fewer id) outer
      | opening => exact ih (openInside_mono fewer follows) id outer
      | closing => exact ih (Nat.sub_le_sub_right fewer 1) id outer
      | _ => exact ih fewer id outer

-----------------------------------------------------------------------------------------
-- Names outside of arguments are called
-----------------------------------------------------------------------------------------

/-- A call of a macro is made while a call is answered. -/
def Invokes (scope : Scope) (other : FunctionMacro) (call : Call) : Prop :=
  ∃ callee, IsCallOf scope other callee ∧ Reaches scope call callee

theorem Invokes.of_calls {other : FunctionMacro} {call callee : Call}
    (made : Calls scope call callee) (invokes : Invokes scope other callee)
    : Invokes scope other call := by
  obtain ⟨last, isCall, reaches⟩ := invokes
  exact ⟨last, isCall, .head made reaches⟩

/-- No name of a type is that of a macro, so none of a macro stands in a cast. -/
theorem mem_outerNames_of_types {other : FunctionMacro} (found : scope.macro? name = some other)
    {types : List Token} (areTypes : ∀ token ∈ types, isTypeToken scope token = true)
    {named : Bool} (outer : name ∈ outerNames 0 named (types ++ .closing :: rest))
    : name ∈ outerNames 0 false rest := by
  induction types generalizing named with
  | nil => exact outer
  | cons token types ih =>
      obtain ⟨isType, others⟩ := List.forall_mem_cons.mp areTypes
      cases token with
      | name own =>
          rcases mem_outerNames_name.mp outer with ⟨-, rfl⟩ | behind
          · simp [isTypeToken, Scope.knows, found] at isType
          · exact ih others behind
      | op op => exact ih others outer
      | _ => cases isType

/-- The names outside of arguments that follow those of a call stand behind it. -/
theorem mem_outerNames_of_argumentsAt? {nested : Nat} {args : List (List Token)} {named : Bool}
    (split : argumentsAt? nested tokens = some (args, rest))
    (outer : name ∈ outerNames (nested + 1) named tokens)
    : name ∈ outerNames 0 false rest := by
  induction tokens generalizing nested args named with
  | nil => cases split
  | cons token tokens ih =>
      rcases argumentsAt?_cons_eq_some split with
        ⟨after, inner, nests, inside, rfl⟩ | ⟨rfl, rfl, rfl, rfl⟩ | ⟨rfl, rfl, inner, later, rfl⟩
      · cases token with
        | name own =>
            cases nests
            rcases mem_outerNames_name.mp outer with ⟨outside, -⟩ | behind
            · cases outside
            · exact ih inside behind
        | closing =>
            cases nested with
            | zero => cases nests
            | succ nested =>
                cases nests
                exact ih inside outer
        | comma =>
            obtain ⟨-, rfl⟩ : nested ≠ 0 ∧ nested = after := by simpa [nestToken?] using nests
            exact ih inside outer
        | _ =>
            cases nests
            exact ih inside outer
      · exact outer
      · exact ih later outer

/-- A macro is called where its name stands outside of arguments. By induction on the rules: what is
read has called it, or the name stands behind what is read.
-/
theorem Reads.invokes_or {other : FunctionMacro} (free : scope.constant? name = none)
    (found : scope.macro? name = some other) {depth : Nat} {phase : Phase} {expr : Expr}
    (reads : Reads scope (expandWithin scope (maxNesting - depth)) phase tokens expr rest)
    (outer : name ∈ outerNames 0 false tokens)
    : Invokes scope other ⟨depth, .read phase, tokens⟩ ∨ name ∈ outerNames 0 false rest := by
  induction reads with
  | expr first more firstIh moreIh =>
      have answered := read?_of_reads first
      rcases firstIh outer with invokes | behind
      · exact .inl (invokes.of_calls .now)
      · exact (moreIh behind).imp_left (.of_calls (.later answered .now))
  | stop ends => exact .inr outer
  | operator binds second more secondIh moreIh =>
      have answered := read?_of_reads second
      rcases secondIh outer with invokes | behind
      · refine .inl (invokes.of_calls ?_)
        simp only [Calls, body, operatorsBody, if_pos binds]
        exact .now
      · refine (moreIh behind).imp_left (.of_calls ?_)
        simp only [Calls, body, operatorsBody, if_pos binds]
        exact .later answered .now
  | negate operand ih => exact (ih outer).imp_left (.of_calls .now)
  | keep operand ih => exact (ih outer).imp_left (.of_calls .now)
  | complement operand ih => exact (ih outer).imp_left (.of_calls .now)
  | cast casts inner ih =>
      obtain ⟨types, next, later, rfl, areTypes, -, -, rfl⟩ := afterCast?_eq_some_iff.mp casts
      refine (ih (mem_outerNames_of_types found areTypes outer)).imp_left (.of_calls ?_)
      rw [Calls, body, operandBody, casts]
      exact .now
  | @grouped after expr rest plain inner ih =>
      refine (ih outer).imp_left fun invokes => ?_
      have primary : Invokes scope other ⟨depth, .primary, .opening :: after⟩ :=
        invokes.of_calls .now
      refine primary.of_calls ?_
      rw [Calls, body, operandBody, plain]
      exact .now
  | number => exact .inr outer
  | constant known =>
      rcases mem_outerNames_name.mp outer with ⟨-, rfl⟩ | behind
      · rw [free] at known
        cases known
      · exact .inr (outerNames_mono (Nat.le_refl 0) (fun no => absurd no Bool.false_ne_true) behind)
  | call isFree isFound split expanded =>
      rcases mem_outerNames_name.mp outer with ⟨-, rfl⟩ | behind
      · exact .inl ⟨_, .intro free found, .single .now⟩
      · obtain ⟨inside, parts, rfl, gathered, -⟩ := exists_of_arguments? split
        exact .inr (mem_outerNames_of_argumentsAt? gathered behind)

section

variable {called other : FunctionMacro} {depth : Nat}

/-- An expansion that has a value is read to its end, in a call one level deeper. -/
theorem reads_of_expandWithin {expr : Expr}
    (expanded : expandWithin scope (maxNesting - depth) tokens = some expr)
    : depth < maxNesting
      ∧ Reads scope (expandWithin scope (maxNesting - (depth + 1))) (.expr 0) tokens expr [] := by
  have more : depth < maxNesting := by
    by_contra full
    rw [Nat.sub_eq_zero_of_le (Nat.le_of_not_lt full)] at expanded
    cases expanded
  rw [expandWithin_eq_readAll? more, readAll?_eq_some_iff] at expanded
  exact ⟨more, expanded⟩

/-- The call of a macro that has a value has read all of what the macro stands for. -/
theorem IsCallOf.exists_reads {call : Call} (isCall : IsCallOf scope called call)
    (answered : (answer scope call).isSome)
    : ∃ depth args tokens expr,
        (∀ argument ∈ args, IsBalanced argument)
        ∧ expansion? called args = some tokens
        ∧ Reads scope (expandWithin scope (maxNesting - depth)) (.expr 0) tokens expr []
        ∧ Relation.TransGen (Calls scope) call ⟨depth, .read (.expr 0), tokens⟩ := by
  obtain @⟨depth, own, after, free, found⟩ := isCall
  obtain ⟨⟨whole, last⟩, ended⟩ := Option.isSome_iff_exists.mp answered
  rw [← outcome_body] at ended
  simp only [body, primaryBody, nameBody, free, found] at ended
  split at ended
  · rename_i inside isMacro
    cases isMacro
    rw [Body.outcome_asks_ends, answer_arguments_start] at ended
    obtain ⟨⟨args, behind⟩, split, value⟩ := Option.bind_eq_some_iff.mp ended
    obtain ⟨expr, value, -⟩ := Option.map_eq_some_iff.mp value
    obtain ⟨tokens, expansion, expanded⟩ := Option.bind_eq_some_iff.mp value
    obtain ⟨more, reads⟩ := reads_of_expandWithin expanded
    refine ⟨depth + 1, args, tokens, expr, isBalanced_of_arguments? split, expansion, reads, ?_⟩
    obtain ⟨_, parts, shape, gathered, rfl⟩ := exists_of_arguments? split
    cases shape
    have start : Calls scope ⟨depth, .primary, .name own :: .opening :: inside⟩
        ⟨depth, .arguments called .start, inside⟩ := by
      simp only [Calls, body, primaryBody, nameBody, free, found]
      exact .now
    have loop : Reaches scope ⟨depth, .arguments called .start, inside⟩
        ⟨depth, .expansion called (given parts), behind⟩ := by
      rw [← Gathered.join_start (argumentsAt?_ne_nil gathered)]
      exact reaches_expansion gathered
    have expands : Calls scope ⟨depth, .expansion called (given parts), behind⟩
        ⟨depth + 1, .read (.expr 0), tokens⟩ := by
      simp only [Calls, body, expansionBody, if_pos more, expansion]
      exact .now
    exact .head' start (loop.tail expands)
  · cases ended

/-- A name that is no parameter stays outside of arguments in an expansion. -/
theorem mem_outerNames_of_expansion? {args : List (List Token)}
    (balanced : ∀ argument ∈ args, IsBalanced argument)
    (expansion : expansion? called args = some tokens) (noParam : name ∉ called.params)
    (outer : name ∈ outerNames 0 false called.body)
    : name ∈ outerNames 0 false tokens := by
  unfold expansion? at expansion
  split at expansion
  · cases expansion
    refine outerNames_flatMap_substitute (fun param argument bound => ?_) ?_ (Nat.le_refl 0) id
      outer
    · exact balanced argument (mem_of_lookup_zip bound).2
    · rw [Option.eq_none_iff_forall_ne_some]
      exact fun argument bound => noParam (mem_of_lookup_zip bound).1
  · cases expansion

/-- A macro requires those whose names stand outside of arguments in its body. -/
theorem requires_of_outerName (free : scope.constant? name = none)
    (found : scope.macro? name = some other) (noParam : name ∉ called.params)
    (outer : name ∈ outerNames 0 false called.body)
    : Requires scope called other := by
  intro call isCall answered
  obtain ⟨depth, args, tokens, expr, balanced, expansion, reads, reaches⟩ :=
    isCall.exists_reads answered
  have stays := mem_outerNames_of_expansion? balanced expansion noParam outer
  rcases reads.invokes_or free found stays with ⟨callee, isCallee, further⟩ | behind
  · exact ⟨callee, isCallee, reaches.trans_left further⟩
  · exact nomatch behind

end

/-- The name of a macro stands outside of arguments in the body of another one, and is no parameter
there.
-/
def Mentions (scope : Scope) (called other : FunctionMacro) : Prop :=
  ∃ name,
    scope.constant? name = none
    ∧ scope.macro? name = some other
    ∧ name ∉ called.params
    ∧ name ∈ outerNames 0 false called.body

/-- A macro requires those that it mentions, those that these mention, and so on. -/
theorem requires_of_mentions {called other : FunctionMacro}
    (mentions : Relation.TransGen (Mentions scope) called other)
    : Requires scope called other := by
  induction mentions with
  | single mentioned =>
      obtain ⟨name, free, found, noParam, outer⟩ := mentioned
      exact requires_of_outerName free found noParam outer
  | tail _ mentioned ih =>
      obtain ⟨name, free, found, noParam, outer⟩ := mentioned
      exact ih.trans (requires_of_outerName free found noParam outer)

end Reader

namespace Scope

open Reader

variable {scope : Scope}

-----------------------------------------------------------------------------------------
-- Texts
-----------------------------------------------------------------------------------------

theorem eval?_eq_answer (scope : Scope) (text : List Char)
    : scope.eval? text
      = (Token.tokens? text).bind fun tokens =>
          (answer scope (.start tokens)).bind fun (expr, rest) =>
            if rest = [] then expr.value? else none := by
  refine Option.bind_congr fun tokens _ => ?_
  rw [Option.bind_eq_bind, readNested?_eq, readAll?_eq_read?, Option.bind_assoc]
  refine Option.bind_congr fun (expr, rest) _ => ?_
  by_cases whole : rest = [] <;> simp [whole]

/-- A text has no value if a macro that requires itself is called for it. -/
theorem eval?_eq_none_of_invokes {called : FunctionMacro} {text : List Char} {tokens : List Token}
    (itself : Requires scope called called) (split : Token.tokens? text = some tokens)
    (invokes : Invokes scope called (.start tokens))
    : scope.eval? text = none := by
  obtain ⟨callee, isCall, reaches⟩ := invokes
  rw [eval?_eq_answer, split, Option.bind_some,
    reaches.answer_eq_none (itself.answer_eq_none isCall), Option.bind_none]

theorem eval?_eq_none_of_outerName {called : FunctionMacro} {name : String} {text : List Char}
    {tokens : List Token} (itself : Requires scope called called)
    (free : scope.constant? name = none) (found : scope.macro? name = some called)
    (split : Token.tokens? text = some tokens) (outer : name ∈ outerNames 0 false tokens)
    : scope.eval? text = none := by
  by_contra some
  obtain ⟨value, evaluated⟩ := Option.ne_none_iff_exists'.mp some
  rw [eval?, split, Option.bind_eq_bind, Option.bind_some, readNested?_eq] at evaluated
  obtain ⟨expr, read, -⟩ := Option.bind_eq_some_iff.mp evaluated
  have reads : Reads scope (expandWithin scope (maxNesting - 0)) (.expr 0) tokens expr [] :=
    readAll?_eq_some_iff.mp read
  rcases reads.invokes_or free found outer with invokes | behind
  · exact some (eval?_eq_none_of_invokes itself split invokes)
  · exact nomatch behind

/-- How the texts of a scope are read, whatever its macros are. -/
structure Terminates (scope : Scope) : Prop where
  /-- The value of a text is that of the tree which its first call reads. -/
  evaluated
    : ∀ text,
        scope.eval? text
          = (Token.tokens? text).bind fun tokens =>
              (answer scope (.start tokens)).bind fun (expr, rest) =>
                if rest = [] then expr.value? else none
  /-- The answer to a call is what its body makes of the answers to the calls that it makes. -/
  answered : ∀ call, (body scope call).outcome (answer scope) = answer scope call
  /-- There is no other way to answer all calls. -/
  unique
    : ∀ {answers : Answers},
        (∀ call, (body scope call).outcome answers = answers call) → answers = answer scope
  /-- A call has more levels of expansions left than the calls that it makes, or as many and more
  tokens to read, or as many of both and it asks for more.
  -/
  smaller : ∀ {call callee}, Calls scope call callee → callee.Smaller call
  wellFounded : WellFounded fun callee call => Calls scope call callee
  /-- No expansion is nested deeper than allowed. -/
  bounded : ∀ {tokens callee}, Reaches scope (.start tokens) callee → callee.depth ≤ maxNesting
  /-- A turn of the loop over arguments takes one token. -/
  turn
    : ∀ {depth called gathered tokens callee},
        Calls scope ⟨depth, .arguments called gathered, tokens⟩ callee
        → callee.depth = depth ∧ ∃ token, tokens = token :: callee.unread
  /-- The call of a macro has no value if none has one without another call of the same macro. -/
  recursive
    : ∀ {called call},
        Requires scope called called → IsCallOf scope called call → answer scope call = none
  /-- Neither has a text that such a macro is called for. -/
  recursiveText
    : ∀ {called text tokens},
        Requires scope called called
        → Token.tokens? text = some tokens
        → Invokes scope called (.start tokens)
        → scope.eval? text = none
  /-- Nor has one in which the name of such a macro stands outside of arguments. -/
  mentioned
    : ∀ {called name text tokens},
        Requires scope called called
        → scope.constant? name = none
        → scope.macro? name = some called
        → Token.tokens? text = some tokens
        → name ∈ outerNames 0 false tokens
        → scope.eval? text = none
  /-- Macros that mention each other in a circle are such macros. -/
  circular
    : ∀ {called},
        Relation.TransGen (Mentions scope) called called → Requires scope called called

theorem terminates (scope : Scope) : scope.Terminates where
  evaluated := eval?_eq_answer scope
  answered := outcome_body
  unique := answer_unique
  smaller made := made.shrinks.smaller
  wellFounded := calls_wellFounded scope
  bounded reaches := reaches.depth_le (Nat.zero_le _)
  turn made := only_argumentsBody _ _ _ made
  recursive itself := itself.answer_eq_none
  recursiveText := eval?_eq_none_of_invokes
  mentioned := eval?_eq_none_of_outerName
  circular := requires_of_mentions

/-- A macro that adds one to what another one makes of its argument. -/
def pingMacro : FunctionMacro where
  params := ["x"]
  body := [.number 1 false, .op .add, .name "PONG", .opening, .name "x", .closing]

/-- The other one, which asks the first one. -/
def pongMacro : FunctionMacro where
  params := ["y"]
  body := [.opening, .name "PING", .opening, .name "y", .closing, .closing]

/-- A scope with two macros that call each other. -/
def pingPong : Scope where
  constants := []
  macros := [("PING", pingMacro), ("PONG", pongMacro)]

theorem pingPong_eval?_eq_none
    : Relation.TransGen (Mentions pingPong) pingMacro pingMacro
      ∧ pingPong.eval? "2 * PONG(7)".toList = none := by
  have pong : Mentions pingPong pingMacro pongMacro := ⟨"PONG", by decide +kernel⟩
  have ping : Mentions pingPong pongMacro pingMacro := ⟨"PING", by decide +kernel⟩
  have split
      : Token.tokens? "2 * PONG(7)".toList
        = some [.number 2 false, .op .mul, .name "PONG", .opening, .number 7 false, .closing] := by
    decide +kernel
  have found : pingPong.macro? "PONG" = some pongMacro := rfl
  refine ⟨.tail (.single pong) ping, ?_⟩
  have itself := pingPong.terminates.circular (.tail (.single ping) pong)
  exact pingPong.terminates.mentioned itself rfl found split (by decide +kernel)

end Scope

end ApiBindings.Constant
