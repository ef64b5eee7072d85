import ApiBindings.Proofs.Constant.Lexemes
import ApiBindings.Proofs.Constant.Substitution

/-! Calls of macros have the values of their bodies.
The arguments of a call are evaluated in the scope of the call, and the body where its parameters
are constants that have their values.
-/

namespace ApiBindings.Constant

/-- The text of a call. -/
def callText (name : List Char) (args : List (List Char)) : List Char :=
  name ++ '(' :: List.intercalate [',', ' '] args ++ [')']

/-- The value of a text if expansions of macros may be nested `budget` times in each other. -/
def Scope.evalWithin? (scope : Scope) (budget : Nat) (text : List Char) : Option Value := do
  let tokens ← Token.tokens? text
  let expr ← Reader.readNested? scope budget tokens
  expr.value?

/-- The limit of nested expansions does not matter to the value of a text. -/
def Scope.IsWithinLimit (scope : Scope) (text : List Char) : Prop :=
  ∀ budget, maxNesting ≤ budget → scope.evalWithin? budget text = scope.eval? text

-----------------------------------------------------------------------------------------
-- The tokens of a call
-----------------------------------------------------------------------------------------

variable {args : List (List Char)} {split : List (List Token)}

theorem endsToken_comma (back : List Char) : Token.EndsToken (',' :: back) :=
  ⟨by decide, by decide, by decide⟩

theorem endsToken_opening (back : List Char) : Token.EndsToken ('(' :: back) :=
  ⟨by decide, by decide, by decide⟩

theorem endsToken_closing (back : List Char) : Token.EndsToken (')' :: back) :=
  ⟨by decide, by decide, by decide⟩

theorem tokens?_cons_of_sign? {text later : List Char} {c : Char} {token : Token}
    (noGap : Token.isGap c = false) (noDigit : c.isDigit = false)
    (noName : Text.isNameStart c = false) (sign : Token.sign? (c :: text) = some (token, later))
    : Token.tokens? (c :: text) = (Token.tokens? later).map (token :: ·) := by
  rw [Token.tokens?]
  simp only [noGap, noDigit, noName, Bool.false_eq_true, if_false]
  split
  · rename_i found
    rw [sign] at found
    cases found
    rfl
  · rename_i missing
    rw [sign] at missing
    cases missing

theorem tokens?_intercalate
    (read : List.Forall₂ (fun arg tokens => Token.tokens? arg = some tokens) args split)
    : Token.tokens? (List.intercalate [',', ' '] args)
      = some (List.intercalate [.comma] split) := by
  induction read with
  | nil => simp [Token.tokens?]
  | @cons arg tokens args split first others ih =>
      cases others with
      | nil => simpa using first
      | cons second others =>
          rw [List.intercalate_cons_cons, List.intercalate_cons_cons, List.append_assoc,
            List.cons_append, List.cons_append, List.nil_append,
            Token.tokens?_append (endsToken_comma _), first, Option.bind_some,
            tokens?_cons_of_sign? rfl rfl rfl rfl, Token.tokens?_cons_of_isGap rfl, ih]
          simp

theorem tokens?_callText (name : Identifier)
    (read : List.Forall₂ (fun arg tokens => Token.tokens? arg = some tokens) args split)
    : Token.tokens? (callText name.text args)
      = some (.name name.name :: .opening :: (List.intercalate [.comma] split ++ [.closing])) := by
  have closing : Token.tokens? [')'] = some [.closing] := by
    rw [tokens?_cons_of_sign? rfl rfl rfl rfl, Token.tokens?]
    rfl
  rw [callText, List.append_assoc, List.cons_append, Token.tokens?_append (endsToken_opening _),
    name.tokens?_text, Option.bind_some, tokens?_cons_of_sign? rfl rfl rfl rfl,
    Token.tokens?_append (endsToken_closing _), tokens?_intercalate read, Option.bind_some, closing]
  rfl

namespace Reader

/-- The arguments of a call are what stands between its commas. -/
theorem argumentsAt?_intercalate (nonempty : split ≠ [])
    (balanced : ∀ tokens ∈ split, IsBalanced tokens) (rest : List Token)
    : argumentsAt? 0 (List.intercalate [.comma] split ++ .closing :: rest)
      = some (split, rest) := by
  induction split with
  | nil => exact absurd rfl nonempty
  | cons tokens others ih =>
      obtain ⟨first, later⟩ := List.forall_mem_cons.mp balanced
      cases others with
      | nil =>
          rw [List.intercalate_singleton, argumentsAt?_append_of_nest? (first 0)]
          simp [argumentsAt?, foldr_intoFirst_cons]
      | cons second others =>
          rw [List.intercalate_cons_cons, List.append_assoc, List.append_assoc,
            argumentsAt?_append_of_nest? (first 0), List.cons_append, List.nil_append,
            argumentsAt?, ih (List.cons_ne_nil _ _) later]
          simp [foldr_intoFirst_cons]

theorem arguments?_intercalate
    (expressions : ∀ tokens ∈ split, tokens ≠ [] ∧ IsBalanced tokens)
    : arguments? (.opening :: (List.intercalate [.comma] split ++ [.closing]))
      = some (split, []) := by
  cases split with
  | nil => rfl
  | cons tokens others =>
      have balanced : ∀ part ∈ tokens :: others, IsBalanced part := fun part member =>
        (expressions part member).2
      have nonempty : tokens ≠ [] := (expressions tokens List.mem_cons_self).1
      rw [arguments?, argumentsAt?_intercalate (List.cons_ne_nil _ _) balanced]
      simp [nonempty]

variable {scope : Scope} {name : String} {called : FunctionMacro} {after tokens : List Token}
  {parts : List (List Token)}

/-- A call is read as what it is expanded to. -/
theorem readNested?_call (free : scope.constant? name = none)
    (found : scope.macro? name = some called) (isSplit : arguments? after = some (parts, []))
    (expanded : expansion? called parts = some tokens) (budget : Nat)
    : readNested? scope (budget + 1) (.name name :: after) = readNested? scope budget tokens := by
  ext expr
  rw [readNested?_eq, readAll?_eq_some_iff]
  constructor
  · intro reads
    cases reads with
    | expr first more =>
        cases first with
        | constant known =>
            rw [free] at known
            cases known
        | call _ found' isSplit' expanded' =>
            rw [found] at found'
            rw [isSplit] at isSplit'
            cases found'
            cases isSplit'
            rw [expanded] at expanded'
            cases more
            exact expanded'
  · intro read
    refine .expr (.call free found isSplit ?_) (.stop rfl)
    rw [expanded]
    exact read

end Reader

-----------------------------------------------------------------------------------------
-- The value of a call
-----------------------------------------------------------------------------------------

open Reader

variable {scope : Scope} {called : FunctionMacro} {values : List Value}

/-- What a text has a value by. -/
theorem Scope.exists_denotes {text : List Char} {value : Value}
    (evaluated : scope.eval? text = some value)
    : ∃ tokens, Token.tokens? text = some tokens ∧ Denotes scope tokens value.bits := by
  obtain ⟨tokens, split, more⟩ := Option.bind_eq_some_iff.mp evaluated
  obtain ⟨expr, read, valued⟩ := Option.bind_eq_some_iff.mp more
  obtain ⟨bits, found, rfl⟩ := Option.map_eq_some_iff.mp valued
  exact ⟨tokens, split, expr, read, found⟩

theorem exists_split
    (evaluated : List.Forall₂ (fun arg value => scope.eval? arg = some value) args values)
    : ∃ split,
        List.Forall₂ (fun arg tokens => Token.tokens? arg = some tokens) args split
        ∧ List.Forall₂ (fun value tokens => Denotes scope tokens value.bits) values split := by
  induction evaluated with
  | nil => exact ⟨[], .nil, .nil⟩
  | cons first _ ih =>
      obtain ⟨tokens, read, denotes⟩ := Scope.exists_denotes first
      obtain ⟨split, reads, all⟩ := ih
      exact ⟨tokens :: split, .cons read reads, .cons denotes all⟩

theorem Reader.Denotes.isExpression {tokens : List Token} {bits : BitVec 64}
    (denotes : Denotes scope tokens bits)
    : tokens ≠ [] ∧ IsBalanced tokens := by
  obtain ⟨expr, read, -⟩ := denotes
  rw [readNested?_eq, readAll?_eq_some_iff] at read
  obtain ⟨front, rfl, balanced⟩ := read.exists_isBalanced
  obtain ⟨head, later, shape, -⟩ := read.exists_head
  exact ⟨by simp [shape], by simpa using balanced⟩

theorem isExpression_of_denotes
    (denotes : List.Forall₂ (fun value tokens => Denotes scope tokens value.bits) values split)
    : ∀ tokens ∈ split, tokens ≠ [] ∧ IsBalanced tokens := by
  induction denotes with
  | nil => exact List.forall_mem_nil _
  | cons first _ ih => exact List.forall_mem_cons.mpr ⟨first.isExpression, ih⟩

/-- A body and what becomes of it in a call. -/
theorem replaced_body
    (denotes : List.Forall₂ (fun value tokens => Denotes scope tokens value.bits) values split)
    (params : List String) (body : List Token)
    : Replaced scope (params.zip values) body (body.flatMap (substitute (params.zip split))) := by
  induction body with
  | nil => exact .nil
  | cons token body ih =>
      rw [List.flatMap_cons]
      cases token with
      | name name =>
          rcases rel_cases (rel_lookup_zip denotes params name) with
            ⟨free, free'⟩ | ⟨value, tokens, bound, found, denotes⟩
          · rw [substitute_of_none free']
            refine .same ?_ ih
            rintro _ ⟨⟩
            exact free
          · rw [substitute_of_some found]
            exact .parameter bound denotes ih
      | _ => exact .cons rfl ih

theorem isWithin_body (apart : called.IsApart scope) (values : List Value)
    : IsWithin scope (called.params.zip values) called called.body where
  apart := apart.imp fun first second apart param isParam bound => by
    obtain ⟨value, found⟩ := Option.isSome_iff_exists.mp bound
    exact (apart param (mem_of_lookup_zip found).1 isParam).1
  leads name inner member found := .call .self member found

theorem map_bits_evalWithin? {text : List Char} {tokens : List Token}
    (split : Token.tokens? text = some tokens) (budget : Nat)
    : (scope.evalWithin? budget text).map Value.bits
      = (readNested? scope budget tokens).bind Expr.eval? := by
  rw [Scope.evalWithin?, split, Option.bind_eq_bind, Option.bind_some, Option.bind_eq_bind,
    Option.map_bind]
  refine congrArg _ (funext fun expr => ?_)
  rw [Function.comp, Expr.value?, Option.map_map]
  exact Option.map_id'

theorem map_bits_eval? {text : List Char} {tokens : List Token}
    (split : Token.tokens? text = some tokens)
    : (scope.eval? text).map Value.bits
      = (readNested? scope maxNesting tokens).bind Expr.eval? :=
  map_bits_evalWithin? split maxNesting

/-- The bits of a text are those of what it is read to, if the limit does not matter. -/
theorem Scope.IsWithinLimit.map_bits_eval? {text : List Char} {tokens : List Token}
    (unlimited : scope.IsWithinLimit text) (split : Token.tokens? text = some tokens)
    {budget : Nat} (enough : maxNesting ≤ budget)
    : (scope.eval? text).map Value.bits = (readNested? scope budget tokens).bind Expr.eval? := by
  rw [← unlimited budget enough, map_bits_evalWithin? split]

/-- A call has the bits of the body where each parameter is a constant that has the value of its
argument, provided that a parameter means nothing else in the bodies that the macro leads to, and
that it does not stand directly behind the name of a macro there.
-/
theorem Scope.eval?_call {name : Identifier} {body : List Char}
    (found : scope.macro? name.name = some called) (free : scope.constant? name.name = none)
    (spelled : Token.tokens? body = some called.body)
    (own
      : ∀ other,
          scope.Leads called other
          → ∀ param ∈ called.params, .name param ∈ other.body → param ∈ other.params)
    (apart : ∀ other, scope.Leads called other → other.IsApart scope)
    (complete : args.length = called.params.length)
    (evaluated : List.Forall₂ (fun arg value => scope.eval? arg = some value) args values)
    (unlimited : scope.IsWithinLimit (callText name.text args))
    : (scope.eval? (callText name.text args)).map Value.bits
      = ((scope.bind (called.params.zip values)).eval? body).map Value.bits := by
  obtain ⟨split, read, denotes⟩ := exists_split evaluated
  have tokens := tokens?_callText name read
  have within := isWithin_body (apart called .self) values
  have related := replaced_body denotes called.params called.body
  have hygienic : IsHygienic scope (called.params.zip values) called := {
    own := fun leads name member bound => by
      obtain ⟨value, found⟩ := Option.isSome_iff_exists.mp bound
      exact own _ leads name (mem_of_lookup_zip found).1 member
    apart := fun leads => apart _ leads
  }
  have arguments := arguments?_intercalate (isExpression_of_denotes denotes)
  have expanded := expansion?_of_length (read.length_eq.symm.trans complete)
  have calls := readNested?_call free found arguments expanded
  rw [map_bits_eval? spelled]
  ext bits
  constructor
  · intro value
    rw [map_bits_eval? tokens] at value
    obtain ⟨expr, read, bits⟩ := Option.bind_eq_some_iff.mp value
    rw [show maxNesting = 31 + 1 from rfl, calls] at read
    obtain ⟨expr', read', same⟩ :=
      readNested?_restore (by decide) hygienic within related read
    have deeper
        : expandWithin (scope.bind (called.params.zip values)) (maxNesting + 1) called.body
          = some expr' :=
      expandWithin_succ read'
    exact Option.bind_eq_some_iff.mpr ⟨expr', deeper, same.trans bits⟩
  · intro value
    obtain ⟨expr, read, bits⟩ := Option.bind_eq_some_iff.mp value
    obtain ⟨expr', read', same⟩ := readNested?_replace hygienic within related read
    rw [← calls] at read'
    rw [unlimited.map_bits_eval? tokens (Nat.le_add_right maxNesting (maxNesting + 1))]
    exact Option.bind_eq_some_iff.mpr ⟨expr', read', same.trans bits⟩

-----------------------------------------------------------------------------------------
-- Concrete calls
-----------------------------------------------------------------------------------------

/-- A text that has a value keeps it if expansions may be nested deeper. -/
theorem Scope.isWithinLimit_of_some {text : List Char} {value : Value}
    (evaluated : scope.eval? text = some value)
    : scope.IsWithinLimit text := by
  intro budget enough
  rw [evaluated]
  obtain ⟨tokens, split, more⟩ := Option.bind_eq_some_iff.mp evaluated
  obtain ⟨expr, read, valued⟩ := Option.bind_eq_some_iff.mp more
  have deeper : expandWithin scope (budget + 1) tokens = some expr :=
    expandWithin_mono (Nat.succ_le_succ enough) read
  rw [evalWithin?, split, Option.bind_eq_bind, Option.bind_some]
  exact Option.bind_eq_some_iff.mpr ⟨expr, deeper, valued⟩

theorem Scope.mem_of_macro? {name : String} (found : scope.macro? name = some called)
    : (name, called) ∈ scope.macros := by
  obtain ⟨front, back, shape, -⟩ := List.lookup_eq_some_iff.mp found
  simp [shape]

/-- What holds of all macros of a scope holds of those that one of them leads to. -/
theorem Scope.forall_leads {P : FunctionMacro → Prop} {name : String}
    (found : scope.macro? name = some called) (all : ∀ entry ∈ scope.macros, P entry.2)
    : ∀ other, scope.Leads called other → P other := by
  intro other leads
  cases leads with
  | self => exact all _ (mem_of_macro? found)
  | call _ _ found => exact all _ (mem_of_macro? found)

def letterM : Identifier where
  first := 'M'
  rest := []
  starts := rfl
  goesOn := by simp

/-- A macro that passes a parameter on to another one. -/
def passingMacro : Scope where
  constants := []
  macros := [
    ("M", {
      params := ["x", "y"]
      body := [.name "N", .opening, .name "x", .closing, .op .mul, .name "y"]
    }),
    ("N", { params := ["z"], body := [.name "z", .op .add, .number 1 false] })
  ]

theorem passingMacro_eval?_call
    : (passingMacro.eval? (callText letterM.text ["1 + 2".toList, "N(3)".toList])).map Value.bits
      = ((passingMacro.bind
            (["x", "y"].zip [{ bits := 3, width := .narrow }, { bits := 4, width := .narrow }])).eval?
          "N(x) * y".toList).map Value.bits := by
  have found
      : passingMacro.macro? letterM.name
        = some {
          params := ["x", "y"]
          body := [.name "N", .opening, .name "x", .closing, .op .mul, .name "y"]
        } := by
    decide
  have value
      : passingMacro.eval? (callText letterM.text ["1 + 2".toList, "N(3)".toList])
        = some { bits := 16, width := .narrow } := by
    decide +kernel
  refine Scope.eval?_call found rfl (by decide +kernel) ?_ ?_ rfl (.cons (by decide +kernel) (.cons (by decide +kernel) .nil))
    (Scope.isWithinLimit_of_some value)
  · exact Scope.forall_leads found (by decide)
  · exact Scope.forall_leads found (by decide)

-----------------------------------------------------------------------------------------
-- Calls that do not have the values of their bodies
-----------------------------------------------------------------------------------------

/-- Every call has the bits of the body where the parameters are constants that have the values of
the arguments, whatever else the name of the macro stands for, and wherever parameters stand.
-/
def Scope.CallsByValue (scope : Scope) : Prop :=
  ∀ (name : Identifier) (called : FunctionMacro) (body : List Char) (args : List (List Char))
    (values : List Value),
    scope.macro? name.name = some called
    → Token.tokens? body = some called.body
    → called.params.Nodup
    → (∀ param ∈ called.params, scope.knows param = false)
    → (∀ entry ∈ scope.macros,
        entry.1 ≠ name.name
        → ∀ param ∈ called.params, param ∉ entry.2.params ∧ .name param ∉ entry.2.body)
    → args.length = called.params.length
    → List.Forall₂ (fun arg value => scope.eval? arg = some value) args values
    → scope.IsWithinLimit (callText name.text args)
    → (scope.eval? (callText name.text args)).map Value.bits
      = ((scope.bind (called.params.zip values)).eval? body).map Value.bits

/-- What is called is not a constant. -/
theorem Scope.evalWithin?_callText_of_constant {name : Identifier} {value : Value}
    (known : scope.constant? name.name = some value)
    (read : List.Forall₂ (fun arg tokens => Token.tokens? arg = some tokens) args split)
    (budget : Nat)
    : scope.evalWithin? budget (callText name.text args) = none := by
  rw [evalWithin?, tokens?_callText name read, Option.bind_eq_bind, Option.bind_some,
    Option.bind_eq_bind, Option.bind_eq_none_iff]
  intro expr reads
  rw [readNested?_eq, readAll?_eq_some_iff] at reads
  cases reads with
  | expr first more =>
      cases first with
      | constant => cases more
      | call free =>
          rw [known] at free
          cases free

/-- A macro that has the name of a constant. -/
def hiddenMacro : Scope where
  constants := [("M", { bits := 1, width := .narrow })]
  macros := [("M", { params := ["x"], body := [.name "x"] })]

/-- A macro that puts its argument directly behind the name of another one. -/
def adjoiningMacro : Scope where
  constants := []
  macros := [
    ("M", { params := ["x"], body := [.name "N", .name "x"] }),
    ("N", { params := ["y"], body := [.name "y"] })
  ]

/-- A macro that passes the name of a macro on to one that puts its arguments side by side. -/
def pairingMacro : Scope where
  constants := []
  macros := [
    ("M", {
      params := ["x"]
      body := [.name "K", .opening, .name "N", .comma, .name "x", .closing]
    }),
    ("K", { params := ["y", "z"], body := [.name "y", .name "z"] }),
    ("N", { params := ["w"], body := [.name "w"] })
  ]

theorem hiddenMacro_not_callsByValue : ¬hiddenMacro.CallsByValue := by
  intro byValue
  have split : List.Forall₂ (fun arg tokens => Token.tokens? arg = some tokens) ["2".toList]
      [[.number 2 false]] := .cons (by decide +kernel) .nil
  have unread (budget : Nat)
      : hiddenMacro.evalWithin? budget (callText letterM.text ["2".toList]) = none :=
    Scope.evalWithin?_callText_of_constant rfl split budget
  have same := byValue letterM { params := ["x"], body := [.name "x"] } "x".toList ["2".toList]
    [{ bits := 2, width := .narrow }] rfl (by decide +kernel) (by decide) (by decide) (by decide) rfl
    (.cons (by decide +kernel) .nil) fun budget _ => (unread budget).trans (unread maxNesting).symm
  have body
      : (hiddenMacro.bind (["x"].zip [{ bits := 2, width := .narrow }])).eval? "x".toList
        = some { bits := 2, width := .narrow } := by
    decide +kernel
  rw [body, show hiddenMacro.eval? _ = none from unread maxNesting] at same
  cases same

theorem adjoiningMacro_not_callsByValue : ¬adjoiningMacro.CallsByValue := by
  intro byValue
  have call
      : adjoiningMacro.eval? (callText letterM.text ["1 + 2".toList])
        = some { bits := 3, width := .narrow } := by
    decide +kernel
  have same := byValue letterM { params := ["x"], body := [.name "N", .name "x"] } "N x".toList
    ["1 + 2".toList] [{ bits := 3, width := .narrow }] rfl (by decide +kernel) (by decide) (by decide)
    (by decide) rfl (.cons (by decide +kernel) .nil) (Scope.isWithinLimit_of_some call)
  have body
      : (adjoiningMacro.bind (["x"].zip [{ bits := 3, width := .narrow }])).eval? "N x".toList
        = none := by
    decide +kernel
  rw [body, call] at same
  cases same

theorem pairingMacro_not_callsByValue : ¬pairingMacro.CallsByValue := by
  intro byValue
  have call
      : pairingMacro.eval? (callText letterM.text ["1 + 2".toList])
        = some { bits := 3, width := .narrow } := by
    decide +kernel
  have same := byValue letterM
    { params := ["x"], body := [.name "K", .opening, .name "N", .comma, .name "x", .closing] }
    "K(N, x)".toList ["1 + 2".toList] [{ bits := 3, width := .narrow }] rfl (by decide +kernel) (by decide)
    (by decide) (by decide) rfl (.cons (by decide +kernel) .nil) (Scope.isWithinLimit_of_some call)
  have body
      : (pairingMacro.bind (["x"].zip [{ bits := 3, width := .narrow }])).eval? "K(N, x)".toList
        = none := by
    decide +kernel
  rw [body, call] at same
  cases same

theorem not_callsByValue
    : ¬hiddenMacro.CallsByValue ∧ ¬adjoiningMacro.CallsByValue ∧ ¬pairingMacro.CallsByValue :=
  ⟨hiddenMacro_not_callsByValue, adjoiningMacro_not_callsByValue, pairingMacro_not_callsByValue⟩

end ApiBindings.Constant
