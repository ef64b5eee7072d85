import ApiBindings.Proofs.Constant.Contexts
import Mathlib.Logic.Relation

/-! The calls that the reader of constant expressions makes of itself.
The body of a call says how it goes on from the answers to the calls that it makes. It knows of no
bound but the one on nested expansions. The reader's answers are those that the bodies give.
-/

namespace ApiBindings.Constant.Reader

-----------------------------------------------------------------------------------------
-- Calls
-----------------------------------------------------------------------------------------

/-- The arguments of a call as far as they are read: how many parentheses are open in the last one,
those that are complete, and the last one.
-/
structure Gathered where
  nested : Nat
  complete : List (List Token)
  last : List Token

namespace Gathered

def start : Gathered where
  nested := 0
  complete := []
  last := []

/-- What is read behind one more token, unless this is the parenthesis that ends the call. -/
def take? (gathered : Gathered) (token : Token) : Option Gathered :=
  match nestToken? gathered.nested token with
  | some nested => some { gathered with nested := nested, last := gathered.last ++ [token] }
  | none =>
      if token = .comma then
        some { nested := 0, complete := gathered.complete ++ [gathered.last], last := [] }
      else
        none

/-- The arguments that these become with those in the tokens that follow. -/
def join (gathered : Gathered) : List (List Token) → List (List Token)
  | [] => gathered.complete ++ [gathered.last]
  | first :: others => gathered.complete ++ (gathered.last ++ first) :: others

end Gathered

/-- What a call of the reader has to do. -/
inductive Task where
  | read (phase : Phase)
  | primary
  /-- The next turn of the loop over the arguments of a macro. -/
  | arguments (called : FunctionMacro) (gathered : Gathered)
  | expansion (called : FunctionMacro) (args : List (List Token))

/-- A call of the reader, `depth` expansions deep, with the tokens that are not read yet. -/
structure Call where
  depth : Nat
  task : Task
  unread : List Token

/-- The call that reads a whole text. -/
def Call.start (tokens : List Token) : Call where
  depth := 0
  task := .read (.expr 0)
  unread := tokens

/-- How a call goes on: it fails, it ends with a tree and the tokens behind it, or it makes another
call. It goes on from the answer to that call, and fails if there is none.
-/
inductive Body where
  | fails
  | ends (expr : Expr) (rest : List Token)
  | asks (call : Call) (next : Expr → List Token → Body)

section

variable (scope : Scope) (depth : Nat)

def exprBody (least : Nat) (tokens : List Token) : Body :=
  .asks ⟨depth, .read .operand, tokens⟩ fun left rest =>
    .asks ⟨depth, .read (.operators least left), rest⟩ .ends

def operatorsBody (least : Nat) (left : Expr) : List Token → Body
  | .op op :: after =>
      if least ≤ op.precedence then
        .asks ⟨depth, .read (.expr (op.precedence + 1)), after⟩ fun right rest =>
          .asks ⟨depth, .read (.operators least (.binary op left right)), rest⟩ .ends
      else
        .ends left (.op op :: after)
  | tokens => .ends left tokens

def operandBody : List Token → Body
  | .op .sub :: after =>
      .asks ⟨depth, .read .operand, after⟩ fun expr rest => .ends (.unary .negate expr) rest
  | .op .add :: after =>
      .asks ⟨depth, .read .operand, after⟩ fun expr rest => .ends (.unary .keep expr) rest
  | .tilde :: after =>
      .asks ⟨depth, .read .operand, after⟩ fun expr rest => .ends (.unary .complement expr) rest
  | .opening :: after =>
      match afterCast? scope after with
      | some operand => .asks ⟨depth, .read .operand, operand⟩ .ends
      | none => .asks ⟨depth, .primary, .opening :: after⟩ .ends
  | tokens => .asks ⟨depth, .primary, tokens⟩ .ends

def nameBody (name : String) (after : List Token) : Body :=
  match scope.constant? name with
  | some value => .ends (.constant value) after
  | none =>
      match scope.macro? name, after with
      | some called, .opening :: inside => .asks ⟨depth, .arguments called .start, inside⟩ .ends
      | _, _ => .fails

def primaryBody : List Token → Body
  | .number bits long :: after => .ends (.literal bits long) after
  | .opening :: after =>
      .asks ⟨depth, .read (.expr 0), after⟩ fun expr rest =>
        match rest with
        | .closing :: behind => .ends expr behind
        | _ => .fails
  | .name name :: after => nameBody scope depth name after
  | _ => .fails

def argumentsBody (called : FunctionMacro) (gathered : Gathered) : List Token → Body
  | [] => .fails
  | token :: after =>
      match gathered.take? token with
      | some more => .asks ⟨depth, .arguments called more, after⟩ .ends
      | none => .asks ⟨depth, .expansion called (given (gathered.join [])), after⟩ .ends

def expansionBody (called : FunctionMacro) (args : List (List Token)) (tokens : List Token)
    : Body :=
  if depth < maxNesting then
    match expansion? called args with
    | some expanded =>
        .asks ⟨depth + 1, .read (.expr 0), expanded⟩ fun expr rest =>
          if rest = [] then .ends expr tokens else .fails
    | none => .fails
  else
    .fails

end

/-- How a call of the reader goes on. -/
def body (scope : Scope) (call : Call) : Body :=
  match call.task with
  | .read (.expr least) => exprBody call.depth least call.unread
  | .read (.operators least left) => operatorsBody call.depth least left call.unread
  | .read .operand => operandBody scope call.depth call.unread
  | .primary => primaryBody scope call.depth call.unread
  | .arguments called gathered => argumentsBody call.depth called gathered call.unread
  | .expansion called args => expansionBody call.depth called args call.unread

-----------------------------------------------------------------------------------------
-- Answers
-----------------------------------------------------------------------------------------

/-- The answers to calls. -/
abbrev Answers : Type :=
  Call → Option (Expr × List Token)

namespace Body

/-- What comes of a call if the calls that it makes have these answers. -/
def outcome (answers : Answers) : Body → Option (Expr × List Token)
  | .fails => none
  | .ends expr rest => some (expr, rest)
  | .asks call next => (answers call).bind fun (expr, rest) => (next expr rest).outcome answers

/-- A call that passes an answer on has that answer. -/
theorem outcome_asks_ends (answers : Answers) (call : Call)
    : (asks call ends).outcome answers = answers call := by
  rw [outcome]
  cases answers call <;> rfl

/-- The calls that are made if these are the answers. -/
inductive Makes (answers : Answers) : Body → Call → Prop
  | now {call next} : Makes answers (.asks call next) call
  | later {call next expr rest callee} (answered : answers call = some (expr, rest))
    (more : Makes answers (next expr rest) callee)
    : Makes answers (.asks call next) callee

variable {answers answers' : Answers} {body : Body} {callee : Call}

/-- The outcome depends on the calls that are made only. -/
theorem outcome_congr
    (same : ∀ callee, body.Makes answers callee → answers callee = answers' callee)
    : body.outcome answers = body.outcome answers' := by
  induction body with
  | fails => rfl
  | ends expr rest => rfl
  | asks call next ih =>
      rw [outcome, outcome, ← same call .now]
      refine Option.bind_congr fun (expr, rest) answered => ?_
      exact ih expr rest fun callee made => same callee (.later answered made)

/-- A call fails if one that it makes does. -/
theorem outcome_eq_none (made : body.Makes answers callee) (refused : answers callee = none)
    : body.outcome answers = none := by
  induction made with
  | now => rw [outcome, refused, Option.bind_none]
  | later answered _ ih =>
      rw [outcome, answered]
      exact ih refused

/-- Whether all calls that are made have a property. -/
def Only (answers : Answers) (body : Body) (holds : Call → Prop) : Prop :=
  ∀ callee, body.Makes answers callee → holds callee

variable {holds : Call → Prop}

theorem only_fails : fails.Only answers holds :=
  fun _ made => nomatch made

theorem only_ends {expr : Expr} {rest : List Token} : (ends expr rest).Only answers holds :=
  fun _ made => nomatch made

theorem only_asks {call : Call} {next : Expr → List Token → Body} (first : holds call)
    (others
      : ∀ expr rest, answers call = some (expr, rest) → (next expr rest).Only answers holds)
    : (asks call next).Only answers holds := by
  intro callee made
  cases made with
  | now => exact first
  | later answered more => exact others _ _ answered callee more

/-- A call whose answer is passed on is the only one. -/
theorem only_asks_ends {call : Call} (first : holds call) : (asks call ends).Only answers holds :=
  only_asks first fun _ _ _ => only_ends

end Body

/-- The reader's answers to its calls. -/
def answer (scope : Scope) : Answers := fun call =>
  let expand := expandWithin scope (maxNesting - call.depth)
  match call.task with
  | .read phase => read? scope expand phase call.unread
  | .primary =>
      (readPrimary scope expand call.unread).map fun (expr, rest) => (expr, rest.1)
  | .arguments called gathered =>
      (argumentsAt? gathered.nested call.unread).bind fun (args, rest) =>
        ((expansion? called (given (gathered.join args))).bind expand).map fun expr => (expr, rest)
  | .expansion called args =>
      ((expansion? called args).bind expand).map fun expr => (expr, call.unread)

/-- The calls that a call makes. -/
def Calls (scope : Scope) (call callee : Call) : Prop :=
  (body scope call).Makes (answer scope) callee

/-- The calls that are made while a call is answered. -/
def Reaches (scope : Scope) : Call → Call → Prop :=
  Relation.ReflTransGen (Calls scope)

variable {scope : Scope}

-----------------------------------------------------------------------------------------
-- The answers are those that the bodies give
-----------------------------------------------------------------------------------------

theorem argumentsAt?_ne_nil {nested : Nat} {tokens rest : List Token} {args : List (List Token)}
    (split : argumentsAt? nested tokens = some (args, rest))
    : args ≠ [] := by
  cases tokens with
  | nil => cases split
  | cons token tokens =>
      rcases argumentsAt?_cons_eq_some split with
        ⟨after, inner, -, -, rfl⟩ | ⟨-, -, rfl, -⟩ | ⟨-, -, inner, -, rfl⟩
      · cases inner <;> exact List.cons_ne_nil _ _
      · exact List.cons_ne_nil _ _
      · exact List.cons_ne_nil _ _

/-- A turn of the loop leaves the arguments what they are. -/
theorem Gathered.join_of_take? {gathered more : Gathered} {token : Token}
    (taken : gathered.take? token = some more) (tokens : List Token)
    : (argumentsAt? gathered.nested (token :: tokens)).map (Prod.map gathered.join id)
      = (argumentsAt? more.nested tokens).map (Prod.map more.join id) := by
  unfold take? at taken
  split at taken
  · rename_i nested nests
    cases taken
    rw [argumentsAt?_cons nests, Option.map_map]
    refine Option.map_congr fun parts _ => ?_
    obtain ⟨args, rest⟩ := parts
    cases args <;> simp [join, intoFirst]
  · rename_i closes
    split at taken
    · rename_i isComma
      cases taken
      obtain ⟨outside, -⟩ := nestToken?_eq_none closes
      rw [isComma, outside, argumentsAt?, Option.map_map]
      refine Option.map_congr fun parts split => ?_
      obtain ⟨args, rest⟩ := parts
      obtain ⟨first, others, rfl⟩ := List.exists_cons_of_ne_nil (argumentsAt?_ne_nil split)
      simp [join]
    · cases taken

theorem Gathered.eq_of_take?_eq_none {gathered : Gathered} {token : Token}
    (ended : gathered.take? token = none)
    : gathered.nested = 0 ∧ token = .closing := by
  unfold take? at ended
  split at ended
  · cases ended
  · rename_i closes
    split at ended
    · cases ended
    · rename_i noComma
      obtain ⟨outside, isClosing | isComma⟩ := nestToken?_eq_none closes
      · exact ⟨outside, isClosing⟩
      · exact absurd isComma noComma

section

variable {depth : Nat} {tokens : List Token}

/-- An expression is an operand with the operators behind it. -/
theorem outcome_expr (least : Nat)
    : (body scope ⟨depth, .read (.expr least), tokens⟩).outcome (answer scope)
      = answer scope ⟨depth, .read (.expr least), tokens⟩ := by
  simp only [body, exprBody, Body.outcome, answer, read?, readExpr]
  cases readUnary scope (expandWithin scope (maxNesting - depth)) tokens with
  | none => rfl
  | some first =>
      obtain ⟨left, rest, shorter⟩ := first
      simp only [Option.map_some, Option.bind_some, Option.map_map]
      cases readOperators scope (expandWithin scope (maxNesting - depth)) least left rest <;> rfl

theorem outcome_operators (least : Nat) (left : Expr)
    : (body scope ⟨depth, .read (.operators least left), tokens⟩).outcome (answer scope)
      = answer scope ⟨depth, .read (.operators least left), tokens⟩ := by
  simp only [body, answer, read?]
  rw [readOperators.eq_def]
  split
  · split
    · rename_i op after binds
      simp only [operatorsBody, if_pos binds, Body.outcome, answer, read?]
      cases readExpr scope (expandWithin scope (maxNesting - depth)) (op.precedence + 1) after with
      | none => rfl
      | some second =>
          obtain ⟨right, rest, shorter⟩ := second
          simp only [Option.map_some, Option.bind_some, Option.map_map]
          cases readOperators scope (expandWithin scope (maxNesting - depth)) least
            (.binary op left right) rest <;> rfl
    · rename_i loose
      simp only [operatorsBody, if_neg loose, Body.outcome]
      rfl
  · rename_i other
    unfold operatorsBody
    split
    · exact absurd rfl (other _ _)
    · rfl

theorem outcome_signed {op : UnaryOp} {first : Token} {after : List Token}
    : (Body.asks ⟨depth, .read .operand, after⟩ fun expr rest =>
          .ends (.unary op expr) rest).outcome (answer scope)
      = (signed op after (readUnary scope (expandWithin scope (maxNesting - depth)) after)
          : Parsed (first :: after)).map (fun (expr, rest) => (expr, rest.1)) := by
  simp only [Body.outcome, answer, read?, signed]
  cases readUnary scope (expandWithin scope (maxNesting - depth)) after <;> rfl

theorem outcome_operand
    : (body scope ⟨depth, .read .operand, tokens⟩).outcome (answer scope)
      = answer scope ⟨depth, .read .operand, tokens⟩ := by
  simp only [body, answer, read?]
  rw [readUnary.eq_def]
  split
  · exact outcome_signed
  · exact outcome_signed
  · exact outcome_signed
  · rename_i after
    split
    · rename_i operand casts
      simp only [operandBody, casts, Body.outcome_asks_ends, answer, read?, Option.map_map]
      rfl
    · rename_i plain
      simp only [operandBody, plain, Body.outcome_asks_ends, answer]
  · rename_i noMinus noPlus noTilde noParenthesis
    unfold operandBody
    split
    · exact absurd rfl (noMinus _)
    · exact absurd rfl (noPlus _)
    · exact absurd rfl (noTilde _)
    · exact absurd rfl (noParenthesis _)
    · rw [Body.outcome_asks_ends]
      rfl

theorem Gathered.join_start {args : List (List Token)} (some : args ≠ [])
    : Gathered.start.join args = args := by
  obtain ⟨first, others, rfl⟩ := List.exists_cons_of_ne_nil some
  rfl

/-- The call of a macro reads its arguments and expands it. -/
theorem answer_arguments_start (called : FunctionMacro)
    : answer scope ⟨depth, .arguments called .start, tokens⟩
      = (arguments? (.opening :: tokens)).bind fun parts =>
          ((expansion? called parts.1).bind (expandWithin scope (maxNesting - depth))).map
            fun expr => (expr, parts.2) := by
  simp only [answer, arguments?, Option.bind_map]
  refine Option.bind_congr fun parts split => ?_
  obtain ⟨args, rest⟩ := parts
  rw [Gathered.join_start (argumentsAt?_ne_nil split)]
  rfl

theorem outcome_name {name : String}
    : (nameBody scope depth name tokens).outcome (answer scope)
      = (match scope.constant? name with
          | some value => some (.constant value, ⟨tokens, Nat.lt_succ_self _⟩)
          | none =>
              match scope.macro? name, call : arguments? tokens with
              | some called, some (args, rest) =>
                  ((expansion? called args).bind
                    (expandWithin scope (maxNesting - depth))).map fun expr =>
                      (expr, ⟨rest, Nat.lt_succ_of_lt (length_of_arguments? call)⟩)
              | _, _ => none
          : Parsed (.name name :: tokens)).map fun (expr, rest) => (expr, rest.1) := by
  unfold nameBody
  split
  · rfl
  · split
    · rename_i called inside found
      rw [found, Body.outcome_asks_ends, answer_arguments_start]
      split
      · rename_i args rest isMacro split
        cases isMacro
        simp only [Option.map_map, split, Option.bind_some]
        rfl
      · rename_i other
        cases split : arguments? (.opening :: inside) with
        | none => rfl
        | some parts => exact absurd split (other _ _ _ rfl)
    · rename_i other
      split
      · rename_i called args rest found split
        obtain ⟨inside, parts, rfl, -⟩ := exists_of_arguments? split
        exact absurd rfl (other _ _ found)
      · rfl

theorem outcome_primary
    : (body scope ⟨depth, .primary, tokens⟩).outcome (answer scope)
      = answer scope ⟨depth, .primary, tokens⟩ := by
  simp only [body, answer]
  rw [readPrimary.eq_def]
  split
  · rfl
  · rename_i after
    simp only [primaryBody, Body.outcome, answer, read?]
    cases readExpr scope (expandWithin scope (maxNesting - depth)) 0 after with
    | none => rfl
    | some inner =>
        obtain ⟨expr, rest, shorter⟩ := inner
        simp only [Option.map_some, Option.bind_some]
        split <;> split <;> simp_all [Body.outcome]
  · exact outcome_name
  · rename_i noNumber noParenthesis noName
    unfold primaryBody
    split
    · exact absurd rfl (noNumber _ _ _)
    · exact absurd rfl (noParenthesis _)
    · exact absurd rfl (noName _ _)
    · rfl

/-- The loop over arguments ends with the parenthesis that closes the call. -/
theorem outcome_arguments (called : FunctionMacro) (gathered : Gathered)
    : (body scope ⟨depth, .arguments called gathered, tokens⟩).outcome (answer scope)
      = answer scope ⟨depth, .arguments called gathered, tokens⟩ := by
  cases tokens with
  | nil => rfl
  | cons token after =>
      simp only [body, argumentsBody]
      split
      · rename_i more taken
        have turn := congrArg
          (fun split => split.bind fun parts =>
            ((expansion? called (given parts.1)).bind
              (expandWithin scope (maxNesting - depth))).map fun expr => (expr, parts.2))
          (Gathered.join_of_take? taken after)
        simp only [Option.bind_map] at turn
        rw [Body.outcome_asks_ends]
        exact turn.symm
      · rename_i ended
        obtain ⟨outside, rfl⟩ := Gathered.eq_of_take?_eq_none ended
        rw [Body.outcome_asks_ends]
        simp [answer, outside, argumentsAt?, Gathered.join]

theorem readAll?_eq_read? {expand : List Token → Option Expr}
    : readAll? scope expand tokens
      = (read? scope expand (.expr 0) tokens).bind fun (expr, rest) =>
          if rest = [] then some expr else none := by
  rw [readAll?, read?]
  cases readExpr scope expand 0 tokens with
  | none => rfl
  | some found =>
      obtain ⟨expr, rest, shorter⟩ := found
      cases rest <;> rfl

/-- An expansion is read one level deeper. -/
theorem expandWithin_eq_readAll? (more : depth < maxNesting)
    : expandWithin scope (maxNesting - depth)
      = readAll? scope (expandWithin scope (maxNesting - (depth + 1))) := by
  obtain ⟨budget, enough⟩ : ∃ budget, maxNesting - depth = budget + 1 :=
    Nat.exists_eq_succ_of_ne_zero (Nat.sub_ne_zero_of_lt more)
  have deeper : maxNesting - (depth + 1) = budget := by omega
  rw [enough, deeper, expandWithin]
  funext tokens
  exact congrFun (readNested?_eq scope budget) tokens

theorem outcome_expansion (called : FunctionMacro) (args : List (List Token))
    : (body scope ⟨depth, .expansion called args, tokens⟩).outcome (answer scope)
      = answer scope ⟨depth, .expansion called args, tokens⟩ := by
  rw [answer]
  simp only [body, expansionBody]
  split
  · rename_i more
    split
    · rename_i expanded expansion
      rw [expansion, Option.bind_some, expandWithin_eq_readAll? more, readAll?_eq_read?,
        Body.outcome, Option.map_bind]
      refine Option.bind_congr fun (expr, rest) _ => ?_
      by_cases whole : rest = [] <;> simp [whole, Body.outcome]
    · rename_i noExpansion
      rw [noExpansion]
      rfl
  · rename_i full
    have nothing : maxNesting - depth = 0 := Nat.sub_eq_zero_of_le (Nat.le_of_not_lt full)
    rw [nothing]
    cases expansion? called args <;> rfl

end

theorem outcome_body (call : Call)
    : (body scope call).outcome (answer scope) = answer scope call := by
  obtain ⟨depth, task, tokens⟩ := call
  cases task with
  | read phase =>
      cases phase with
      | expr least => exact outcome_expr least
      | operators least left => exact outcome_operators least left
      | operand => exact outcome_operand
  | primary => exact outcome_primary
  | arguments called gathered => exact outcome_arguments called gathered
  | expansion called args => exact outcome_expansion called args

/-- A call fails if one that is made for it does. -/
theorem Reaches.answer_eq_none {call callee : Call} (reaches : Reaches scope call callee)
    (refused : answer scope callee = none)
    : answer scope call = none := by
  induction reaches with
  | refl => exact refused
  | tail _ made ih =>
      refine ih ?_
      rw [← outcome_body]
      exact Body.outcome_eq_none made refused

/-- Turn by turn the loop over arguments gathers all of them. By induction on the tokens. -/
theorem reaches_expansion {depth : Nat} {called : FunctionMacro} {gathered : Gathered}
    {tokens rest : List Token} {args : List (List Token)}
    (split : argumentsAt? gathered.nested tokens = some (args, rest))
    : Reaches scope ⟨depth, .arguments called gathered, tokens⟩
        ⟨depth, .expansion called (given (gathered.join args)), rest⟩ := by
  induction tokens generalizing gathered args with
  | nil => cases split
  | cons token tokens ih =>
      cases taken : gathered.take? token with
      | some more =>
          have turn := Gathered.join_of_take? taken tokens
          rw [split, Option.map_some, eq_comm, Option.map_eq_some_iff] at turn
          obtain ⟨⟨inner, behind⟩, later, same⟩ := turn
          obtain ⟨joined, rfl⟩ := Prod.mk.inj same
          rw [← joined]
          refine .head ?_ (ih later)
          simp only [Calls, body, argumentsBody, taken]
          exact .now
      | none =>
          obtain ⟨outside, rfl⟩ := Gathered.eq_of_take?_eq_none taken
          rw [outside] at split
          cases split
          refine .single ?_
          simp only [Calls, body, argumentsBody, taken, Gathered.join, List.append_nil]
          exact .now

end ApiBindings.Constant.Reader
