import ApiBindings.Proofs.Constant.Bodies
import Mathlib.Data.Prod.Lex

/-! Why the reading of constant expressions ends.
A call makes smaller calls only: that of an expansion is one level deeper, and the others leave
fewer tokens or ask for a simpler part. No matter which macros call each other, there is therefore
one way to answer all calls.
-/

namespace ApiBindings.Constant.Reader

variable {scope : Scope}

-----------------------------------------------------------------------------------------
-- Calls make smaller calls
-----------------------------------------------------------------------------------------

/-- An expression asks for more than its operands, and an operand for more than a primary one. -/
def Task.kind : Task → Nat
  | .read (.expr _) => 2
  | .read .operand => 1
  | _ => 0

/-- How many levels of expansions are left, how many tokens are unread, and what is asked for. -/
def Call.size (call : Call) : Nat × Nat × Nat :=
  (maxNesting - call.depth, call.unread.length, call.task.kind)

/-- A call is smaller if it has fewer levels left, or as many and fewer tokens, or as many of both
and asks for less.
-/
def Call.Smaller (callee call : Call) : Prop :=
  Prod.Lex (· < ·) (Prod.Lex (· < ·) (· < ·)) callee.size call.size

theorem Call.smaller_wellFounded : WellFounded Call.Smaller :=
  InvImage.wf Call.size (WellFounded.prod_lex Nat.lt_wfRel.wf
    (WellFounded.prod_lex Nat.lt_wfRel.wf Nat.lt_wfRel.wf))

/-- How a call may be smaller than the one that makes it: only an expansion, if it stands in few
others, makes a call of the next level.
-/
inductive Call.Shrinks : Call → Call → Prop
  | deeper {depth called args tokens expanded} (more : depth < maxNesting)
    : Shrinks ⟨depth + 1, .read (.expr 0), expanded⟩ ⟨depth, .expansion called args, tokens⟩
  | shorter {depth task task' tokens rest} (fewer : rest.length < tokens.length)
    : Shrinks ⟨depth, task', rest⟩ ⟨depth, task, tokens⟩
  | simpler {depth task task' tokens} (less : task'.kind < task.kind)
    : Shrinks ⟨depth, task', tokens⟩ ⟨depth, task, tokens⟩

namespace Call.Shrinks

variable {call callee : Call}

theorem smaller (shrinks : callee.Shrinks call) : callee.Smaller call := by
  cases shrinks with
  | @deeper depth called args tokens expanded more =>
      refine .left _ _ ?_
      change maxNesting - (depth + 1) < maxNesting - depth
      omega
  | shorter fewer => exact .right _ (.left _ _ fewer)
  | simpler less => exact .right _ (.right _ less)

theorem depth_le (shrinks : callee.Shrinks call) (bounded : call.depth ≤ maxNesting)
    : callee.depth ≤ maxNesting := by
  cases shrinks with
  | deeper more => exact more
  | shorter | simpler => exact bounded

end Call.Shrinks

theorem length_of_answer_operand {depth : Nat} {tokens rest : List Token} {expr : Expr}
    (answered : answer scope ⟨depth, .read .operand, tokens⟩ = some (expr, rest))
    : rest.length < tokens.length := by
  obtain ⟨⟨inner, behind⟩, -, same⟩ := Option.map_eq_some_iff.mp answered
  cases same
  exact behind.2

theorem length_of_answer_expr {depth least : Nat} {tokens rest : List Token} {expr : Expr}
    (answered : answer scope ⟨depth, .read (.expr least), tokens⟩ = some (expr, rest))
    : rest.length < tokens.length := by
  obtain ⟨⟨inner, behind⟩, -, same⟩ := Option.map_eq_some_iff.mp answered
  cases same
  exact behind.2

section

open Body

variable {depth : Nat} {tokens : List Token}

theorem only_exprBody {least : Nat}
    : (exprBody depth least tokens).Only (answer scope)
        (Call.Shrinks · ⟨depth, .read (.expr least), tokens⟩) := by
  refine only_asks (.simpler Nat.one_lt_two) fun left rest answered => ?_
  exact only_asks_ends (.shorter (length_of_answer_operand answered))

theorem only_operatorsBody (least : Nat) (left : Expr)
    : (operatorsBody depth least left tokens).Only (answer scope)
        (Call.Shrinks · ⟨depth, .read (.operators least left), tokens⟩) := by
  unfold operatorsBody
  split
  · split
    · refine only_asks (.shorter (Nat.lt_succ_self _)) fun right rest answered => ?_
      exact only_asks_ends (.shorter (Nat.lt_succ_of_lt (length_of_answer_expr answered)))
    · exact only_ends
  · exact only_ends

theorem only_operandBody
    : (operandBody scope depth tokens).Only (answer scope)
        (Call.Shrinks · ⟨depth, .read .operand, tokens⟩) := by
  unfold operandBody
  split
  · exact only_asks (.shorter (Nat.lt_succ_self _)) fun _ _ _ => only_ends
  · exact only_asks (.shorter (Nat.lt_succ_self _)) fun _ _ _ => only_ends
  · exact only_asks (.shorter (Nat.lt_succ_self _)) fun _ _ _ => only_ends
  · split
    · rename_i casts
      exact only_asks_ends (.shorter (Nat.lt_succ_of_lt (length_of_afterCast? casts)))
    · exact only_asks_ends (.simpler Nat.zero_lt_one)
  · exact only_asks_ends (.simpler Nat.zero_lt_one)

theorem only_nameBody (name : String)
    : (nameBody scope depth name tokens).Only (answer scope)
        (Call.Shrinks · ⟨depth, .primary, .name name :: tokens⟩) := by
  unfold nameBody
  split
  · exact only_ends
  · split
    · exact only_asks_ends (.shorter (Nat.lt_succ_of_lt (Nat.lt_succ_self _)))
    · exact only_fails

theorem only_primaryBody
    : (primaryBody scope depth tokens).Only (answer scope)
        (Call.Shrinks · ⟨depth, .primary, tokens⟩) := by
  unfold primaryBody
  split
  · exact only_ends
  · refine only_asks (.shorter (Nat.lt_succ_self _)) fun expr rest _ => ?_
    split
    · exact only_ends
    · exact only_fails
  · exact only_nameBody _
  · exact only_fails

/-- A turn of the loop over arguments takes one token. -/
theorem only_argumentsBody (called : FunctionMacro) (gathered : Gathered)
    : (argumentsBody depth called gathered tokens).Only (answer scope) fun callee =>
        callee.depth = depth ∧ ∃ token, tokens = token :: callee.unread := by
  unfold argumentsBody
  split
  · exact only_fails
  · split
    · exact only_asks_ends ⟨rfl, _, rfl⟩
    · exact only_asks_ends ⟨rfl, _, rfl⟩

theorem only_expansionBody (called : FunctionMacro) (args : List (List Token))
    : (expansionBody depth called args tokens).Only (answer scope)
        (Call.Shrinks · ⟨depth, .expansion called args, tokens⟩) := by
  unfold expansionBody
  split
  · rename_i more
    split
    · refine only_asks (.deeper more) fun expr rest _ => ?_
      split
      · exact only_ends
      · exact only_fails
    · exact only_fails
  · exact only_fails

end

variable {call callee : Call}

/-- Whatever the macros of a scope are, a call makes smaller calls only. -/
theorem Calls.shrinks (made : Calls scope call callee) : callee.Shrinks call := by
  obtain ⟨depth, task, tokens⟩ := call
  cases task with
  | read phase =>
      cases phase with
      | expr least => exact only_exprBody callee made
      | operators least left => exact only_operatorsBody least left callee made
      | operand => exact only_operandBody callee made
  | primary => exact only_primaryBody callee made
  | arguments called gathered =>
      obtain ⟨rfl, token, rfl⟩ := only_argumentsBody called gathered callee made
      exact .shorter (Nat.lt_succ_self _)
  | expansion called args => exact only_expansionBody called args callee made

theorem calls_wellFounded (scope : Scope)
    : WellFounded fun callee call => Calls scope call callee :=
  Subrelation.wf (fun made => made.shrinks.smaller) Call.smaller_wellFounded

/-- Only the reader's answers are those that all bodies give. By induction on the calls. -/
theorem answer_unique {answers : Answers}
    (solved : ∀ call, (body scope call).outcome answers = answers call)
    : answers = answer scope := by
  funext call
  induction call using (calls_wellFounded scope).induction with
  | h call ih =>
      rw [← solved, ← outcome_body]
      exact (Body.outcome_congr fun callee made => (ih callee made).symm).symm

theorem Reaches.depth_le (reaches : Reaches scope call callee) (bounded : call.depth ≤ maxNesting)
    : callee.depth ≤ maxNesting := by
  induction reaches with
  | refl => exact bounded
  | tail _ made ih => exact made.shrinks.depth_le ih

end ApiBindings.Constant.Reader
