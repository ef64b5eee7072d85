import ApiBindings.Header.Reader
import ApiBindings.Proofs.Constant.Agreement
import ApiBindings.Proofs.Reading.Shares
import ApiBindings.Proofs.Reading.Statements

/-! Items of a header that are read alike.
A statement is read by its words, and a directive without regard to how wide its gaps are. What
differs beyond that are the lines on which statements start, which faults show.
-/

namespace ApiBindings

namespace Findings

/-- Findings in whose faults every line is numbered anew, or not at all. -/
def renumber (number : Nat → Option Nat) (found : Findings) : Findings :=
  { found with
    faults := found.faults.map fun fault => { fault with line := fault.line.bind number } }

variable {number : Nat → Option Nat}

theorem renumber_append (earlier later : Findings)
    : (earlier ++ later).renumber number = earlier.renumber number ++ later.renumber number := by
  change renumber number (append earlier later)
    = append (renumber number earlier) (renumber number later)
  simp [renumber, append]

theorem renumber_some (found : Findings) : found.renumber some = found := by
  simp [renumber]

end Findings

namespace Header

open ApiBindings.Constant
open ApiBindings.Text

variable {number : Nat → Option Nat} {context : Context} {scope other : Scope} {line line' : Nat}

-----------------------------------------------------------------------------------------
-- Items
-----------------------------------------------------------------------------------------

/-- The same is found, apart from the numbers of lines, and scopes are left that agree. -/
structure SameResult (number : Nat → Option Nat) (one other : Findings × Scope) : Prop where
  found : other.1.renumber number = one.1.renumber number
  scopes : one.2.Agrees other.2

theorem SameResult.append {one other : Findings × Scope} (same : SameResult number one other)
    {first first' : Findings} (earlier : first'.renumber number = first.renumber number)
    : SameResult number (first ++ one.1, one.2) (first' ++ other.1, other.2) where
  found := by rw [Findings.renumber_append, earlier, same.found, Findings.renumber_append]
  scopes := same.scopes

theorem renumber_fault (context : Context) (lines : number line' = number line) (element : String)
    (problem : Problem)
    : (context.fault element problem line').renumber number
      = (context.fault element problem line).renumber number := by
  simp [Context.fault, Findings.fault, Findings.renumber, lines]

/-- Enumerators are read alike in scopes that agree. By induction on the enumerators, for any value
of the next one.
-/
theorem readEnumerators_same (agrees : scope.Agrees other) (lines : number line' = number line)
    (group : Option String) (next : Option (BitVec 64)) (items : List Enumerator)
    : SameResult number (readEnumerators context group line next scope items)
        (readEnumerators context group line' next other items) := by
  induction items generalizing next scope other with
  | nil => exact ⟨rfl, agrees⟩
  | cons item rest ih =>
      have refused (element : String) (problem : Problem) :=
        (ih agrees none).append (renumber_fault context lines element problem)
      have accepted (value : Value) :=
        (ih (agrees.define (String.ofList item.name) value) (some (value.bits + 1))).append
          (rfl : (context.enumerant (String.ofList item.name) value group).renumber number = _)
      unfold readEnumerators
      dsimp only
      split
      · exact refused _ _
      · split
        · rename_i text
          rw [agrees.eval?_eq]
          split
          · exact accepted _
          · exact refused _ _
        · split
          · exact accepted _
          · exact refused _ _

theorem readEnum_same (context : Context) (agrees : scope.Agrees other)
    (lines : number line' = number line) (group : Option String) (text : List Char)
    : SameResult number (readEnum context group line scope text)
        (readEnum context group line' other text) := by
  unfold readEnum
  split
  · exact readEnumerators_same agrees lines _ _ _
  · exact ⟨renumber_fault _ lines _ _, agrees⟩

theorem readTypedef_same (agrees : scope.Agrees other) (lines : number line' = number line)
    (text : List Char)
    : SameResult number (readTypedef context line scope text)
        (readTypedef context line' other text) := by
  unfold readTypedef
  split
  · rename_i found _
    dsimp only
    split
    · have enums := readEnum_same context agrees lines (lastName? found.after <|> enumTag? text) text
      refine ⟨?_, enums.scopes⟩
      rw [Findings.renumber_append, enums.found, Findings.renumber_append]
    · exact ⟨rfl, agrees⟩
  · exact ⟨rfl, agrees⟩

theorem readPrototype_same (lines : number line' = number line) (text : List Char)
    : (readPrototype context line' text).renumber number
      = (readPrototype context line text).renumber number := by
  unfold readPrototype
  dsimp only
  split
  · exact renumber_fault _ lines _ _
  · split
    · exact renumber_fault _ lines _ _
    · split
      · exact renumber_fault _ lines _ _
      · rfl

/-- Only the words of a statement are read. -/
theorem readStatement_same (agrees : scope.Agrees other) (lines : number line' = number line)
    {raw raw' : List Char} (same : words raw' = words raw)
    : SameResult number (readStatement context line scope raw)
        (readStatement context line' other raw') := by
  have collapsed : collapse raw' = collapse raw := congrArg unwords same
  unfold readStatement
  rw [collapsed]
  dsimp only
  split
  · exact readTypedef_same agrees lines _
  · split
    · exact readEnum_same _ agrees lines _ _
    · split
      · exact ⟨readPrototype_same lines _, agrees⟩
      · exact ⟨rfl, agrees⟩

/-- Two definitions of the same name, with gaps of other widths in what is defined. -/
structure SameDefine (define other : Define) : Prop where
  name : other.name = define.name
  params
    : Option.Rel
        (fun text text' =>
          List.Forall₂ (fun param other => Loosened param.toList other.toList) (macroParams text)
            (macroParams text'))
        define.params other.params
  body : Loosened define.body other.body

/-- Parameters between the same commas, without the blanks around them. -/
theorem macroParams_same {text text' : List Char} (loosened : Loosened text text')
    : List.Forall₂ (fun param other => Loosened param.toList other.toList) (macroParams text)
        (macroParams text') := by
  have pieces : List.Forall₂ SameLine (cut (· == ',') text) (cut (· == ',') text') :=
    Spaced.cut (by decide) (.inr loosened)
  have kept {one other : List Char} (same : Loosened one other) (trimmed : trimEnd other = other)
      : other.isEmpty = one.isEmpty := by
    rcases same with rfl | respaced
    · rfl
    · cases respaced with
      | last => cases trimmed
      | _ => rfl
  unfold macroParams
  generalize cut (· == ',') text = one, cut (· == ',') text' = other at pieces
  induction pieces with
  | nil => exact .nil
  | @cons piece piece' rest rest' first others ih =>
      simp only [List.map_cons, List.filter_cons, kept first (trimEnd_trim piece')]
      split
      · refine .cons ?_ ih
        rw [String.toList_ofList, String.toList_ofList]
        exact first
      · exact ih

/-- What is defined by the text behind a name. -/
def defineBehind (name rest : List Char) : Define :=
  match rest with
  | '(' :: inner =>
      if inner.contains ')' then
        {
          name
          params := some (inner.takeWhile (· != ')'))
          body := trim ((inner.dropWhile (· != ')')).drop 1)
        }
      else
        { name, params := none, body := trim rest }
  | _ => { name, params := none, body := trim rest }

theorem defineBehind_of_ne {rest : List Char} (other : ∀ inner, rest ≠ '(' :: inner)
    (name : List Char)
    : defineBehind name rest = { name, params := none, body := trim rest } := by
  unfold defineBehind
  split
  · exact absurd rfl (other _)
  · rfl

theorem define?_eq (cs : List Char)
    : define? cs =
        (strip? ['#'] cs).bind fun rest =>
          (strip? "define".toList (trimStart rest)).bind fun rest =>
            (if rest.head?.any isBlank then identifier? (trimStart rest) else none).bind
              fun found => some (defineBehind found.1 found.2) := by
  simp only [define?, Option.bind_eq_bind]
  congr 1
  funext rest
  congr 1
  funext rest
  split
  · cases identifier? (trimStart rest) with
    | none => rfl
    | some found =>
        obtain ⟨name, behind⟩ := found
        rw [Option.bind_some, Option.bind_some]
        dsimp only
        split
        · rw [defineBehind]
          split <;> rfl
        · rename_i other
          rw [defineBehind_of_ne other]
  · rfl

theorem SameDefine.refl (define : Define) : SameDefine define define where
  name := rfl
  params := by
    cases define.params with
    | none => exact .none
    | some text => exact .some (macroParams_same (.refl text))
  body := .refl _

theorem defineBehind_same {rest rest' : List Char} (loosened : Loosened rest rest')
    (name : List Char)
    : SameDefine (defineBehind name rest) (defineBehind name rest') := by
  have plain (noParams : ∀ inner, rest ≠ '(' :: inner) (noParams' : ∀ inner, rest' ≠ '(' :: inner)
      : SameDefine (defineBehind name rest) (defineBehind name rest') := by
    rw [defineBehind_of_ne noParams, defineBehind_of_ne noParams']
    exact ⟨rfl, .none, loosened.sameLine⟩
  rcases loosened with rfl | respaced
  · exact .refl _
  · cases respaced with
    | last => exact plain (by simp) (by simp)
    | before blank =>
        refine plain (fun inner same => ?_) (by simp)
        obtain ⟨rfl, -⟩ := List.cons.inj same
        cases blank
    | behind blank =>
        refine plain (fun inner same => ?_) (fun inner same => ?_)
        all_goals
          obtain ⟨rfl, -⟩ := List.cons.inj same
          cases blank
    | @cons inner inner' c later =>
        by_cases opens : c = '('
        · subst opens
          have closes : inner'.contains ')' = inner.contains ')' := by
            rw [Bool.eq_iff_iff]
            simpa using later.mem_iff (c := ')') (by decide)
          have goesOn : (' ' != ')') = true := by decide
          obtain ⟨params, behind⟩ : Loosened (inner.takeWhile (· != ')')) _ ∧ Loosened _ _ :=
            later.split goesOn
          have closing : ∀ c ∈ (inner.dropWhile (· != ')')).head?, isBlank c = false := by
            intro c first
            have stops := List.head?_dropWhile_not (· != ')') inner
            rw [Option.mem_def.mp first] at stops
            obtain rfl : c = ')' := by simpa using stops
            decide
          simp only [defineBehind, closes]
          split
          · exact ⟨rfl, .some (macroParams_same params), (behind.drop_one closing).sameLine⟩
          · exact ⟨rfl, .none, Loosened.sameLine (.inr (.cons _ later))⟩
        · refine plain (fun inner same => ?_) (fun inner same => ?_)
          all_goals exact opens (List.cons.inj same).1

/-- A definition with one more space in a gap defines the same. -/
theorem define?_same {text text' : List Char} (loosened : Loosened text text')
    : Option.Rel SameDefine (define? text) (define? text') := by
  rw [define?_eq, define?_eq]
  refine rel_bind (loosened.strip? (by decide)) fun rest rest' loosened => ?_
  refine rel_bind (loosened.trimStart.strip? (by decide)) fun rest rest' loosened => ?_
  refine rel_bind (r := fun one other => one.1 = other.1 ∧ Loosened one.2 other.2) ?_ ?_
  · rcases loosened with rfl | respaced
    · split
      · exact Loosened.identifier? (.refl _)
      · exact .none
    · cases respaced with
      | last => exact .none
      | before blank =>
          simpa [blank, isBlank_space] using
            (Loosened.trimStart (.inr (.before blank))).identifier?
      | behind blank =>
          simpa [blank] using (Loosened.trimStart (.inr (.behind blank))).identifier?
      | cons c later =>
          cases blank : isBlank c with
          | false => simp [blank]
          | true =>
              simpa [blank] using (Loosened.trimStart (.inr (.cons c later))).identifier?
  · rintro ⟨name, rest⟩ ⟨name', rest'⟩ ⟨rfl, loosened⟩
    exact .some (defineBehind_same loosened name)

theorem readDirective_same (agrees : scope.Agrees other) {text text' : List Char}
    (loosened : Loosened text text')
    : SameResult number (readDirective context scope text) (readDirective context other text') := by
  have same := define?_same loosened
  unfold readDirective
  generalize define? text = one, define? text' = two at same
  cases same with
  | none => exact ⟨rfl, agrees⟩
  | @some define define' same =>
      obtain ⟨name, params, body⟩ := define
      obtain ⟨name', params', body'⟩ := define'
      obtain ⟨rfl, params, body⟩ := same
      cases params with
      | some params =>
          exact ⟨rfl, agrees.defineMacro? _ params (Token.tokens?_loosened body)⟩
      | none =>
          dsimp only
          rw [agrees.eval?_eq, Scope.eval?_loosened body]
          cases scope.eval? _ with
          | none => exact ⟨rfl, agrees⟩
          | some value => exact ⟨rfl, agrees.define _ _⟩

/-- Two items are read alike, whatever is read before them. -/
def SameItem (number : Nat → Option Nat) (one other : Item) : Prop :=
  ∀ context scope scope', scope.Agrees scope'
    → SameResult number (readItem context scope one) (readItem context scope' other)

theorem sameItem_directive {text text' : List Char} (loosened : Loosened text text')
    : SameItem number (.directive text) (.directive text') :=
  fun _ _ _ agrees => readDirective_same agrees loosened

theorem sameItem_statement (lines : number line' = number line) {raw raw' : List Char}
    (same : words raw' = words raw)
    : SameItem number (.statement raw line) (.statement raw' line') :=
  fun _ _ _ agrees => readStatement_same agrees lines same

end Header

end ApiBindings
