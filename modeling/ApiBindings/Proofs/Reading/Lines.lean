import ApiBindings.Proofs.Reading.Places
import ApiBindings.Proofs.Reading.Shares

/-! The lines that the faults of a header name.
A statement starts with the first sign behind a place where nothing has been read of one. What has
been read since then is never left again before the semicolon that ends the statement, so its line
is that of its first sign, and this line is the one on which the sign stands in the text itself.
-/

namespace ApiBindings.Header

open ApiBindings.Constant
open ApiBindings.Findings
open ApiBindings.Text

-----------------------------------------------------------------------------------------
-- Reading inside of a line
-----------------------------------------------------------------------------------------

namespace Cutter

variable {one other cutter : Cutter} {c : Char} {cs : List Char}

/-- The first sign of the statement that is being read. -/
def first? (cutter : Cutter) : Option Char :=
  (trimStart cutter.statement.reverse).head?

theorem first?_eq_none_iff : cutter.first? = none ↔ ∀ c ∈ cutter.statement, isBlank c = true := by
  rw [first?, List.head?_eq_none_iff, trimStart, List.dropWhile_eq_nil_iff]
  simp

theorem isAtRest_iff : cutter.IsAtRest ↔ cutter.depth = 0 ∧ cutter.first? = none := by
  rw [first?_eq_none_iff]
  exact ⟨fun rest => ⟨rest.depth, rest.statement⟩, fun rest => ⟨rest.1, rest.2⟩⟩

/-- Nothing but blanks and directives has been read in between. -/
structure Skips (one other : Cutter) : Prop where
  first : other.first? = one.first?
  line : other.line = one.line
  depth : other.depth = one.depth
  statements : ∀ raw line, .statement raw line ∈ other.items → .statement raw line ∈ one.items

theorem Skips.refl (cutter : Cutter) : Skips cutter cutter :=
  ⟨rfl, rfl, rfl, fun _ _ => id⟩

theorem Skips.trans {third : Cutter} (first : Skips one other) (second : Skips other third)
    : Skips one third where
  first := second.first.trans first.first
  line := second.line.trans first.line
  depth := second.depth.trans first.depth
  statements raw line member := first.statements raw line (second.statements raw line member)

theorem Skips.isAtRest_iff (skips : Skips one other) : other.IsAtRest ↔ one.IsAtRest := by
  rw [Cutter.isAtRest_iff, Cutter.isAtRest_iff, skips.first, skips.depth]

theorem first?_blank (blank : isBlank c = true) (cutter : Cutter)
    : first? { cutter with statement := c :: cutter.statement } = cutter.first? := by
  rw [first?, List.reverse_cons, trimStart_append]
  split
  · rename_i none
    have nothing : trimStart cutter.statement.reverse = [] :=
      List.dropWhile_eq_nil_iff.mpr (List.all_eq_true.mp none)
    rw [trimStart_cons_of_blank blank, first?, nothing]
    rfl
  · rename_i some
    have nonempty : trimStart cutter.statement.reverse ≠ [] := fun nothing =>
      some (List.all_eq_true.mpr (List.dropWhile_eq_nil_iff.mp nothing))
    rw [List.head?_append_of_ne_nil _ nonempty, first?]

/-- A blank may be read or not. -/
theorem skips_blank (blank : isBlank c = true) (cutter : Cutter)
    : Skips cutter { cutter with statement := c :: cutter.statement }
      ∧ Skips { cutter with statement := c :: cutter.statement } cutter := by
  have same := first?_blank blank cutter
  exact ⟨⟨same, rfl, rfl, fun _ _ => id⟩, same.symm, rfl, rfl, fun _ _ => id⟩

theorem skips_directive (text : List Char) (cutter : Cutter)
    : Skips cutter { cutter with items := .directive text :: cutter.items } :=
  ⟨rfl, rfl, rfl, fun _ _ member => (List.mem_cons.mp member).resolve_left nofun⟩

theorem skips_blanks (blank : ∀ c ∈ cs, isBlank c = true) (line : Nat) (cutter : Cutter)
    : Skips (cs.foldl (read line) cutter) cutter := by
  induction cs generalizing cutter with
  | nil => exact .refl cutter
  | cons c cs ih =>
      obtain ⟨first, blank⟩ := List.forall_mem_cons.mp blank
      have inner := (skips_blank first cutter).2
      rw [← read_of_isBlank first line] at inner
      exact (ih blank _).trans inner

/-- What has been read in front of the last line of a text whose lines are given. -/
def start (earlier : List (List Char)) : Cutter :=
  readFrom 1 {} (earlier.map dropReturn)

/-- What has been read of a text that goes on. Its last line counts as far as it goes, if it is no
directive.
-/
def within (cs : List Char) : Cutter :=
  let earlier := (cut isBreak cs).dropLast
  let last := (cut isBreak cs).getLast?.getD []
  if IsDirective last then start earlier
  else last.foldl (read (earlier.length + 1)) (start earlier)

variable {earlier : List (List Char)} {last : List Char}

theorem within_eq (shape : cut isBreak cs = earlier ++ [last])
    : within cs =
        if IsDirective last then start earlier
        else last.foldl (read (earlier.length + 1)) (start earlier) := by
  simp [within, shape]

theorem behind_eq (shape : cut isBreak cs = earlier ++ [last])
    : behind cs =
        if last = [] then start earlier else (start earlier).readLine (earlier.length + 1, last) := by
  rw [behind, numberedLines, foldl_mapIdx, lines, shape, readFrom_append]
  simp only [List.dropLast_concat, List.getLast?_concat, Option.toList_some, List.length_map]
  cases last with
  | nil => rfl
  | cons c last => simp [readFrom, start, Nat.add_comm]

theorem skips_within (cs : List Char) : Skips (within cs) (behind cs) := by
  obtain ⟨earlier, last, shape⟩ := exists_cut_concat isBreak cs
  rw [within_eq shape, behind_eq shape]
  split
  · rename_i directive
    split
    · exact .refl _
    · rw [readLine_directive directive]
      exact skips_directive _ _
  · rename_i plain
    split
    · rename_i nothing
      rw [nothing]
      exact .refl _
    · rw [readLine_statement plain]
      exact (skips_blank (by decide) _).1

theorem items_eq_within (shape : cut isBreak cs = earlier ++ [last]) (plain : ¬IsDirective last)
    : Header.items cs = (within cs).items.reverse := by
  have same : (behind cs).items = (within cs).items := by
    rw [within_eq shape, behind_eq shape, if_neg plain]
    split
    · rename_i nothing
      rw [nothing]
      rfl
    · rw [readLine_statement plain]
      rfl
  rw [← same]
  rfl

theorem isDirective_dropReturn_iff (line : List Char)
    : IsDirective (dropReturn line) ↔ IsDirective line :=
  ((sameLine_dropReturn line).head?_eq_some_iff (by decide)).symm

theorem skips_dropReturn (text : List Char) (line : Nat) (cutter : Cutter)
    : Skips (text.foldl (read line) cutter) ((dropReturn text).foldl (read line) cutter) := by
  unfold dropReturn
  split
  · rename_i last
    obtain ⟨front, shape⟩ := List.getLast?_eq_some_iff.mp (eq_of_beq last)
    rw [shape, List.dropLast_concat, List.foldl_concat, read_of_isBlank (by decide)]
    exact (skips_blank (by decide) _).2
  · exact .refl _

/-- A break is skipped, with the directive that it ends if there is one. -/
theorem skips_break (shape : cut isBreak cs = earlier ++ [last])
    : Skips (within cs) (within (cs ++ ['\n'])) := by
  have longer : cut isBreak (cs ++ ['\n']) = (earlier ++ [last]) ++ [[]] := by
    rw [cut_append_of_cut (by decide), shape]
    rfl
  have read : within (cs ++ ['\n']) =
      (start earlier).readLine (earlier.length + 1, dropReturn last) := by
    rw [within_eq longer, if_neg (by decide), List.foldl_nil, start, start, List.map_append,
      readFrom_append]
    simp [readFrom, Nat.add_comm]
  rw [read, within_eq shape]
  split
  · rename_i directive
    rw [readLine_directive ((isDirective_dropReturn_iff last).mpr directive)]
    exact skips_directive _ _
  · rename_i plain
    rw [readLine_statement (mt (isDirective_dropReturn_iff last).mp plain)]
    exact (skips_dropReturn last _ _).trans (skips_blank (by decide) _).1

/-- One more sign of a text is either skipped or read, at the end of a line that is no directive. -/
theorem within_concat (cs : List Char) (c : Char)
    : Skips (within cs) (within (cs ++ [c]))
      ∨ isBlank c = false
        ∧ within (cs ++ [c]) = read (breaks cs + 1) (within cs) c
        ∧ Header.items cs = (within cs).items.reverse
        ∧ Header.items (cs ++ [c]) = (within (cs ++ [c])).items.reverse := by
  obtain ⟨earlier, last, shape⟩ := exists_cut_concat isBreak cs
  by_cases breaks : c = '\n'
  · exact .inl (breaks ▸ skips_break shape)
  have keeps : isBreak c = false := beq_eq_false_iff_ne.mpr breaks
  have longer : cut isBreak (cs ++ [c]) = earlier ++ [last ++ [c]] := cut_concat shape keeps
  have count : earlier.length = Text.breaks cs := by
    have length := length_cut cs
    rw [shape, List.length_append] at length
    exact Nat.succ_injective length
  have whole := @isDirective_append_iff last [c]
  by_cases directive : IsDirective last
  · rw [within_eq longer, within_eq shape, if_pos directive, if_pos (whole.mpr (.inl directive))]
    exact .inl (.refl _)
  by_cases starts : IsDirective (last ++ [c])
  · obtain ⟨blank, -⟩ := (whole.mp starts).resolve_left directive
    rw [within_eq longer, within_eq shape, if_neg directive, if_pos starts]
    exact .inl (skips_blanks blank _ _)
  have read : within (cs ++ [c]) = Cutter.read (Text.breaks cs + 1) (within cs) c := by
    rw [within_eq longer, within_eq shape, if_neg directive, if_neg starts, List.foldl_append,
      count]
    rfl
  cases blank : isBlank c with
  | true =>
      rw [read, read_of_isBlank blank]
      exact .inl (skips_blank blank _).1
  | false =>
      exact .inr ⟨rfl, read, items_eq_within shape directive, items_eq_within longer starts⟩

/-- What reading a sign can do: nothing, or bring the cutter to rest, possibly with a statement that
it ends, or take the sign into the statement.
-/
theorem read_cases (line : Nat) (cutter : Cutter) (c : Char)
    : read line cutter c = cutter
      ∨ (read line cutter c).IsAtRest
        ∧ ((read line cutter c).items = cutter.items
          ∨ c = ';' ∧ (read line cutter c).items
            = .statement cutter.statement.reverse cutter.line :: cutter.items)
      ∨ ∃ depth, read line cutter c = { cutter with depth }.take line c := by
  have cleared (outer : Cutter) (none : outer.depth = 0) : outer.clear.IsAtRest :=
    ⟨none, fun _ inside => absurd inside List.not_mem_nil⟩
  unfold Cutter.read
  split
  · exact .inr (.inr ⟨_, rfl⟩)
  · split
    · split
      · exact .inl rfl
      · dsimp only
        split
        · rename_i closes
          have none : cutter.depth - 1 = 0 := by simpa using (Bool.and_eq_true_iff.mp closes).1
          exact .inr (.inl ⟨cleared _ none, .inl rfl⟩)
        · exact .inr (.inr ⟨_, rfl⟩)
    · split
      · rename_i ends
        exact .inr (.inl ⟨cleared _ ends.2, .inr ⟨ends.1, rfl⟩⟩)
      · exact .inr (.inr ⟨cutter.depth, rfl⟩)

end Cutter

-----------------------------------------------------------------------------------------
-- The first sign of a statement
-----------------------------------------------------------------------------------------

/-- A statement that has been begun at the end of a text: what has been read of it starts with the
sign `c` behind `before`, where nothing has been read of a statement, as something has been since
then.
-/
structure Begins (before : List Char) (c : Char) (body : List Char) : Prop where
  solid : isBlank c = false
  rest : (Cutter.behind before).IsAtRest
  goesOn : ∀ read, read <+: body → ¬(Cutter.behind (before ++ c :: read)).IsAtRest

/-- A statement of a text, from its first sign on up to its semicolon. -/
structure IsStatementAt (before : List Char) (c : Char) (body raw : List Char) : Prop
    extends Begins before c body where
  first : (trimStart raw).head? = some c
  ends
    : items (before ++ c :: body ++ [';'])
      = items (before ++ c :: body) ++ [.statement raw (breaks before + 1)]

namespace Cutter

variable {cutter : Cutter} {cs before body : List Char} {c d : Char}

theorem take_first (none : cutter.first? = none) (solid : isBlank d = false) (line : Nat)
    : (cutter.take line d).first? = some d ∧ (cutter.take line d).line = line := by
  have blank := first?_eq_none_iff.mp none
  have all : cutter.statement.all isBlank = true := List.all_eq_true.mpr blank
  refine ⟨?_, by simp [take, all, solid]⟩
  have behind := trimStart_blanks (fun c inside => blank c (List.mem_reverse.mp inside)) solid []
  rw [first?, take, List.reverse_cons, behind]
  rfl

theorem take_later (some : cutter.first? = some c) (line : Nat) (d : Char)
    : (cutter.take line d).first? = .some c ∧ (cutter.take line d).line = cutter.line := by
  have nonblank : ¬∀ c ∈ cutter.statement, isBlank c = true := by
    rw [← first?_eq_none_iff, some]
    nofun
  have all : cutter.statement.all isBlank = false := by
    rw [Bool.eq_false_iff]
    exact mt List.all_eq_true.mp nonblank
  refine ⟨?_, by simp [take, all]⟩
  rw [first?, take, List.reverse_cons, trimStart_append, List.all_reverse, all]
  rw [first?] at some
  simp [some]

/-- A statement that is being read at the end of a text is on the line of its first sign. -/
structure IsCurrent (before : List Char) (c : Char) (body : List Char) : Prop
    extends Begins before c body where
  first : (within (before ++ c :: body)).first? = some c
  line : (within (before ++ c :: body)).line = breaks before + 1

theorem not_isAtRest_behind (some : (within cs).first? = some c) : ¬(behind cs).IsAtRest := by
  rw [(skips_within cs).isAtRest_iff, isAtRest_iff, some]
  simp

/-- One more sign is read of the statement. -/
theorem IsCurrent.concat (current : IsCurrent before c body)
    (first : (within (before ++ c :: body ++ [d])).first? = some c)
    (line : (within (before ++ c :: body ++ [d])).line = (within (before ++ c :: body)).line)
    : IsCurrent before c (body ++ [d]) := by
  have whole : before ++ c :: (body ++ [d]) = before ++ c :: body ++ [d] := by simp
  refine ⟨⟨current.solid, current.rest, fun read shorter => ?_⟩, whole ▸ first, ?_⟩
  · rcases List.prefix_concat_iff.mp shorter with rfl | shorter
    · exact not_isAtRest_behind (whole ▸ first)
    · exact current.goesOn read shorter
  · rw [whole, line, current.line]

/-- The statements that are read of a text are placed: each starts with a sign in it. -/
structure IsPlaced (cs : List Char) : Prop where
  current
    : (within cs).IsAtRest ∨ ∃ before c body, cs = before ++ c :: body ∧ IsCurrent before c body
  past
    : ∀ raw line, .statement raw line ∈ (within cs).items
      → (∀ c ∈ raw, isBlank c = true)
        ∨ ∃ before c body rest, cs = before ++ c :: body ++ ';' :: rest
            ∧ IsStatementAt before c body raw ∧ line = breaks before + 1

/-- Statements that are past stay so. -/
theorem IsPlaced.past_concat (placed : IsPlaced cs) (d : Char) {raw : List Char} {line : Nat}
    (member : .statement raw line ∈ (within cs).items)
    : (∀ c ∈ raw, isBlank c = true)
      ∨ ∃ before c body rest, cs ++ [d] = before ++ c :: body ++ ';' :: rest
          ∧ IsStatementAt before c body raw ∧ line = breaks before + 1 := by
  refine (placed.past raw line member).imp_right ?_
  rintro ⟨before, c, body, rest, rfl, statement, same⟩
  exact ⟨before, c, body, rest ++ [d], by simp, statement, same⟩

theorem IsPlaced.skip (placed : IsPlaced cs) (skips : Skips (within cs) (within (cs ++ [d])))
    : IsPlaced (cs ++ [d]) where
  current := by
    refine placed.current.imp skips.isAtRest_iff.mpr ?_
    rintro ⟨before, c, body, rfl, current⟩
    exact ⟨before, c, body ++ [d], by simp,
      current.concat (skips.first.trans current.first) skips.line⟩
  past raw line member := placed.past_concat d (skips.statements raw line member)

/-- The sign is taken into the statement, which it starts if there has been nothing of it. -/
theorem IsPlaced.take (placed : IsPlaced cs) (solid : isBlank d = false) {depth : Nat}
    (read : within (cs ++ [d]) = { within cs with depth }.take (breaks cs + 1) d)
    : IsPlaced (cs ++ [d]) where
  current := by
    refine .inr ?_
    rcases placed.current with rest | ⟨before, c, body, rfl, current⟩
    · have none : first? { within cs with depth } = none := (isAtRest_iff.mp rest).2
      obtain ⟨first, line⟩ := take_first none solid (breaks cs + 1)
      rw [← read] at first line
      refine ⟨cs, d, [], rfl, ⟨solid, (skips_within cs).isAtRest_iff.mpr rest, ?_⟩, first, line⟩
      intro read shorter
      rw [List.prefix_nil.mp shorter]
      exact not_isAtRest_behind first
    · have some : first? { within (before ++ c :: body) with depth } = some c := current.first
      obtain ⟨first, line⟩ := take_later some (breaks (before ++ c :: body) + 1) d
      rw [← read] at first line
      exact ⟨before, c, body ++ [d], by simp, current.concat first line⟩
  past raw line member := by
    rw [read] at member
    exact placed.past_concat d member

/-- A semicolon ends the statement that is being read. -/
theorem IsPlaced.finish (placed : IsPlaced cs) (rest : (within (cs ++ [';'])).IsAtRest)
    (read
      : (within (cs ++ [';'])).items
        = .statement (within cs).statement.reverse (within cs).line :: (within cs).items)
    (earlier : Header.items cs = (within cs).items.reverse)
    (whole : Header.items (cs ++ [';']) = (within (cs ++ [';'])).items.reverse)
    : IsPlaced (cs ++ [';']) where
  current := .inl rest
  past raw line member := by
    rw [read] at member
    rcases List.mem_cons.mp member with same | member
    · cases same
      rcases placed.current with rest | ⟨before, c, body, rfl, current⟩
      · exact .inl fun c inside => rest.statement c (List.mem_reverse.mp inside)
      · refine .inr ⟨before, c, body, [], rfl, ⟨current.toBegins, current.first, ?_⟩, current.line⟩
        rw [whole, earlier, read, current.line, List.reverse_cons]
    · exact placed.past_concat ';' member

/-- Each statement starts on the line of its first sign. By induction on the text, sign by sign. -/
theorem isPlaced (cs : List Char) : IsPlaced cs := by
  induction cs using List.reverseRecOn with
  | nil =>
      have rest : (within []).IsAtRest := ⟨rfl, List.forall_mem_nil _⟩
      exact ⟨.inl rest, fun raw line member => absurd member List.not_mem_nil⟩
  | append_singleton cs d ih =>
      rcases within_concat cs d with skips | ⟨solid, read, before, behind⟩
      · exact ih.skip skips
      · rcases read_cases (breaks cs + 1) (within cs) d with same | ⟨rest, ends⟩ | ⟨depth, taken⟩
        · rw [same] at read
          exact ih.skip (read ▸ .refl _)
        · rw [← read] at rest ends
          rcases ends with items | ⟨rfl, items⟩
          · exact ⟨.inl rest, fun raw line member => ih.past_concat d (items ▸ member)⟩
          · exact ih.finish rest items before behind
        · exact ih.take solid (read.trans taken)

end Cutter

/-- A statement that is not blank is found in a text from its first sign on. -/
theorem exists_isStatementAt {cs raw : List Char} {line : Nat}
    (member : .statement raw line ∈ items cs)
    : (∀ c ∈ raw, isBlank c = true)
      ∨ ∃ before c body rest, cs = before ++ c :: body ++ ';' :: rest
          ∧ IsStatementAt before c body raw ∧ line = breaks before + 1 :=
  (Cutter.isPlaced cs).past raw line
    ((Cutter.skips_within cs).statements raw line (List.mem_reverse.mp member))

-----------------------------------------------------------------------------------------
-- Faults
-----------------------------------------------------------------------------------------

/-- All faults are in the header that is read, on one line. -/
def Context.FaultsOn (context : Context) (line : Nat) (found : Findings) : Prop :=
  ∀ fault ∈ found.faults, fault.input = context.source ∧ fault.line = some line

section

variable {context : Context} {line : Nat} {scope : Scope} {one other : Findings}

theorem faultsOn_fault (element : String) (problem : Problem)
    : context.FaultsOn line (context.fault element problem line) :=
  List.forall_mem_singleton.mpr ⟨rfl, rfl⟩

theorem faultsOn_of_eq_nil (none : one.faults = []) : context.FaultsOn line one := by
  intro fault member
  rw [none] at member
  cases member

theorem Context.FaultsOn.append (first : context.FaultsOn line one)
    (second : context.FaultsOn line other)
    : context.FaultsOn line (one ++ other) :=
  fun fault member => (List.mem_append.mp member).elim (first fault) (second fault)

/-- The faults of all enumerators are on the line of the enum. By induction on the enumerators. -/
theorem faultsOn_readEnumerators (group : Option String) (next : Option (BitVec 64)) (scope : Scope)
    (items : List Enumerator)
    : context.FaultsOn line (readEnumerators context group line next scope items).1 := by
  induction items generalizing next scope with
  | nil => exact faultsOn_of_eq_nil rfl
  | cons item items ih =>
      have refused (element : String) (problem : Problem) :=
        (faultsOn_fault element problem).append (ih none scope)
      have accepted (value : Value) (scope : Scope)
          : context.FaultsOn line (context.enumerant (String.ofList item.name) value group
              ++ (readEnumerators context group line (some (value.bits + 1)) scope items).1) :=
        (faultsOn_of_eq_nil rfl).append (ih _ scope)
      unfold readEnumerators
      dsimp only
      split
      · exact refused _ _
      · split
        · split
          · exact accepted _ _
          · exact refused _ _
        · split
          · exact accepted _ _
          · exact refused _ _

theorem faultsOn_readEnum (group : Option String) (text : List Char)
    : context.FaultsOn line (readEnum context group line scope text).1 := by
  rw [readEnum]
  split
  · exact faultsOn_readEnumerators group _ scope _
  · exact faultsOn_fault _ _

theorem faultsOn_readTypedef (text : List Char)
    : context.FaultsOn line (readTypedef context line scope text).1 := by
  rw [readTypedef]
  split
  · dsimp only
    split
    · exact (faultsOn_readEnum _ text).append (faultsOn_of_eq_nil rfl)
    · exact faultsOn_of_eq_nil rfl
  · exact faultsOn_of_eq_nil rfl

theorem faultsOn_readPrototype (text : List Char)
    : context.FaultsOn line (readPrototype context line text) := by
  rw [readPrototype]
  split
  · exact faultsOn_fault _ _
  · split
    · exact faultsOn_fault _ _
    · split
      · exact faultsOn_fault _ _
      · exact faultsOn_of_eq_nil rfl

theorem faultsOn_readStatement (raw : List Char)
    : context.FaultsOn line (readStatement context line scope raw).1 := by
  rw [readStatement]
  split
  · exact faultsOn_readTypedef _
  · split
    · exact faultsOn_readEnum _ _
    · split
      · exact faultsOn_readPrototype _
      · exact faultsOn_of_eq_nil rfl

/-- Nothing is wrong with a statement of blanks. -/
theorem faults_readStatement_blank {raw : List Char} (blank : ∀ c ∈ raw, isBlank c = true)
    : (readStatement context line scope raw).1.faults = [] := by
  have nothing : collapse raw = [] := by
    rw [collapse, words_eq_nil_iff.mpr (List.all_eq_true.mpr blank)]
    rfl
  have plain : strip? "extern ".toList [] = none := rfl
  rw [readStatement, nothing, plain]
  rfl

theorem faults_readDirective (text : List Char)
    : (readDirective context scope text).1.faults = [] := by
  rw [readDirective]
  split
  · rfl
  · dsimp only
    split
    · rfl
    · split
      · rfl
      · rfl

end

/-- What the items of a header are read with. -/
def Fragment.context (fragment : Fragment) (dialect : Dialect) : Context where
  dialect := dialect
  source := fragment.name
  origin := fragment.role.origin dialect.api

/-- The sign `c` of a header's text, between `front` and `back`, is the first one of the statement
`raw`.
-/
def IsFirstOf (front : List Char) (c : Char) (back raw : List Char) : Prop :=
  ∃ before body after, IsKept front c back before
    ∧ prepare (front ++ c :: back) = before ++ c :: body ++ ';' :: after
    ∧ IsStatementAt before c body raw

/-- A fault of a header that is one of a statement in it and names the line of its first sign: of
the lines that are joined where this sign stands, the first one.
-/
def Fragment.Numbers (fragment : Fragment) (dialect : Dialect) (fault : Fault) : Prop :=
  ∃ front c back raw line scope,
    fragment.text.toList = front ++ c :: back
    ∧ IsFirstOf front c back raw
    ∧ IsFirstLine front line
    ∧ fault ∈ (readStatement (fragment.context dialect) line scope raw).1.faults
    ∧ fault.input = fragment.name
    ∧ fault.line = some line

theorem numbers_of_mem_readItem {fragment : Fragment} {dialect : Dialect} {scope : Scope} {item : Item}
    {fault : Fault} (member : item ∈ items (prepare fragment.text.toList))
    (found : fault ∈ (readItem (fragment.context dialect) scope item).1.faults)
    : fragment.Numbers dialect fault := by
  cases item with
  | directive text =>
      rw [readItem, faults_readDirective] at found
      cases found
  | statement raw line =>
      rcases exists_isStatementAt member with blank | ⟨before, c, body, rest, shape, placed, same⟩
      · rw [readItem, faults_readStatement_blank blank] at found
        cases found
      · have kept : prepare fragment.text.toList = before ++ c :: (body ++ ';' :: rest) := by
          rw [shape]
          simp
        obtain ⟨front, back, whole, isKept⟩ := exists_isKept placed.solid kept
        obtain ⟨input, named⟩ := faultsOn_readStatement raw fault found
        rw [whole] at shape
        exact ⟨front, c, back, raw, line, scope, whole, ⟨before, body, rest, isKept, shape, placed⟩,
          same ▸ isKept.line, found, input, named⟩

/-- Each fault that is recorded when headers are read has the line of the statement it is about. -/
theorem read_numbersFaults (dialect : Dialect) (fragments : List Fragment)
    : ∀ fault ∈ (read dialect fragments).faults,
        ∃ fragment ∈ fragments, fragment.Numbers dialect fault := by
  refine Part.faults.forall_mem_collect (fun fragment member scope fault found => ?_) _
  refine ⟨fragment, member, ?_⟩
  rcases List.mem_append.mp found with found | found
  · exact Part.faults.forall_mem_collect (fun item member _ _ => numbers_of_mem_readItem member) scope
      fault found
  · unfold standFor at found
    split at found <;> cases found

/-- A prototype on two lines that lacks its parameters, behind a comment, the opening of a linkage
and a function.
-/
def brokenFragment : Fragment where
  name := "vx.h"
  role := .feature { major := 1, minor := 0 }
  text :=
    "/* two\r\nlines */ extern \"C\" \x7b\r\nstatic int one(void) \x7b return 1; \x7d\r\n"
      ++ "VX_API_ENTRY \\\r\n int broken;\r\n"

def brokenFault : Fault where
  input := "vx.h"
  element := "prototype"
  problem := .unreadablePrototype "VX_API_ENTRY int broken"
  line := some 4

theorem brokenFault_numbered
    : brokenFault ∈ (read markedHeader.dialect [brokenFragment]).faults
      ∧ ∃ fragment ∈ [brokenFragment], fragment.Numbers markedHeader.dialect brokenFault :=
  have found : brokenFault ∈ (read markedHeader.dialect [brokenFragment]).faults := by
    decide +kernel
  ⟨found, read_numbersFaults markedHeader.dialect [brokenFragment] brokenFault found⟩

end ApiBindings.Header
