import ApiBindings.Proofs.Reading.Functions
import ApiBindings.Proofs.Reading.Openings

/-! Blocks of `extern "C"` around declarations.
What opens a block is taken out of the text, and the brace that closes it is dropped as one that
closes nothing. So a block is read like what stands in it if braces are balanced in front of it and
in it, and it makes no difference whether a statement is over there. Where it does make one, an
opening is taken out that goes over the end of a text, or has a directive behind it on its line.
-/

namespace ApiBindings.Header

open ApiBindings.Constant
open ApiBindings.Text

variable {cs ds : List Char} {depth depth' after : Nat} {c : Char}

-----------------------------------------------------------------------------------------
-- Depths
-----------------------------------------------------------------------------------------

/-- How many braces are open behind a sign. One that closes nothing is passed over. -/
def nextDepth (depth : Nat) (c : Char) : Nat :=
  if c = '\x7b' then depth + 1 else if c = '\x7d' then depth - 1 else depth

theorem nextDepth_mono (fewer : depth' ≤ depth) (c : Char)
    : nextDepth depth' c ≤ nextDepth depth c := by
  unfold nextDepth
  split
  · exact Nat.succ_le_succ fewer
  · split
    · exact Nat.sub_le_sub_right fewer 1
    · exact fewer

theorem le_nextDepth (other : c ≠ '\x7d') (depth : Nat) : depth ≤ nextDepth depth c := by
  unfold nextDepth
  split
  · exact Nat.le_succ depth
  · rfl

/-- Where nothing is closed that was not opened, no brace is passed over. -/
theorem foldl_nextDepth_of_braceDepth? (nests : braceDepth? depth cs = some after)
    : cs.foldl nextDepth depth = after := by
  fun_induction braceDepth? depth cs with
  | case1 depth => exact Option.some.inj nests
  | case2 depth cs ih => exact ih nests
  | case3 cs opens => cases nests
  | case4 cs opens depth ih => exact ih nests
  | case5 depth c cs opens closes ih =>
      rw [List.foldl_cons, nextDepth, if_neg opens, if_neg closes]
      exact ih nests

/-- The signs on lines that are no directives. -/
def outsideDirectives (lines : List (List Char)) : List Char :=
  lines.flatMap fun line => if IsDirective line then [] else line

namespace Cutter

theorem depth_read (line : Nat) (cutter : Cutter) (c : Char)
    : (read line cutter c).depth = nextDepth cutter.depth c := by
  unfold Cutter.read nextDepth
  split
  · rfl
  · split
    · split
      · rename_i none
        rw [none]
      · dsimp only
        split <;> rfl
    · split <;> rfl

theorem depth_foldl_read (line : Nat) (cutter : Cutter) (cs : List Char)
    : (cs.foldl (read line) cutter).depth = cs.foldl nextDepth cutter.depth := by
  induction cs generalizing cutter with
  | nil => rfl
  | cons c cs ih => rw [List.foldl_cons, List.foldl_cons, ih, depth_read]

theorem depth_readFrom (first : Nat) (cutter : Cutter) (lines : List (List Char))
    : (readFrom first cutter lines).depth
      = (outsideDirectives lines).foldl nextDepth cutter.depth := by
  induction lines generalizing first cutter with
  | nil => rfl
  | cons line lines ih =>
      rw [readFrom, ih, outsideDirectives, outsideDirectives, List.flatMap_cons, List.foldl_append]
      congr 1
      split
      · rename_i directive
        rw [readLine_directive directive]
        rfl
      · rename_i plain
        rw [readLine_statement plain]
        exact depth_foldl_read first cutter line

end Cutter

/-- A line that signs have been taken out of, other than braces that close. -/
structure Thinned (line left : List Char) : Prop where
  directive : IsDirective left ↔ IsDirective line
  depth
    : ∀ {depth depth'}, depth' ≤ depth
      → left.foldl nextDepth depth' ≤ line.foldl nextDepth depth

theorem Thinned.keep {line left : List Char} (thinned : Thinned line left) (c : Char)
    : Thinned (c :: line) (c :: left) where
  directive := by rw [isDirective_cons_iff, isDirective_cons_iff, thinned.directive]
  depth fewer := thinned.depth (nextDepth_mono fewer c)

theorem Thinned.space {line left : List Char} (thinned : Thinned line left)
    : Thinned line (' ' :: left) where
  directive := by
    rw [isDirective_cons_iff, thinned.directive]
    simp [isBlank_space]
  depth fewer := thinned.depth fewer

theorem Thinned.drop {line left : List Char} (thinned : Thinned line left)
    (other : c ∉ "#\x7d".toList) (plain : ¬IsDirective left)
    : Thinned (c :: line) left where
  directive := by
    have sign : c ≠ '#' := fun same => other (by simp [same])
    have none : ¬IsDirective line := mt thinned.directive.mpr plain
    rw [isDirective_cons_iff]
    exact iff_of_false plain (by simp [sign, none])
  depth fewer :=
    thinned.depth (fewer.trans (le_nextDepth (fun same => other (by simp [same])) _))

/-- Signs are taken out line by line. -/
theorem Thins.lines (thins : Thins cs ds)
    : List.Forall₂ Thinned (cut isBreak cs) (cut isBreak ds) := by
  induction thins with
  | nil => exact .cons ⟨.rfl, id⟩ .nil
  | @keep c cs ds _ ih =>
      cases breaks : isBreak c with
      | true =>
          rw [cut_cons_of_cut breaks, cut_cons_of_cut breaks]
          exact .cons ⟨.rfl, id⟩ ih
      | false =>
          obtain ⟨line, lines, shape, longer⟩ := cut_cons_of_not_cut breaks cs
          obtain ⟨left, lefts, shape', longer'⟩ := cut_cons_of_not_cut breaks ds
          rw [shape, shape'] at ih
          rw [longer, longer']
          obtain ⟨first, later⟩ := List.forall₂_cons.mp ih
          exact .cons (first.keep c) later
  | @drop c cs ds solid other plain _ ih =>
      have keeps : isBreak c = false := beq_eq_false_iff_ne.mpr solid
      obtain ⟨line, lines, shape, longer⟩ := cut_cons_of_not_cut keeps cs
      obtain ⟨left, lefts, shape'⟩ := List.exists_cons_of_ne_nil (cut_ne_nil isBreak ds)
      rw [shape, shape'] at ih
      rw [longer, shape']
      obtain ⟨first, later⟩ := List.forall₂_cons.mp ih
      have plain : ¬IsDirective left := fun starts => plain ⟨left, by simp [shape'], starts⟩
      exact .cons (first.drop other plain) later
  | @space cs ds _ ih =>
      obtain ⟨line, lines, shape⟩ := List.exists_cons_of_ne_nil (cut_ne_nil isBreak cs)
      have keeps : isBreak ' ' = false := by decide
      obtain ⟨left, lefts, shape', longer'⟩ := cut_cons_of_not_cut keeps ds
      rw [shape, shape'] at ih
      rw [shape, longer']
      obtain ⟨first, later⟩ := List.forall₂_cons.mp ih
      exact .cons first.space later

/-- Fewer braces are open behind lines if others than those that close are taken out of them. -/
theorem foldl_nextDepth_le {lines lefts : List (List Char)}
    (thinned : List.Forall₂ Thinned lines lefts) (fewer : depth' ≤ depth)
    : (outsideDirectives lefts).foldl nextDepth depth'
      ≤ (outsideDirectives lines).foldl nextDepth depth := by
  induction thinned generalizing depth depth' with
  | nil => exact fewer
  | cons first _ ih =>
      rw [outsideDirectives, outsideDirectives, List.flatMap_cons, List.flatMap_cons,
        List.foldl_append, List.foldl_append]
      refine ih ?_
      simp only [first.directive]
      split
      · exact fewer
      · exact first.depth fewer

/-- A text that ends with a line. Its braces are balanced outside of comments and directives. -/
structure IsWhole (text : List Char) : Prop extends EndsLines text where
  balanced : IsBalanced (outsideDirectives (cut isBreak (joinedText text)))

/-- The lines of a whole text when its openings are taken out. No brace is open behind them. -/
theorem IsWhole.exists_lines {text : List Char} (whole : IsWhole text)
    (spares : SparesDirectives (joinedText text))
    : ∃ lines, (∀ back, cut isBreak (prepare text ++ back) = lines ++ cut isBreak back)
        ∧ ∀ (first : Nat) (cutter : Cutter), cutter.depth = 0
          → (Cutter.readFrom first cutter lines).depth = 0 := by
  rw [prepare_eq_unlink_joinedText]
  obtain ⟨lines, shape⟩ := whole.endsInBreak_joinedText.unlink.exists_cut
  refine ⟨lines, shape, fun first cutter none => ?_⟩
  have whole' := shape []
  have fewer := foldl_nextDepth_le spares.thins.lines (Nat.le_refl 0)
  rw [foldl_nextDepth_of_braceDepth? whole.balanced, ← List.append_nil (unlink _), whole',
    outsideDirectives, List.flatMap_append] at fewer
  rw [Cutter.depth_readFrom, none]
  simpa [outsideDirectives, cut] using fewer

-----------------------------------------------------------------------------------------
-- Directives that define nothing
-----------------------------------------------------------------------------------------

/-- A directive that is no definition, or one of a name that stands for nothing. -/
def Item.isInert : Item → Bool
  | .directive text => (define? text).all fun define => define.params.isNone && define.body.isEmpty
  | .statement _ _ => false

theorem eval?_nil (scope : Scope) : scope.eval? [] = none := by
  have nothing : Token.tokens? [] = some [] := by rw [Token.tokens?]
  simp [Scope.eval?, nothing, maxNesting, Reader.readNested?, Reader.readAll?, Reader.readExpr,
    Reader.readUnary, Reader.readPrimary]

theorem readItem_of_isInert {item : Item} (inert : item.isInert = true) (context : Context)
    (scope : Scope)
    : readItem context scope item = ({}, scope) := by
  cases item with
  | directive text =>
      rw [readItem, readDirective]
      cases defines : define? text with
      | none => rfl
      | some define =>
          have empty : define.params = none ∧ define.body = [] := by
            simpa [Item.isInert, defines] using inert
          simp [empty, eval?_nil]
  | statement text line => cases inert

theorem collect_filter_isInert (context : Context) (scope : Scope) (items : List Item)
    : Findings.collect (readItem context) scope (items.filter fun item => !item.isInert)
      = Findings.collect (readItem context) scope items := by
  induction items generalizing scope with
  | nil => rfl
  | cons item items ih =>
      rw [Findings.collect_cons]
      cases inert : item.isInert with
      | true =>
          rw [List.filter_cons_of_neg (by simp [inert]), ih, readItem_of_isInert inert]
          rfl
      | false =>
          rw [List.filter_cons_of_pos (by simp [inert]), Findings.collect_cons, ih]

namespace Cutter

variable {one other cutter : Cutter} {line : List Char}

/-- Forgets the directives that define nothing. -/
def bare (cutter : Cutter) : Cutter :=
  { cutter with items := cutter.items.filter fun item => !item.isInert }

theorem bare_read (line : Nat) (cutter : Cutter) (c : Char)
    : (read line cutter c).bare = read line cutter.bare c := by
  have depth : cutter.bare.depth = cutter.depth := rfl
  have statement : cutter.bare.statement = cutter.statement := rfl
  simp only [Cutter.read, depth, statement]
  split_ifs <;> rfl

theorem bare_foldl_read (line : Nat) (cutter : Cutter) (cs : List Char)
    : (cs.foldl (read line) cutter).bare = cs.foldl (read line) cutter.bare := by
  induction cs generalizing cutter with
  | nil => rfl
  | cons c cs ih => rw [List.foldl_cons, List.foldl_cons, ih, bare_read]

/-- A line with a directive that defines nothing. -/
def IsInertLine (line : List Char) : Prop :=
  IsDirective line ∧ (Item.directive (trim line)).isInert = true

instance (line : List Char) : Decidable (IsInertLine line) :=
  inferInstanceAs (Decidable (_ ∧ _))

theorem bare_readLine_of_isInertLine (inert : IsInertLine line) (cutter : Cutter) (number : Nat)
    : (cutter.readLine (number, line)).bare = cutter.bare := by
  rw [readLine_directive inert.1]
  simp [bare, inert.2]

theorem bare_readLine (counts : ¬IsInertLine line) (cutter : Cutter) (number : Nat)
    : (cutter.readLine (number, line)).bare = cutter.bare.readLine (number, line) := by
  by_cases directive : IsDirective line
  · have defines : (Item.directive (trim line)).isInert = false :=
      Bool.eq_false_iff.mpr fun inert => counts ⟨directive, inert⟩
    rw [readLine_directive directive, readLine_directive directive]
    simp [bare, defines]
  · rw [readLine_statement directive, readLine_statement directive, ← bare_foldl_read]
    rfl

/-- Lines are read alike but for directives that define nothing. By induction on the lines. -/
theorem Alike.bare_readFrom (alike : Alike noNumber one.bare other.bare) (fresh : one.IsFresh)
    (fresh' : other.IsFresh) (lines : List (List Char)) (first first' : Nat)
    : Alike noNumber (Cutter.readFrom first one lines).bare
        (Cutter.readFrom first' other lines).bare := by
  induction lines generalizing one other first first' with
  | nil => exact alike
  | cons line lines ih =>
      refine ih ?_ (fresh.readLine _) (fresh'.readLine _) _ _
      by_cases inert : IsInertLine line
      · rw [bare_readLine_of_isInertLine inert, bare_readLine_of_isInertLine inert]
        exact alike
      · rw [bare_readLine inert, bare_readLine inert]
        exact alike.readLine fresh fresh' (sameLine_refl line) rfl

-----------------------------------------------------------------------------------------
-- Lines that are passed over
-----------------------------------------------------------------------------------------

/-- Lines leave nothing behind but directives that define nothing. -/
def Passes (cutter : Cutter) (lines : List (List Char)) : Prop :=
  ∀ first, Alike noNumber cutter.bare (readFrom first cutter lines).bare

theorem passes_of_isInertLine (inert : IsInertLine line) (cutter : Cutter)
    : cutter.Passes [line] := by
  intro first
  rw [readFrom, readFrom, bare_readLine_of_isInertLine inert]
  exact .refl _

theorem IsFresh.passes_blank (fresh : cutter.IsFresh) (blank : ∀ c ∈ line, isBlank c = true)
    : cutter.Passes [line] := by
  intro first
  have plain : ¬IsDirective line := by
    have nothing : trim line = [] := trim_eq_nil (List.all_eq_true.mpr blank)
    rw [IsDirective, nothing]
    decide
  have inert : ¬IsInertLine line := fun inert => plain inert.1
  obtain ⟨alike, fresh⟩ := (Alike.refl cutter.bare).blanks fresh blank first
  rw [Cutter.readFrom, Cutter.readFrom, bare_readLine inert, readLine_statement plain,
    ← read_break first]
  exact (alike.blank fresh (by decide) first).1

/-- A brace that closes nothing is passed over. -/
theorem IsFresh.passes_brace (fresh : cutter.IsFresh) (none : cutter.depth = 0)
    : cutter.Passes ["\x7d".toList] := by
  intro first
  have plain : ¬IsDirective "\x7d".toList := by decide
  have inert : ¬IsInertLine "\x7d".toList := fun inert => plain inert.1
  have dropped : read first cutter.bare '\x7d' = cutter.bare := by
    rw [read, if_neg (by decide), if_pos rfl]
    exact if_pos none
  have passed : ("\x7d".toList.foldl (read first) cutter.bare).close = cutter.bare.close :=
    congrArg close dropped
  rw [Cutter.readFrom, Cutter.readFrom, bare_readLine inert, readLine_statement plain, passed,
    ← read_break first]
  exact ((Alike.refl cutter.bare).blank fresh (by decide) first).1

theorem Passes.append {front back : List (List Char)} (before : cutter.Passes front)
    (behind : ∀ first, (readFrom first cutter front).Passes back)
    : cutter.Passes (front ++ back) := by
  intro first
  rw [readFrom_append]
  exact (before first).trans (behind first _)

end Cutter

-----------------------------------------------------------------------------------------
-- Blocks
-----------------------------------------------------------------------------------------

/-- A line, which only compilers of C++ may be meant to read. -/
def guarded (guard : Bool) (line : List Char) : List (List Char) :=
  if guard then ["#ifdef __cplusplus".toList, line, "#endif".toList] else [line]

def asLines (lines : List (List Char)) : List Char :=
  lines.flatMap fun line => line ++ ['\n']

/-- A block around a text, with its opening and its last brace on lines of their own. -/
def linkageBlock (guard : Bool) (text : List Char) : List Char :=
  asLines (guarded guard "extern \"C\" \x7b".toList) ++ text
    ++ asLines (guarded guard "\x7d".toList)

/-- A line is passed over if it is so without a guard. -/
theorem passes_guarded {line : List Char}
    (passes : ∀ cutter : Cutter, cutter.IsFresh → cutter.depth = 0 → cutter.Passes [line])
    (guard : Bool) {cutter : Cutter} (fresh : cutter.IsFresh) (none : cutter.depth = 0)
    : cutter.Passes (guarded guard line) := by
  cases guard with
  | false => exact passes cutter fresh none
  | true =>
      have opens : Cutter.IsInertLine "#ifdef __cplusplus".toList := by decide +kernel
      have closes : Cutter.IsInertLine "#endif".toList := by decide +kernel
      have inner : cutter.Passes ["#ifdef __cplusplus".toList, line] := by
        refine (Cutter.passes_of_isInertLine opens cutter).append fun first => ?_
        refine passes _ (fresh.readFrom _ _) ?_
        rw [Cutter.depth_readFrom, none]
        rfl
      exact inner.append fun first => Cutter.passes_of_isInertLine closes _

theorem cut_asLines {lines : List (List Char)} (solid : ∀ line ∈ lines, '\n' ∉ line)
    (back : List Char)
    : cut isBreak (asLines lines ++ back) = lines ++ cut isBreak back := by
  induction lines with
  | nil => rfl
  | cons line lines ih =>
      obtain ⟨first, solid⟩ := List.forall_mem_cons.mp solid
      have shape : asLines (line :: lines) ++ back = line ++ '\n' :: (asLines lines ++ back) := by
        simp [asLines]
      rw [shape, cut_append_of_cut (by decide), cut_of_unbroken first, ih solid]
      rfl

theorem cut_guarded {line : List Char} (solid : '\n' ∉ line) (guard : Bool) (back : List Char)
    : cut isBreak (asLines (guarded guard line) ++ back)
      = guarded guard line ++ cut isBreak back := by
  refine cut_asLines (fun other member => ?_) back
  cases guard with
  | false =>
      obtain rfl := List.mem_singleton.mp member
      exact solid
  | true =>
      have ends : ∀ other ∈ ["#ifdef __cplusplus".toList, "#endif".toList], '\n' ∉ other := by decide
      rcases List.mem_cons.mp member with same | member
      · exact ends other (by simp [same])
      · rcases List.mem_cons.mp member with rfl | member
        · exact solid
        · exact ends other (List.mem_cons_of_mem _ member)

/-- Signs that start no comment and end no line are kept when lines are joined. -/
theorem joinedText_plain {front : List Char} (plain : ∀ c ∈ front, c ∉ "/\\\r".toList)
    (back : List Char)
    : joinedText (front ++ back) = front ++ joinedText back := by
  have absent : '/' ∉ front := fun inside => plain '/' inside (by simp)
  have lines : ∀ c ∈ front, c ≠ '\\' ∧ c ≠ '\r' := by
    intro c inside
    have other := plain c inside
    exact ⟨fun same => other (by simp [same]), fun same => other (by simp [same])⟩
  rw [joinedText, (isClosed_of_not_mem absent).strip_append, stripComments_eq absent,
    joinContinued_append lines]
  rfl

theorem joinedText_eq_self {text : List Char} (plain : ∀ c ∈ text, c ∉ "/\\\r".toList)
    : joinedText text = text := by
  have whole := joinedText_plain plain []
  rwa [joinedText_nil, List.append_nil] at whole

/-- Of the line that opens a block a blank is left. -/
theorem unlink_guarded_opening (guard : Bool) (back : List Char)
    : unlink (asLines (guarded guard "extern \"C\" \x7b".toList) ++ back) =
        asLines (guarded guard [' ']) ++ unlink back := by
  have alone (back : List Char)
      : unlink ("extern \"C\" \x7b".toList ++ '\n' :: back) = ' ' :: '\n' :: unlink back := by
    have blank : ∀ c ∈ [' '], isBlank c = true := by decide
    have taken := unlink_opening_append blank blank ('\n' :: back)
    rw [unlink_of_isBlank (by decide)] at taken
    exact taken
  cases guard with
  | false =>
      have shape : asLines (guarded false "extern \"C\" \x7b".toList) ++ back =
          "extern \"C\" \x7b".toList ++ '\n' :: back :=
        rfl
      rw [shape, alone]
      rfl
  | true =>
      have shape : asLines (guarded true "extern \"C\" \x7b".toList) ++ back =
          "#ifdef __cplusplus\n".toList ++ ("extern \"C\" \x7b".toList
            ++ '\n' :: ("#endif\n".toList ++ back)) :=
        rfl
      rw [shape, unlink_append (by decide), unlink_eq_self (by decide), alone,
        unlink_append (by decide), unlink_eq_self (by decide)]
      rfl

theorem unlink_guarded_brace (guard : Bool) (back : List Char)
    : unlink (asLines (guarded guard "\x7d".toList) ++ back) =
        asLines (guarded guard "\x7d".toList) ++ unlink back := by
  have stops
      : ∀ tail ∈ (asLines (guarded guard "\x7d".toList)).tails,
          tail.head? = some 'e' → tail.any isStop = true := by
    cases guard <;> decide
  have plain : ∀ tail ∈ (asLines (guarded guard "\x7d".toList)).tails, linkage? tail = none := by
    cases guard <;> decide
  rw [unlink_append stops, unlink_eq_self plain]

/-- What is read from a text is read from its lines, whatever directives there define nothing. -/
theorem sameItems_cut (text : List Char)
    : SameItems noNumber
        (Cutter.readFrom 1 {} (cut isBreak text)).bare.items.reverse (items text) := by
  have alike : Cutter.Alike noNumber _ _ := Cutter.alike_behind text
  refine SameItems.trans ?_ (collect_readItem_same (List.rel_reverse alike.items)).symm
  intro context scope other agrees
  rw [Cutter.bare, ← List.filter_reverse, collect_filter_isInert]
  refine collect_readItem_same ?_ _ _ _ agrees
  exact List.forall₂_same.mpr fun item _ => .refl item

/-- Where texts are put together, the openings in them stay what they are: none goes over the ends
of the inner one, and a number sign behind one in front of those ends starts no directive.
-/
structure KeepsOpenings (front inner back : List Char) : Prop where
  before : ¬OpensInto (joinedText front) (joinedText (inner ++ back))
  behind : ¬OpensInto (joinedText inner) (joinedText back)
  front : SparesDirectives (joinedText front)
  inner : SparesDirectives (joinedText inner)

section

variable {front inner : List Char} (before : IsWhole front) (within : IsWhole inner)

include before within

theorem prepare_texts (back : List Char) (keeps : KeepsOpenings front inner back)
    : prepare (front ++ inner ++ back) = prepare front ++ (prepare inner ++ prepare back) := by
  have first := keeps.before
  rw [within.joinedText_append] at first
  rw [List.append_assoc]
  simp only [prepare_eq_unlink_joinedText]
  rw [before.joinedText_append, within.joinedText_append, unlink_append_of_not_opensInto first,
    unlink_append_of_not_opensInto keeps.behind]

/-- No opening goes over the line that opens a block, or over the one that closes it. -/
theorem prepare_linkageBlock (guard : Bool) (back : List Char)
    : prepare (front ++ linkageBlock guard inner ++ back) =
        prepare front ++ (asLines (guarded guard [' '])
          ++ (prepare inner ++ (asLines (guarded guard "\x7d".toList) ++ prepare back))) := by
  have starts (back : List Char)
      : ContinuesNone (asLines (guarded guard "extern \"C\" \x7b".toList) ++ back)
        ∧ ContinuesNone (asLines (guarded guard "\x7d".toList) ++ back) := by
    constructor
    all_goals
      cases guard
      all_goals
        rintro c ⟨⟩
        decide
  have shape : front ++ linkageBlock guard inner ++ back =
      front ++ (asLines (guarded guard "extern \"C\" \x7b".toList)
        ++ (inner ++ (asLines (guarded guard "\x7d".toList) ++ back))) := by
    simp only [linkageBlock, List.append_assoc]
  rw [shape]
  simp only [prepare_eq_unlink_joinedText]
  rw [before.joinedText_append, joinedText_plain (by cases guard <;> decide),
    within.joinedText_append, joinedText_plain (by cases guard <;> decide),
    before.endsInBreak_joinedText.unlink_append (starts _).1, unlink_guarded_opening,
    within.endsInBreak_joinedText.unlink_append (starts _).2, unlink_guarded_brace]

/-- What stands in a block, and what is behind it, is read alike without the block. -/
theorem alike_linkageBlock (guard : Bool) (back : List Char)
    (keeps : KeepsOpenings front inner back)
    : Cutter.Alike noNumber
        (Cutter.readFrom 1 {} (cut isBreak (prepare (front ++ inner ++ back)))).bare
        (Cutter.readFrom 1 {}
          (cut isBreak (prepare (front ++ linkageBlock guard inner ++ back)))).bare := by
  obtain ⟨earlier, shape, closed⟩ := before.exists_lines keeps.front
  obtain ⟨lines, shape', closed'⟩ := within.exists_lines keeps.inner
  rw [prepare_texts before within back keeps, prepare_linkageBlock before within guard back, shape,
    shape', shape, cut_guarded (by decide), shape', cut_guarded (by decide)]
  simp only [Cutter.readFrom_append]
  have fresh := Cutter.isFresh_start.readFrom 1 earlier
  have rest := closed 1 {} rfl
  generalize Cutter.readFrom 1 {} earlier = start at fresh rest
  have opens : start.Passes (guarded guard [' ']) :=
    passes_guarded (fun _ fresh _ => fresh.passes_blank (by decide)) guard fresh rest
  have fresh' (first : Nat) := fresh.readFrom first (guarded guard [' '])
  have rest' (first : Nat) := (opens first).depth.trans rest
  -- What stands in the block is read behind a blank line, and the brace behind it closes nothing.
  refine Cutter.Alike.bare_readFrom ?_ (fresh.readFrom _ _) (((fresh' _).readFrom _ _).readFrom _ _)
    _ _ _
  refine Cutter.Alike.trans ?_
    (passes_guarded (fun _ fresh none => fresh.passes_brace none) guard ((fresh' _).readFrom _ _)
      (closed' _ _ (rest' _)) _)
  exact (opens _).bare_readFrom fresh (fresh' _) lines _ _

/-- A block of `extern "C"` is read like what stands in it. -/
theorem read_linkageBlock (setting : Setting) (guard : Bool) (back : List Char)
    (keeps : KeepsOpenings front inner back)
    : (setting.read (front ++ linkageBlock guard inner ++ back)).unnumbered
      = (setting.read (front ++ inner ++ back)).unnumbered := by
  have alike := alike_linkageBlock before within guard back keeps
  have same := collect_readItem_same (List.rel_reverse alike.items)
  have whole := (sameItems_cut _).symm.trans (same.trans (sameItems_cut _))
  exact congrArg (Records.mk · setting.dialect.api.registryName) (setting.read_of_items whole)

end

/-- What is needed of a text that has neither comments nor continued lines. -/
theorem isWhole_of_plain {text : List Char} (plain : ∀ c ∈ text, c ∉ "/\\\r".toList)
    (ends : EndsInBreak text) (balanced : IsBalanced (outsideDirectives (cut isBreak text)))
    : IsWhole text where
  comments := isClosed_of_not_mem fun inside => plain '/' inside (by simp)
  ends := ends
  ended := by
    rw [stripComments_eq fun inside => plain '/' inside (by simp)]
    intro line last
    have member : line ∈ cut isBreak text := List.mem_of_mem_dropLast (List.mem_of_getLast? last)
    refine isContinued_of_not_mem fun inside => plain '\\' (mem_of_mem_cut member inside) (by simp)
  balanced := by rwa [joinedText_eq_self plain]

theorem prepare_of_plain {text : List Char} (plain : ∀ c ∈ text, c ∉ "/\\\r".toList)
    (opens : ∀ tail ∈ text.tails, linkage? tail = none)
    : prepare text = text := by
  rw [prepare_eq_unlink_joinedText, joinedText_eq_self plain, unlink_eq_self opens]

/-- A constant and a type with braces. -/
def pairLines : List Char :=
  "#define VX_LIMIT 4\ntypedef struct \x7b int a; \x7d vx_pair;\n".toList

/-- A function with a body. -/
def helperLines : List Char :=
  "static int one(void) \x7b return 1; \x7d\n".toList

/-- A block around a function. -/
theorem helperLines_inBlock
    : IsWhole pairLines ∧ IsWhole helperLines
      ∧ KeepsOpenings pairLines helperLines prototypeLine
      ∧ (markedHeader.read (pairLines ++ linkageBlock true helperLines ++ prototypeLine)).unnumbered
        = (markedHeader.read (pairLines ++ helperLines ++ prototypeLine)).unnumbered := by
  -- The signs of the literals, which take long to decode.
  have text : pairLines = _ := String.toList_ofList
  have text' : helperLines = _ := String.toList_ofList
  have text'' : prototypeLine = _ := String.toList_ofList
  have plain : ∀ c ∈ pairLines, c ∉ "/\\\r".toList := by
    rw [text]
    decide
  have plain' : ∀ c ∈ helperLines, c ∉ "/\\\r".toList := by
    rw [text']
    decide
  have plain'' : ∀ c ∈ prototypeLine, c ∉ "/\\\r".toList := by
    rw [text'']
    decide
  have front : IsWhole pairLines := by
    refine isWhole_of_plain plain ?_ ?_
    · rw [text]
      decide
    · rw [text, IsBalanced]
      decide
  have inner : IsWhole helperLines := by
    refine isWhole_of_plain plain' ?_ ?_
    · rw [text']
      decide
    · rw [text', IsBalanced]
      decide
  have keeps : KeepsOpenings pairLines helperLines prototypeLine := {
    before := by
      rw [joinedText_eq_self plain, joinedText_plain plain', joinedText_eq_self plain'', text,
        text', text'']
      decide
    behind := by
      rw [joinedText_eq_self plain', joinedText_eq_self plain'', text', text'']
      decide
    front := by
      rw [joinedText_eq_self plain, text]
      decide
    inner := by
      rw [joinedText_eq_self plain', text']
      decide
  }
  exact ⟨front, inner, keeps, read_linkageBlock front inner markedHeader true prototypeLine keeps⟩

/-- A type, and a macro that stands for a linkage. -/
def macroLines : List Char :=
  "typedef int vx_status;\n#define VX_LINKAGE extern \"C\"\n".toList

/-- A type in braces, and one outside of them. -/
def bracedLines : List Char :=
  "\x7b typedef int vx_hidden; \x7d\ntypedef int vx_enum;\n".toList

/-- What these two texts are read as with a type behind them. -/
def openedLines : List Char :=
  ("typedef int vx_status;\n#define VX_LINKAGE \n typedef int vx_hidden; \x7d\n"
    ++ "typedef int vx_enum;\ntypedef int A;\n").toList

/-- Without a block the braces behind the macro are taken for one, so the type in them is declared.
-/
theorem bracedLines_opened
    : IsWhole macroLines ∧ IsWhole bracedLines ∧ IsWhole typedefLine
      ∧ (Cutter.behind (prepare macroLines)).IsAtRest
      ∧ (Cutter.behind (prepare bracedLines)).IsAtRest
      ∧ (∀ tail ∈ (joinedText bracedLines).tails, linkage? tail = none)
      ∧ (markedHeader.read (macroLines ++ linkageBlock false bracedLines ++ typedefLine)).unnumbered
        ≠ (markedHeader.read (macroLines ++ bracedLines ++ typedefLine)).unnumbered := by
  -- The signs of the literals, which take long to decode.
  have text : macroLines = _ := String.toList_ofList
  have text' : bracedLines = _ := String.toList_ofList
  have text'' : typedefLine = _ := String.toList_ofList
  have whole : openedLines = _ :=
    String.toList_append.trans (congrArg₂ (· ++ ·) String.toList_ofList String.toList_ofList)
  have plain : ∀ c ∈ macroLines, c ∉ "/\\\r".toList := by
    rw [text]
    decide
  have plain' : ∀ c ∈ bracedLines, c ∉ "/\\\r".toList := by
    rw [text']
    decide
  have plain'' : ∀ c ∈ typedefLine, c ∉ "/\\\r".toList := by
    rw [text'']
    decide
  have front : IsWhole macroLines := by
    refine isWhole_of_plain plain ?_ ?_
    · rw [text]
      decide
    · rw [text, IsBalanced]
      decide
  have inner : IsWhole bracedLines := by
    refine isWhole_of_plain plain' ?_ ?_
    · rw [text']
      decide
    · rw [text', IsBalanced]
      decide
  have back : IsWhole typedefLine := by
    refine isWhole_of_plain plain'' ?_ ?_
    · rw [text'']
      decide
    · rw [text'', IsBalanced]
      decide
  have opens : ∀ tail ∈ macroLines.tails, linkage? tail = none := by
    rw [text]
    decide
  have opens' : ∀ tail ∈ bracedLines.tails, linkage? tail = none := by
    rw [text']
    decide
  have prepared := prepare_of_plain plain opens
  have prepared' := prepare_of_plain plain' opens'
  refine ⟨front, inner, back, ?_, ?_, ?_, fun same => ?_⟩
  · rw [prepared, text]
    exact ⟨by decide, by decide⟩
  · rw [prepared', text']
    exact ⟨by decide, by decide⟩
  · rwa [joinedText_eq_self plain']
  have enclosed := prepare_linkageBlock front inner false typedefLine
  rw [prepared, prepared', prepare_typedefLine] at enclosed
  have opened : prepare (macroLines ++ bracedLines ++ typedefLine) = openedLines := by
    rw [text, text', text'', whole]
    decide +kernel
  have within
      : (markedHeader.found (prepare (macroLines ++ linkageBlock false bracedLines
          ++ typedefLine))).types.map TypeDecl.name = ["vx_status", "vx_enum", "A"] := by
    rw [enclosed, text, text', text'']
    decide +kernel
  have without
      : (markedHeader.found (prepare (macroLines ++ bracedLines ++ typedefLine))).types.map
          TypeDecl.name
        = ["vx_status", "vx_hidden", "vx_enum", "A"] := by
    rw [opened, Setting.found, ← collect_filter_isInert, whole]
    decide +kernel
  rw [(found_eq_of_unnumbered same).1, without] at within
  exact absurd within (by decide)

end ApiBindings.Header
