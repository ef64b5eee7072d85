import ApiBindings.Proofs.Reading.Seams
import ApiBindings.Proofs.Reading.Typedefs

/-! Definitions of functions among the declarations of a header.
Whether a pair of braces is the body of a function is told by how the statement starts. If it starts
like a declaration whose braces are part of it, what follows the body is taken for the rest of one
statement; else the definition leaves nothing behind.
-/

namespace ApiBindings

/-- Records without the lines of their faults. -/
def Records.unnumbered (records : Records) : Records where
  toFindings := records.toFindings.renumber fun _ => none
  source := records.source

namespace Header

open ApiBindings.Constant
open ApiBindings.Text

-----------------------------------------------------------------------------------------
-- Functions
-----------------------------------------------------------------------------------------

namespace Cutter

variable {one other : Cutter}

/-- Signs that open or close a block or end a statement. -/
def blockSigns : List Char :=
  "\x7b\x7d;".toList

theorem read_of_not_mem {c : Char} (plain : c ∉ blockSigns) (line : Nat) (cutter : Cutter)
    : read line cutter c = cutter.take line c := by
  have differs {sign : Char} (member : sign ∈ blockSigns) : c ≠ sign := by
    rintro rfl
    exact plain member
  have ending : ¬(c = ';' ∧ cutter.depth = 0) := fun ended => differs (by decide) ended.1
  rw [read, if_neg (differs (by decide)), if_neg (differs (by decide)), if_neg ending]

/-- Some characters have been taken into the statement, and braces opened or closed. -/
structure Takes (one : Cutter) (text : List Char) (depth : Nat) (other : Cutter) : Prop where
  statement : other.statement = text.reverse ++ one.statement
  depth : other.depth = depth
  items : other.items = one.items

theorem takes_take (cutter : Cutter) (line : Nat) (c : Char)
    : Takes cutter [c] cutter.depth (cutter.take line c) :=
  ⟨rfl, rfl, rfl⟩

theorem Takes.trans {third : Cutter} {front back : List Char} {depth depth' : Nat}
    (first : Takes one front depth other) (second : Takes other back depth' third)
    : Takes one (front ++ back) depth' third where
  statement := by rw [second.statement, first.statement, List.reverse_append, List.append_assoc]
  depth := second.depth
  items := second.items.trans first.items

theorem takes_nil (cutter : Cutter) : Takes cutter [] cutter.depth cutter :=
  ⟨rfl, rfl, rfl⟩

theorem takes_foldl_read {cs : List Char} (plain : ∀ c ∈ cs, c ∉ blockSigns) (line : Nat)
    (cutter : Cutter)
    : Takes cutter cs cutter.depth (cs.foldl (read line) cutter) := by
  induction cs generalizing cutter with
  | nil => exact takes_nil cutter
  | cons c cs ih =>
      obtain ⟨here, plain⟩ := List.forall_mem_cons.mp plain
      rw [List.foldl_cons, read_of_not_mem here]
      exact (takes_take cutter line c).trans (ih plain _)

end Cutter

/-- The number of braces that are open behind a text, if none closes that was not opened. -/
def braceDepth? (depth : Nat) : List Char → Option Nat
  | [] => some depth
  | c :: cs =>
      if c = '\x7b' then
        braceDepth? (depth + 1) cs
      else if c = '\x7d' then
        match depth with
        | 0 => none
        | depth + 1 => braceDepth? depth cs
      else
        braceDepth? depth cs

/-- Each brace in a text is closed in it, and only what was opened in it is closed. -/
def IsBalanced (cs : List Char) : Prop :=
  braceDepth? 0 cs = some 0

namespace Cutter

variable {one other cutter : Cutter}

/-- In a block everything is taken, by induction on what stands in it. -/
theorem takes_block {cs : List Char} {depth after : Nat}
    (nests : braceDepth? depth cs = some after) (line : Nat) {cutter : Cutter}
    (inside : cutter.depth = depth + 1)
    : Takes cutter cs (after + 1) (cs.foldl (read line) cutter) := by
  induction cs generalizing cutter depth with
  | nil =>
      cases nests
      exact inside ▸ takes_nil cutter
  | cons c cs ih =>
      rw [List.foldl_cons]
      unfold braceDepth? at nests
      split at nests
      · rename_i opens
        have first : Takes cutter [c] (depth + 2) (read line cutter c) := by
          rw [read, if_pos opens]
          exact ⟨rfl, congrArg (· + 1) inside, rfl⟩
        exact first.trans (ih nests first.depth)
      · rename_i noOpening
        split at nests
        · rename_i closes
          cases depth with
          | zero => cases nests
          | succ depth =>
              have first : Takes cutter [c] (depth + 1) (read line cutter c) := by
                rw [read, if_neg noOpening, if_pos closes, inside]
                exact ⟨rfl, rfl, rfl⟩
              exact first.trans (ih nests first.depth)
        · rename_i noClosing
          have first : Takes cutter [c] (depth + 1) (read line cutter c) := by
            have goesOn : ¬(c = ';' ∧ cutter.depth = 0) := by
              rw [inside]
              exact fun ended => absurd ended.2 (Nat.succ_ne_zero _)
            rw [read, if_neg noOpening, if_neg noClosing, if_neg goesOn]
            exact ⟨rfl, inside, rfl⟩
          exact first.trans (ih nests first.depth)

end Cutter

/-- The definition of a function: a head that ends in a parameter list, a body, and blanks behind
that. No line of it is a directive.
-/
structure FunctionDefinition where
  head : List Char
  body : List Char
  tail : List Char
  plain : ∀ c ∈ head, c ∉ Cutter.blockSigns
  call : (trimEnd head).getLast? = some ')'
  balanced : IsBalanced body
  blank : ∀ c ∈ tail, isBlank c = true
  lines : ∀ line ∈ cut isBreak (head ++ '\x7b' :: body ++ '\x7d' :: tail), ¬IsDirective line

def FunctionDefinition.text (definition : FunctionDefinition) : List Char :=
  definition.head ++ '\x7b' :: definition.body ++ '\x7d' :: definition.tail

/-- The brace that opens a block is not part of a word in front of it. -/
theorem isBracedDeclaration_append {front : List Char} (blank : ∀ c ∈ front, isBlank c = true)
    (head back : List Char)
    : isBracedDeclaration (front ++ (head ++ '\x7b' :: back)) = isBracedDeclaration head := by
  have plain : ∀ start ∈ bracedStarts, '\x7b' ∉ start := by decide
  have trimmed
      : trimStart (front ++ (head ++ '\x7b' :: back)) = trimStart head ++ '\x7b' :: back := by
    rw [trimStart_append, trimStart_append_cons (by decide)]
    split
    · rfl
    · rename_i word
      exact absurd (List.all_eq_true.mpr blank) word
  unfold isBracedDeclaration
  rw [trimmed, Bool.eq_iff_iff, List.any_eq_true, List.any_eq_true]
  refine exists_congr fun start => and_congr_right fun member => ?_
  rw [strip?_append_cons (plain start member), Option.isSome_map]

namespace Cutter

variable {cutter : Cutter} {definition : FunctionDefinition}

/-- The brace that closes the last open block ends a function, unless it belongs to a declaration.
-/
theorem read_closing (last : cutter.depth = 1) (line : Nat)
    : read line cutter '\x7d' =
        if isBracedDeclaration cutter.statement.reverse then
          { cutter with depth := 0 }.take line '\x7d'
        else { cutter with depth := 0 }.clear := by
  have inner : ¬cutter.depth = 0 := by simp [last]
  rw [read, if_neg (by decide), if_pos rfl, if_neg inner]
  cases isBracedDeclaration cutter.statement.reverse <;> simp [last]

/-- A definition is taken up to the brace that closes it. That brace is taken, too, or drops all of
it.
-/
theorem IsAtRest.exists_inner (rest : cutter.IsAtRest) (definition : FunctionDefinition)
    : ∃ inner,
        Takes cutter (definition.head ++ '\x7b' :: definition.body) 1 inner
        ∧ definition.text.foldl (read 0) cutter =
          definition.tail.foldl (read 0)
            (if isBracedDeclaration definition.head then { inner with depth := 0 }.take 0 '\x7d'
            else { inner with depth := 0 }.clear) := by
  have head := takes_foldl_read definition.plain 0 cutter
  have opened : Takes cutter (definition.head ++ ['\x7b']) 1
      (read 0 (definition.head.foldl (read 0) cutter) '\x7b') :=
    head.trans ⟨rfl, congrArg (· + 1) (head.depth.trans rest.depth), rfl⟩
  have inside := opened.trans (takes_block definition.balanced 0 opened.depth)
  rw [List.append_assoc, List.singleton_append] at inside
  rw [FunctionDefinition.text, List.foldl_append, List.foldl_cons, List.foldl_append,
    List.foldl_cons]
  generalize definition.body.foldl (read 0) _ = inner at inside
  have blank : ∀ c ∈ cutter.statement.reverse, isBlank c = true :=
    fun c member => rest.statement c (List.mem_reverse.mp member)
  have known
      : isBracedDeclaration inner.statement.reverse = isBracedDeclaration definition.head := by
    rw [inside.statement, List.reverse_append, List.reverse_reverse]
    exact isBracedDeclaration_append blank _ _
  exact ⟨inner, inside, by rw [read_closing inside.depth 0, known]⟩

/-- What a definition leaves between statements: nothing, or all of it if it is taken for the start
of a declaration.
-/
theorem IsAtRest.foldl_read_definition (rest : cutter.IsAtRest) (definition : FunctionDefinition)
    : let behind := definition.text.foldl (read 0) cutter
      behind.items = cutter.items
      ∧ (isBracedDeclaration definition.head = false → behind.IsAtRest)
      ∧ (isBracedDeclaration definition.head = true
        → behind.depth = 0 ∧ '\x7b' ∈ behind.statement) := by
  obtain ⟨inner, inside, shape⟩ := rest.exists_inner definition
  rw [shape]
  have solid : ∀ c ∈ definition.tail, c ∉ blockSigns := by
    intro c member signs
    have words : ∀ sign ∈ blockSigns, isBlank sign = false := by decide
    cases (definition.blank c member).symm.trans (words c signs)
  cases isBracedDeclaration definition.head with
  | true =>
      have tail := takes_foldl_read solid 0 ({ inner with depth := 0 }.take 0 '\x7d')
      refine ⟨tail.items.trans inside.items, fun no => absurd no (by simp), fun _ => ⟨tail.depth, ?_⟩⟩
      rw [if_pos rfl, tail.statement]
      simp [take, inside.statement]
  | false =>
      have tail := takes_foldl_read solid 0 { inner with depth := 0 }.clear
      refine ⟨tail.items.trans inside.items, fun _ => ⟨tail.depth, ?_⟩, fun no => absurd no (by simp)⟩
      rw [if_neg (by simp), tail.statement, clear, List.append_nil]
      exact fun c member => definition.blank c (List.mem_reverse.mp member)

end Cutter

-----------------------------------------------------------------------------------------
-- Definitions between texts
-----------------------------------------------------------------------------------------

variable {front back : List Char} {definition : FunctionDefinition}

theorem FunctionDefinition.not_startsDirective (definition : FunctionDefinition) (back : List Char)
    : ¬StartsDirective (definition.text ++ back) := by
  rintro ⟨line, starts, directive⟩
  obtain ⟨earlier, last, shape⟩ := exists_cut_concat isBreak definition.text
  obtain ⟨first, later, shape'⟩ := List.exists_cons_of_ne_nil (cut_ne_nil isBreak back)
  have plain : ∀ line ∈ earlier ++ [last], ¬IsDirective line := shape ▸ definition.lines
  rw [cut_append shape shape'] at starts
  cases earlier with
  | nil =>
      cases starts
      rcases isDirective_append_iff.mp directive with here | ⟨blank, -⟩
      · exact plain last (by simp) here
      · have whole : definition.text = last := by
          rw [← joinedLines_cut definition.text, shape]
          simp [joinedLines]
        have brace : '\x7b' ∈ last := by simp [← whole, FunctionDefinition.text]
        cases blank _ brace
  | cons line earlier =>
      cases starts
      exact plain _ (by simp) directive

/-- A definition on lines of its own leaves nothing behind. -/
theorem Cutter.IsAtRest.alike_definition {cutter : Cutter} (rest : cutter.IsAtRest)
    (function : isBracedDeclaration definition.head = false) (first : Nat)
    : Cutter.Alike noNumber cutter (Cutter.readFrom first cutter (cut isBreak definition.text)) := by
  obtain ⟨items, ended, -⟩ := rest.foldl_read_definition definition
  have passed := Cutter.readFrom_joinedLines definition.lines (cut_ne_nil isBreak _) first cutter
  rw [joinedLines_cut] at passed
  exact (rest.alike (ended function).close items).trans passed.symm

variable (complete : IsComplete front) (function : isBracedDeclaration definition.head = false)

include complete function

theorem IsComplete.alike_definition
    : Cutter.Alike noNumber (Cutter.behind (front ++ '\n' :: back))
        (Cutter.behind (front ++ '\n' :: definition.text ++ '\n' :: back)) := by
  have rest := isAtRest_behind_iff.mp complete.rest
  have fresh := Cutter.isFresh_start.readFrom 1 (cut isBreak front)
  refine (Cutter.alike_behind _).trans (.trans ?_ (Cutter.alike_behind _).symm)
  rw [List.append_assoc, List.cons_append, cut_append_of_cut (by decide),
    cut_append_of_cut (by decide) front, cut_append_of_cut (by decide), Cutter.readFrom_append,
    Cutter.readFrom_append, Cutter.readFrom_append]
  exact (rest.alike_definition function _).readFrom fresh (fresh.readFrom _ _) (sameLines_refl _)
    fun _ => rfl

/-- A complete text is still so with a definition behind it. -/
theorem IsComplete.append_definition : IsComplete (front ++ '\n' :: definition.text) where
  rest := by
    have rest := isAtRest_behind_iff.mp complete.rest
    rw [isAtRest_behind_iff, cut_append_of_cut (by decide), Cutter.readFrom_append]
    exact (rest.alike_definition function _).isAtRest rest
  line := by
    rw [cut_append_of_cut (by decide), List.getLast?_append_of_ne_nil _ (cut_ne_nil isBreak _)]
    exact fun line last => definition.lines line (List.mem_of_getLast? last)

/-- A definition between texts leaves nothing behind. Line breaks around it change nothing, and on
lines of its own it is passed over.
-/
theorem IsComplete.alike_between
    (directive : StartsDirective back → EndsLine front ∧ EndsLine definition.text)
    : Cutter.Alike noNumber (Cutter.behind (front ++ back))
        (Cutter.behind (front ++ definition.text ++ back)) := by
  have later := definition.not_startsDirective back
  have inner := complete.alike_break fun starts => absurd starts later
  have ends : StartsDirective back → EndsLine (front ++ '\n' :: definition.text) := fun starts => by
    rw [EndsLine, cut_append_of_cut (by decide),
      List.getLast?_append_of_ne_nil _ (cut_ne_nil isBreak _)]
    exact (directive starts).2
  have outer := (complete.append_definition function).alike_break ends
  rw [List.append_assoc, List.cons_append] at outer
  rw [List.append_assoc]
  refine (complete.alike_break fun starts => (directive starts).1).trans ?_
  refine (complete.alike_definition function).trans ?_
  exact outer.symm.trans inner.symm

omit complete function

-----------------------------------------------------------------------------------------
-- Definitions that are left out
-----------------------------------------------------------------------------------------

/-- The definition of a function can be left out, unless it starts like a declaration. -/
theorem unnumbered_read {text : List Char} (prepared : prepare text = definition.text)
    (closed : IsSeam text back) (apart : StandsApart front text back)
    (function : isBracedDeclaration definition.head = false) (setting : Setting)
    : (setting.read (front ++ text ++ back)).unnumbered
      = (setting.read (front ++ back)).unnumbered := by
  have directive
      : StartsDirective (prepare back) → EndsLine (prepare front) ∧ EndsLine definition.text :=
    prepared ▸ apart.directive
  have alike := apart.complete.alike_between function directive
  have whole
      : prepare (front ++ text ++ back) = prepare front ++ definition.text ++ prepare back := by
    rw [List.append_assoc, apart.before, closed, prepared, List.append_assoc]
  rw [← apart.without, ← whole] at alike
  have same : List.Forall₂ (SameItem noNumber) (items (prepare (front ++ back)))
      (items (prepare (front ++ text ++ back))) := List.rel_reverse alike.items
  exact congrArg (Records.mk · setting.dialect.api.registryName) (setting.read_same same)

/-- The declaration of a type on a line of its own. -/
def typeLine : List Char :=
  "typedef int T".toList

def typeBehind : List Char :=
  '\n' :: (typeLine ++ [';'])

theorem prepare_typeBehind : prepare typeBehind = typeBehind :=
  prepare_eq_self (by decide) (by decide) (by decide)

/-- The statement that a definition and the declaration behind it are taken for. -/
theorem sameItems_mistaken (mistaken : isBracedDeclaration definition.head = true)
    : ∃ raw line, '\x7b' ∈ raw
        ∧ List.Forall₂ (SameItem noNumber) (items (definition.text ++ typeBehind))
            [.statement raw line] := by
  have atRest : Cutter.IsAtRest {} := ⟨rfl, List.forall_mem_nil _⟩
  obtain ⟨items, -, taken⟩ := atRest.foldl_read_definition definition
  obtain ⟨depth, brace⟩ := taken mistaken
  generalize met : definition.text.foldl (Cutter.read 0) {} = inner at items depth brace
  have plain : ∀ c ∈ typeLine, c ∉ Cutter.blockSigns := by decide
  have taken := Cutter.takes_foldl_read plain 0 inner.close
  generalize whole : typeLine.foldl (Cutter.read 0) inner.close = outer at taken
  have ended : ¬IsDirective (typeLine ++ [';']) := by decide
  have pieces : cut isBreak (definition.text ++ typeBehind)
      = cut isBreak definition.text ++ [typeLine ++ [';']] := by
    rw [typeBehind, cut_append_of_cut (by decide)]
    rfl
  have lines : ∀ line ∈ cut isBreak (definition.text ++ typeBehind), ¬IsDirective line := by
    rw [pieces]
    exact List.forall_mem_append.mpr ⟨definition.lines, List.forall_mem_singleton.mpr ended⟩
  have passed := Cutter.readFrom_joinedLines lines (cut_ne_nil isBreak _) 1 {}
  have closing : Cutter.read 0 outer ';' =
      { outer with items := .statement outer.statement.reverse outer.line :: outer.items }.clear := by
    have outside : outer.depth = 0 := taken.depth.trans depth
    rw [Cutter.read, if_neg (by decide), if_neg (by decide), if_pos ⟨rfl, outside⟩]
  rw [joinedLines_cut, List.foldl_append, met, typeBehind, List.foldl_cons, Cutter.read_break,
    List.foldl_append, whole, List.foldl_cons, List.foldl_nil, closing, ← typeBehind] at passed
  refine ⟨outer.statement.reverse, outer.line, ?_, ?_⟩
  · rw [taken.statement]
    simp [Cutter.close, brace]
  · have same := ((Cutter.alike_behind _).trans passed).items
    have none : outer.items = [] := taken.items.trans items
    simp only [Cutter.close, Cutter.clear, none] at same
    exact List.rel_reverse same

/-- What is found in the items of a text behind no other header. -/
def Setting.found (setting : Setting) (text : List Char) : Findings :=
  (Findings.collect (readItem setting.context) Scope.initial (items text)).1

/-- A single header adds neither types nor commands to those of its items. -/
theorem markedHeader_read (text : List Char)
    : (markedHeader.read text).types = (markedHeader.found (prepare text)).types
      ∧ (markedHeader.read text).commands = (markedHeader.found (prepare text)).commands := by
  have types : (markedHeader.read text).types =
      (markedHeader.found (prepare (String.ofList text).toList)).types ++ [] ++ [] := rfl
  have commands : (markedHeader.read text).commands =
      (markedHeader.found (prepare (String.ofList text).toList)).commands ++ [] ++ [] := rfl
  rw [String.toList_ofList, List.append_nil, List.append_nil] at types commands
  exact ⟨types, commands⟩

/-- Texts that are read alike up to the lines of faults have items that are. -/
theorem found_eq_of_unnumbered {text other : List Char}
    (same : (markedHeader.read text).unnumbered = (markedHeader.read other).unnumbered)
    : (markedHeader.found (prepare text)).types = (markedHeader.found (prepare other)).types
      ∧ (markedHeader.found (prepare text)).commands
        = (markedHeader.found (prepare other)).commands := by
  have types : (markedHeader.read text).types = (markedHeader.read other).types :=
    congrArg (fun records => records.types) same
  have commands : (markedHeader.read text).commands = (markedHeader.read other).commands :=
    congrArg (fun records => records.commands) same
  rw [(markedHeader_read _).1, (markedHeader_read _).1] at types
  rw [(markedHeader_read _).2, (markedHeader_read _).2] at commands
  exact ⟨types, commands⟩

/-- A definition that is mistaken for a declaration swallows the one behind it. -/
theorem brace_mem_of_mem_types {text : List Char} (prepared : prepare text = definition.text)
    (closed : IsSeam text typeBehind) (mistaken : isBracedDeclaration definition.head = true)
    : ∀ decl ∈ (markedHeader.read (text ++ typeBehind)).types, '\x7b' ∈ decl.c.toList := by
  obtain ⟨raw, line, brace, same⟩ := sameItems_mistaken mistaken
  intro decl declared
  rw [(markedHeader_read _).1, Setting.found, closed, prepared, prepare_typeBehind] at declared
  have alone := collect_readItem_same same markedHeader.context _ _ (.refl Scope.initial)
  have types := congrArg (fun found => found.types) alone.found
  simp only [Findings.renumber] at types
  rw [← types, Findings.collect_cons] at declared
  have declared := (List.mem_append.mp declared).resolve_right List.not_mem_nil
  obtain ⟨-, written⟩ := types_readStatement declared
  rw [written]
  have inside := mem_collapse_of_mem brace (by decide)
  cases stripped : strip? "extern ".toList (collapse raw) with
  | none => exact inside
  | some text =>
      have shape := eq_append_of_strip? stripped
      rw [shape] at inside
      exact (List.mem_append.mp inside).resolve_left (by decide)

/-- A definition can be left out of every header exactly if it does not start like a declaration. -/
theorem isTransparent_iff {text : List Char} (prepared : prepare text = definition.text)
    (closed : ∀ back, IsSeam text back)
    : (∀ (setting : Setting) (front back : List Char), StandsApart front text back
        → (setting.read (front ++ text ++ back)).unnumbered
          = (setting.read (front ++ back)).unnumbered)
      ↔ isBracedDeclaration definition.head = false := by
  constructor
  · intro transparent
    by_contra mistaken
    rw [Bool.not_eq_false] at mistaken
    have nothing : prepare [] = [] := prepare_eq_self (by decide) (by decide) (by decide)
    have same := transparent markedHeader [] typeBehind {
      complete := by
        rw [nothing]
        exact ⟨⟨rfl, List.forall_mem_nil _⟩, by decide⟩
      before := by rw [IsSeam, nothing, List.nil_append, List.nil_append]
      without := by rw [IsSeam, nothing, List.nil_append, List.nil_append]
      directive := by
        have shape : cut isBreak typeBehind = [[], typeLine ++ [';']] := by decide
        rw [prepare_typeBehind]
        rintro ⟨line, first, directive⟩
        rw [shape] at first
        cases first
        cases directive
    }
    have declared : { name := "T", c := "typedef int T", source := "vx.h" }
        ∈ (markedHeader.read typeBehind).types := by
      rw [(markedHeader_read _).1, prepare_typeBehind]
      decide +kernel
    have types
        : (markedHeader.read (text ++ typeBehind)).types = (markedHeader.read typeBehind).types :=
      congrArg (fun records => records.types) same
    have brace := brace_mem_of_mem_types prepared (closed _) mistaken _ (types ▸ declared)
    exact absurd brace (by decide)
  · exact fun function setting front back apart =>
      unnumbered_read prepared (closed back) apart function setting

def typedefLine : List Char :=
  "typedef int A;\n".toList

def prototypeLine : List Char :=
  "VX_API_ENTRY int vxFoo(void);\n".toList

/-- A function that starts like one. -/
def staticHelper : FunctionDefinition where
  head := "static int helper(void) ".toList
  body := " return 1; ".toList
  tail := ['\n']
  plain := by decide
  call := by decide
  balanced := by unfold IsBalanced; decide
  blank := by decide
  lines := by decide

/-- A function that starts like the declaration of a linkage. -/
def externHelper : FunctionDefinition where
  head := "extern int helper(void) ".toList
  body := " return 1; ".toList
  tail := ['\n']
  plain := by decide
  call := by decide
  balanced := by unfold IsBalanced; decide
  blank := by decide
  lines := by decide

theorem prepare_typedefLine : prepare typedefLine = typedefLine :=
  prepare_eq_self (by decide) (by decide) (by decide)

theorem prepare_prototypeLine : prepare prototypeLine = prototypeLine :=
  prepare_eq_self (by decide) (by decide) (by decide)

theorem typedefLine_isSealed : IsSealed typedefLine :=
  isSealed_of_not_mem (by decide) (by decide) (by decide)

theorem typedefLine_standsApart (text : List Char)
    : StandsApart typedefLine text prototypeLine where
  complete := by
    rw [prepare_typedefLine]
    exact ⟨⟨by decide, by decide⟩, by decide⟩
  before := typedefLine_isSealed.isSeam _
  without := typedefLine_isSealed.isSeam _
  directive := by
    rw [prepare_prototypeLine]
    have plain : ¬StartsDirective prototypeLine := by
      unfold StartsDirective
      decide
    exact fun starts => absurd starts plain

/-- A function that starts like one is passed over. -/
theorem staticHelper_passed
    : (markedHeader.read (typedefLine ++ staticHelper.text ++ prototypeLine)).unnumbered
      = (markedHeader.read (typedefLine ++ prototypeLine)).unnumbered := by
  have prepared : prepare staticHelper.text = staticHelper.text :=
    prepare_eq_self (by decide) (by decide) (by decide)
  have closed : IsSealed staticHelper.text :=
    isSealed_of_not_mem (by decide) (by decide) (by decide)
  have function : isBracedDeclaration staticHelper.head = false := by decide
  exact (isTransparent_iff prepared closed.isSeam).mpr function markedHeader _ _
    (typedefLine_standsApart _)

/-- A function that is declared `extern` takes the prototype behind it along. -/
theorem externHelper_swallows
    : prepare externHelper.text = externHelper.text
      ∧ (∀ back, IsSeam externHelper.text back)
      ∧ StandsApart typedefLine externHelper.text prototypeLine
      ∧ (markedHeader.read (typedefLine ++ externHelper.text ++ prototypeLine)).unnumbered
        ≠ (markedHeader.read (typedefLine ++ prototypeLine)).unnumbered := by
  have closed : IsSealed externHelper.text :=
    isSealed_of_not_mem (by decide) (by decide) (by decide)
  have prepared : prepare externHelper.text = externHelper.text :=
    prepare_eq_self (by decide) (by decide) (by decide)
  refine ⟨prepared, closed.isSeam, typedefLine_standsApart _, fun same => ?_⟩
  have whole : prepare (typedefLine ++ externHelper.text ++ prototypeLine) =
      typedefLine ++ externHelper.text ++ prototypeLine := by
    rw [List.append_assoc, typedefLine_isSealed.isSeam, closed.isSeam, prepared,
      prepare_typedefLine, prepare_prototypeLine]
  have alone : prepare (typedefLine ++ prototypeLine) = typedefLine ++ prototypeLine := by
    rw [typedefLine_isSealed.isSeam, prepare_typedefLine, prepare_prototypeLine]
  -- The signs of the literals, which take long to decode.
  have text : typedefLine = _ := String.toList_ofList
  have text' : prototypeLine = _ := String.toList_ofList
  have head : externHelper.head = _ := String.toList_ofList
  have body : externHelper.body = _ := String.toList_ofList
  have swallowed
      : (markedHeader.found (typedefLine ++ externHelper.text ++ prototypeLine)).commands.map
          Command.name
        = ["helper"] := by
    rw [text, text', FunctionDefinition.text, head, body]
    decide +kernel
  have kept
      : (markedHeader.found (typedefLine ++ prototypeLine)).commands.map Command.name
        = ["vxFoo"] := by
    rw [text, text']
    decide +kernel
  have commands := (found_eq_of_unnumbered same).2
  rw [whole, alone] at commands
  rw [commands, kept] at swallowed
  exact absurd swallowed (by decide)

end Header

end ApiBindings
