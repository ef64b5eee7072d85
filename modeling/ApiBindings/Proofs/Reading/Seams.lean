import ApiBindings.Proofs.Reading.Comments

/-! Texts that are put together where nothing goes on.
Between statements a header can be cut and continued: a line break there changes nothing, and what
is read behind depends on nothing but the items before it. A seam is a place where also no comment,
no continued line and no opening of a linkage goes on.
-/

namespace ApiBindings

namespace Text

theorem words_append_of_blank {front : List Char} (blank : ∀ c ∈ front, isBlank c = true)
    (back : List Char)
    : words (front ++ back) = words back := by
  induction front with
  | nil => rfl
  | cons c front ih =>
      obtain ⟨first, blank⟩ := List.forall_mem_cons.mp blank
      rw [List.cons_append, words_cons_of_blank first, ih blank]

theorem trimStart_append (front back : List Char)
    : trimStart (front ++ back) =
        if front.all isBlank then trimStart back else trimStart front ++ back := by
  rw [trimStart, List.dropWhile_append]
  have same : (front.dropWhile isBlank).isEmpty = front.all isBlank := by
    rw [Bool.eq_iff_iff, List.isEmpty_iff, List.dropWhile_eq_nil_iff, List.all_eq_true]
  rw [same]
  rfl

/-- Whether a text starts with a fixed one shows in front of each sign that is not part of that. -/
theorem strip?_append_cons {start : List Char} {sign : Char} (differs : sign ∉ start)
    (front back : List Char)
    : strip? start (front ++ sign :: back) = (strip? start front).map (· ++ sign :: back) := by
  induction start generalizing front with
  | nil => rfl
  | cons p start ih =>
      obtain ⟨differs, later⟩ := List.ne_and_not_mem_of_not_mem_cons differs
      cases front with
      | nil =>
          rw [List.nil_append, strip?_cons_of_ne differs.symm]
          rfl
      | cons c front =>
          rw [List.cons_append, strip?, strip?]
          split
          · exact ih later front
          · rfl

theorem trimStart_append_cons {sign : Char} (word : isBlank sign = false) (front back : List Char)
    : trimStart (front ++ sign :: back) = trimStart front ++ sign :: back := by
  rw [trimStart_append]
  split
  · rename_i blank
    have nothing : trimStart front = [] :=
      List.dropWhile_eq_nil_iff.mpr (List.all_eq_true.mp blank)
    rw [nothing, trimStart_cons word, List.nil_append]
  · rfl

end Text

namespace Header

open ApiBindings.Constant
open ApiBindings.Text

-----------------------------------------------------------------------------------------
-- Lines without numbers
-----------------------------------------------------------------------------------------

/-- No line has a number. -/
def noNumber (_ : Nat) : Option Nat :=
  none

/-- A line that is read as a directive. -/
def IsDirective (line : List Char) : Prop :=
  (trim line).head? = some '#'

instance (line : List Char) : Decidable (IsDirective line) :=
  inferInstanceAs (Decidable (_ = _))

theorem isDirective_append_iff {front back : List Char}
    : IsDirective (front ++ back)
      ↔ IsDirective front ∨ (∀ c ∈ front, isBlank c = true) ∧ IsDirective back := by
  unfold IsDirective
  rw [head?_trim, head?_trim, head?_trim, trimStart_append]
  by_cases blank : ∀ c ∈ front, isBlank c = true
  · have nothing : trimStart front = [] := List.dropWhile_eq_nil_iff.mpr blank
    rw [if_pos (List.all_eq_true.mpr blank), nothing]
    simpa using fun _ => blank
  · rw [if_neg (mt List.all_eq_true.mp blank)]
    have some : trimStart front ≠ [] := mt List.dropWhile_eq_nil_iff.mp blank
    obtain ⟨c, rest, shape⟩ := List.exists_cons_of_ne_nil some
    simp [shape, blank]

namespace Cutter

variable {one other cutter : Cutter}

/-- Nothing has been read of a statement, and no brace is open. -/
structure IsAtRest (cutter : Cutter) : Prop where
  depth : cutter.depth = 0
  statement : ∀ c ∈ cutter.statement, isBlank c = true

theorem Alike.isAtRest {number : Nat → Option Nat} (alike : Alike number one other)
    (rest : one.IsAtRest)
    : other.IsAtRest where
  depth := alike.depth.trans rest.depth
  statement := by
    have blank := List.all_eq_true.mpr rest.statement
    rw [← alike.all_isBlank] at blank
    exact List.all_eq_true.mp blank

theorem IsAtRest.words_eq (rest : cutter.IsAtRest) (back : List Char)
    : words (cutter.statement.reverse ++ back) = words back :=
  words_append_of_blank (fun c member => rest.statement c (List.mem_reverse.mp member)) back

/-- Between statements only the items count. -/
theorem IsAtRest.alike (rest : one.IsAtRest) (rest' : other.IsAtRest)
    (items : other.items = one.items)
    : Alike noNumber one other where
  words back := (rest'.words_eq back).trans (rest.words_eq back).symm
  line := rfl
  depth := rest'.depth.trans rest.depth.symm
  items := by
    rw [items]
    exact List.forall₂_same.mpr fun item _ => .refl item

theorem IsAtRest.close (rest : cutter.IsAtRest) : cutter.close.IsAtRest where
  depth := rest.depth
  statement := List.forall_mem_cons.mpr ⟨by decide, rest.statement⟩

theorem IsAtRest.of_close (rest : cutter.close.IsAtRest) : cutter.IsAtRest where
  depth := rest.depth
  statement := (List.forall_mem_cons.mp rest.statement).2

/-- Lines that are no directives are read character by character, as if they were one. -/
theorem readFrom_joinedLines {lines : List (List Char)}
    (plain : ∀ line ∈ lines, ¬IsDirective line) (nonempty : lines ≠ []) (first : Nat)
    (cutter : Cutter)
    : Alike noNumber (readFrom first cutter lines)
        ((joinedLines lines).foldl (read 0) cutter).close := by
  induction lines generalizing first cutter with
  | nil => exact absurd rfl nonempty
  | cons line lines ih =>
      obtain ⟨here, plain⟩ := List.forall_mem_cons.mp plain
      have read : Alike noNumber (cutter.readLine (first, line))
          (line.foldl (Cutter.read 0) cutter).close := by
        rw [readLine_statement here]
        have lines : noNumber 0 = noNumber first := rfl
        exact ((Alike.refl cutter).foldl_read lines line).close
      cases lines with
      | nil => simpa [readFrom, joinedLines] using read
      | cons next lines =>
          rw [joinedLines_cons_cons, List.foldl_append, List.foldl_cons, read_break]
          exact (ih plain (by simp) (first + 1) _).trans (read.foldl_read rfl _).close

/-- Between statements a line may be broken, unless that makes a directive of what follows. -/
theorem alike_readLine_break (fresh : cutter.IsFresh) {last first : List Char} {line : Nat}
    (plain : ¬IsDirective last) (rest : (cutter.readLine (line, last)).IsAtRest)
    (directive : IsDirective first → ∀ c ∈ last, isBlank c = true) (next : Nat)
    : Alike noNumber (cutter.readLine (line, last ++ first))
        ((cutter.readLine (line, last)).readLine (next, first)) := by
  by_cases starts : IsDirective first
  · have blank := directive starts
    have ended : Alike noNumber cutter (cutter.readLine (line, last)) := by
      obtain ⟨inside, fresh⟩ := (Alike.refl cutter).blanks fresh blank line
      rw [readLine_statement plain, ← read_break line]
      exact (inside.blank fresh (by decide) line).1
    refine ended.readLine fresh (fresh.readLine _) ?_ rfl
    rw [SameLine, trim, trim, trimStart_append, if_pos (List.all_eq_true.mpr blank)]
    exact .refl _
  · have whole : ¬IsDirective (last ++ first) := by
      rw [isDirective_append_iff]
      exact fun directive => directive.elim plain fun later => starts later.2
    rw [readLine_statement plain] at rest ⊢
    rw [readLine_statement whole, readLine_statement starts, List.foldl_append]
    have lines : noNumber next = noNumber line := rfl
    exact ((rest.of_close.alike rest rfl).foldl_read lines first).close

end Cutter

-----------------------------------------------------------------------------------------
-- Texts between texts
-----------------------------------------------------------------------------------------

/-- A text ends between statements, and not in a directive. -/
structure IsComplete (cs : List Char) : Prop where
  rest : (Cutter.behind cs).IsAtRest
  line : ∀ line ∈ (cut isBreak cs).getLast?, ¬IsDirective line

theorem isAtRest_behind_iff {cs : List Char}
    : (Cutter.behind cs).IsAtRest ↔ (Cutter.readFrom 1 {} (cut isBreak cs)).IsAtRest :=
  have alike : Cutter.Alike noNumber _ _ := Cutter.alike_behind cs
  ⟨alike.isAtRest, alike.symm.isAtRest⟩

/-- There is nothing on the last line of a text. -/
def EndsLine (cs : List Char) : Prop :=
  ∀ line ∈ (cut isBreak cs).getLast?, ∀ c ∈ line, isBlank c = true

def StartsDirective (cs : List Char) : Prop :=
  ∃ line ∈ (cut isBreak cs).head?, IsDirective line

variable {front back : List Char}

/-- Behind a complete text a line break changes nothing, unless it makes a directive of what
follows.
-/
theorem IsComplete.alike_break (complete : IsComplete front)
    (directive : StartsDirective back → EndsLine front)
    : Cutter.Alike noNumber (Cutter.behind (front ++ back))
        (Cutter.behind (front ++ '\n' :: back)) := by
  obtain ⟨earlier, last, shape⟩ := exists_cut_concat isBreak front
  obtain ⟨first, later, shape'⟩ := List.exists_cons_of_ne_nil (cut_ne_nil isBreak back)
  have plain : ¬IsDirective last := complete.line last (by simp [shape])
  have rest := isAtRest_behind_iff.mp complete.rest
  have fresh := Cutter.isFresh_start.readFrom 1 earlier
  refine (Cutter.alike_behind _).trans (.trans ?_ (Cutter.alike_behind _).symm)
  rw [cut_append shape shape', cut_append_of_cut (by decide), shape, shape', List.append_assoc]
  rw [shape] at rest
  simp only [Cutter.readFrom_append, Cutter.readFrom, List.singleton_append] at rest ⊢
  refine Cutter.Alike.readFrom ?_ (fresh.readLine _) ((fresh.readLine _).readLine _)
    (sameLines_refl later) fun _ => rfl
  refine Cutter.alike_readLine_break fresh plain rest (fun starts => ?_) _
  exact directive ⟨first, by simp [shape'], starts⟩ last (by simp [shape])

-----------------------------------------------------------------------------------------
-- Seams
-----------------------------------------------------------------------------------------

/-- Nothing goes on from one text into another: no comment, no continued line and no opening of a
linkage.
-/
def IsSeam (front back : List Char) : Prop :=
  prepare (front ++ back) = prepare front ++ prepare back

/-- A text between two others of which neither goes on into what follows it. The second one does not
start with a directive, unless both start lines there.
-/
structure StandsApart (front text back : List Char) : Prop where
  complete : IsComplete (prepare front)
  before : IsSeam front (text ++ back)
  without : IsSeam front back
  directive : StartsDirective (prepare back) → EndsLine (prepare front) ∧ EndsLine (prepare text)

-----------------------------------------------------------------------------------------
-- Texts that are read alike in front of any other
-----------------------------------------------------------------------------------------

/-- A sign that no opening of a linkage contains. -/
def isStop (c : Char) : Bool :=
  !isBlank c && !"extern\"C\"\x7b".toList.contains c

/-- Whether a text starts with an opening shows in front of each sign that is in none. -/
theorem linkage?_append_cons {sign : Char} (stop : isStop sign = true) (front back : List Char)
    : linkage? (front ++ sign :: back) =
        (linkage? front).map fun found => (found.1, found.2 ++ sign :: back) := by
  obtain ⟨solid, apart⟩ : isBlank sign = false ∧ sign ∉ "extern\"C\"\x7b".toList := by
    simpa [isStop] using stop
  have differs {start : List Char} (within : start ⊆ "extern\"C\"\x7b".toList) : sign ∉ start :=
    fun member => apart (within member)
  have word : sign ∉ "extern".toList := differs (by decide)
  have language : sign ∉ "\"C\"".toList := differs (by decide)
  have brace : sign ∉ ['\x7b'] := differs (by decide)
  simp only [linkage?, Option.bind_eq_bind, strip?_append_cons word, strip?_append_cons language,
    strip?_append_cons brace, trimStart_append_cons solid, Option.map_bind, Option.bind_map,
    Function.comp_def, breaks, List.count_append, Nat.add_sub_add_right, Option.map_some]

theorem linkage?_append (stops : front.head? = some 'e' → front.any isStop = true)
    (nonempty : front ≠ []) (back : List Char)
    : linkage? (front ++ back) =
        (linkage? front).map fun found => (found.1, found.2 ++ back) := by
  obtain ⟨c, rest, rfl⟩ := List.exists_cons_of_ne_nil nonempty
  by_cases first : 'e' = c
  · obtain ⟨sign, member, stop⟩ := List.any_eq_true.mp (stops (by rw [first]; rfl))
    obtain ⟨front, middle, shape⟩ := List.append_of_mem member
    rw [shape, List.append_assoc, List.cons_append, linkage?_append_cons stop,
      linkage?_append_cons stop]
    cases linkage? front <;> simp
  · have none (rest : List Char) : linkage? (c :: rest) = none := by
      have plain : strip? "extern".toList (c :: rest) = none := strip?_cons_of_ne first
      rw [linkage?, plain]
      rfl
    rw [List.cons_append, none, none]
    rfl

theorem suffix_of_linkage? {cs after : List Char} {found : Nat}
    (opens : linkage? cs = some (found, after))
    : after <:+ cs := by
  simp only [linkage?, Option.bind_eq_bind, Option.bind_eq_some_iff] at opens
  obtain ⟨first, starts, second, quoted, third, braced, same⟩ := opens
  cases same
  have suffix {start cs rest : List Char} (stripped : strip? start cs = some rest) : rest <:+ cs :=
    ⟨start, (eq_append_of_strip? stripped).symm⟩
  have trimmed (cs : List Char) : trimStart cs <:+ cs := List.dropWhile_suffix _
  exact (suffix braced).trans <| (trimmed _).trans <| (suffix quoted).trans <|
    (trimmed _).trans (suffix starts)

/-- Openings are found in a text as if nothing followed it, where that completes none of them. -/
theorem unlink_append_of_linkage?
    (apart
      : ∀ tail ∈ front.tails, tail ≠ []
        → linkage? (tail ++ back) =
          (linkage? tail).map fun found => (found.1, found.2 ++ back))
    : unlink (front ++ back) = unlink front ++ unlink back := by
  induction size : front.length using Nat.strongRecOn generalizing front with
  | _ length ih =>
      subst size
      have later {rest : List Char} (suffix : rest <:+ front) (few : rest.length < front.length)
          : unlink (rest ++ back) = unlink rest ++ unlink back :=
        ih _ few (fun tail member => apart tail ((List.mem_tails _ _).mpr
          (((List.mem_tails _ _).mp member).trans suffix))) rfl
      cases front with
      | nil => rw [unlink_nil, List.nil_append, List.nil_append]
      | cons c rest =>
          have whole := apart (c :: rest) (by simp) (by simp)
          cases opens : linkage? (c :: rest) with
          | none =>
              rw [opens, List.cons_append] at whole
              rw [List.cons_append, unlink_char whole, unlink_char opens,
                later (List.suffix_cons c rest) (Nat.lt_succ_self _), List.cons_append]
          | some found =>
              rw [opens] at whole
              rw [unlink_opening whole, unlink_opening opens,
                later (suffix_of_linkage? opens) (length_of_linkage? opens), List.append_assoc]

theorem unlink_append
    (stops : ∀ tail ∈ front.tails, tail.head? = some 'e' → tail.any isStop = true)
    (back : List Char)
    : unlink (front ++ back) = unlink front ++ unlink back :=
  unlink_append_of_linkage? fun tail member nonempty =>
    linkage?_append (stops tail member) nonempty back

theorem joinContinued_cons {c : Char} (plain : c ≠ '\\' ∧ c ≠ '\r') (cs : List Char)
    : joinContinued (c :: cs) = c :: joinContinued cs := by
  cases breaks : isBreak c with
  | true =>
      obtain rfl : c = '\n' := eq_of_beq breaks
      have none : continued? (dropReturn []) = none := rfl
      have more : (cut isBreak cs).isEmpty = false := by simp [cut_ne_nil]
      rw [joinContinued, cut_cons_of_cut breaks, joinLines, none]
      simp [more, dropReturn, lineBreaks, joinContinued]
  | false =>
      obtain ⟨piece, rest, shape, longer⟩ := cut_cons_of_not_cut breaks cs
      have ends : EndsPlainly [c] := by simpa [EndsPlainly] using plain
      rw [joinContinued, longer, joinContinued, shape]
      exact ends.joinLines_append 0 piece rest

theorem joinContinued_append (plain : ∀ c ∈ front, c ≠ '\\' ∧ c ≠ '\r') (back : List Char)
    : joinContinued (front ++ back) = front ++ joinContinued back := by
  induction front with
  | nil => rfl
  | cons c front ih =>
      obtain ⟨first, plain⟩ := List.forall_mem_cons.mp plain
      rw [List.cons_append, joinContinued_cons first, ih plain, List.cons_append]

theorem joinContinued_eq_self (plain : ∀ c ∈ front, c ≠ '\\' ∧ c ≠ '\r')
    : joinContinued front = front := by
  have whole := joinContinued_append plain []
  have nothing : joinContinued [] = [] := rfl
  rwa [nothing, List.append_nil] at whole

theorem unlink_eq_self {cs : List Char} (plain : ∀ tail ∈ cs.tails, linkage? tail = none)
    : unlink cs = cs := by
  induction cs with
  | nil => exact unlink_nil
  | cons c cs ih =>
      obtain ⟨here, later⟩ := List.forall_mem_cons.mp plain
      rw [unlink_char here, ih later]

/-- A text from which nothing is taken out. -/
theorem prepare_eq_self {text : List Char} (comments : '/' ∉ text)
    (lines : ∀ c ∈ text, c ≠ '\\' ∧ c ≠ '\r')
    (linkages : ∀ tail ∈ text.tails, linkage? tail = none)
    : prepare text = text := by
  rw [prepare_eq_unlink, stripComments_eq comments, joinContinued_eq_self lines,
    unlink_eq_self linkages]

/-- A text in which nothing is open at its end: no comment, no continued line, and behind each
letter that could start the opening of a linkage something stands that is in none.
-/
structure IsSealed (text : List Char) : Prop where
  comments : IsClosed text
  lines : ∀ c ∈ stripComments text, c ≠ '\\' ∧ c ≠ '\r'
  linkages
    : ∀ tail ∈ (stripComments text).tails, tail.head? = some 'e' → tail.any isStop = true

theorem isSealed_of_not_mem {text : List Char} (absent : '/' ∉ text)
    (lines : ∀ c ∈ text, c ≠ '\\' ∧ c ≠ '\r')
    (linkages : ∀ tail ∈ text.tails, tail.head? = some 'e' → tail.any isStop = true)
    : IsSealed text where
  comments := isClosed_of_not_mem absent
  lines := by rwa [stripComments_eq absent]
  linkages := by rwa [stripComments_eq absent]

theorem IsSealed.isSeam (closed : IsSealed front) (back : List Char) : IsSeam front back := by
  simp only [IsSeam, prepare_eq_unlink]
  rw [closed.comments.strip_append, joinContinued_append closed.lines,
    unlink_append closed.linkages, joinContinued_eq_self closed.lines]

end Header

end ApiBindings
