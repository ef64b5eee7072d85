import ApiBindings.Proofs.Reading.Markers
import ApiBindings.Proofs.Reading.Spacing
import ApiBindings.Proofs.Text.Trimming

/-! Texts that are cut into items that are read alike.
What has been read of a statement only counts by the words that it is going to have. A blank next to
another one changes nothing about them, and neither does one at the end of a line, where the line
break is a blank of its own.
-/

namespace ApiBindings

namespace Text

/-- Two texts are cut like one after the other, but for the pieces that meet. -/
theorem cut_append {isCut : Char → Bool} {front back last first : List Char}
    {earlier later : List (List Char)} (shape : cut isCut front = earlier ++ [last])
    (shape' : cut isCut back = first :: later)
    : cut isCut (front ++ back) = earlier ++ (last ++ first) :: later := by
  induction front generalizing earlier last with
  | nil =>
      obtain ⟨rfl, rfl⟩ : earlier = [] ∧ last = [] := by
        cases earlier with
        | nil => exact ⟨rfl, (List.cons.inj shape).1.symm⟩
        | cons piece earlier => simp [cut] at shape
      exact shape'
  | cons c front ih =>
      cases cuts : isCut c with
      | true =>
          rw [cut_cons_of_cut cuts] at shape
          cases earlier with
          | nil => exact absurd (List.cons.inj shape).2 (cut_ne_nil isCut front)
          | cons piece earlier =>
              obtain ⟨rfl, inner⟩ := List.cons.inj shape
              rw [List.cons_append, cut_cons_of_cut cuts, ih inner, List.cons_append]
      | false =>
          obtain ⟨piece, rest, inner, whole⟩ := cut_cons_of_not_cut cuts front
          obtain ⟨piece', rest', inner', whole'⟩ := cut_cons_of_not_cut cuts (front ++ back)
          rw [whole] at shape
          rw [List.cons_append, whole']
          cases earlier with
          | nil =>
              obtain ⟨rfl, rfl⟩ := List.cons.inj shape
              have inner : cut isCut front = [] ++ [piece] := inner
              rw [ih inner] at inner'
              obtain ⟨rfl, rfl⟩ := List.cons.inj inner'
              rfl
          | cons next earlier =>
              obtain ⟨rfl, rfl⟩ := List.cons.inj shape
              have inner : cut isCut front = piece :: earlier ++ [last] := inner
              rw [ih inner] at inner'
              obtain ⟨rfl, rfl⟩ := List.cons.inj inner'
              rfl

/-- The last piece of a text ends like the text, if it is not empty. -/
theorem ends_of_cut {isCut : Char → Bool} {holds : Char → Prop} {front last : List Char}
    {earlier : List (List Char)} (shape : cut isCut front = earlier ++ [last])
    (ends : ∀ c ∈ front.getLast?, holds c)
    : ∀ c ∈ last.getLast?, holds c := by
  cases front using List.reverseRecOn with
  | nil =>
      have member : last ∈ cut isCut [] := by simp [shape]
      obtain rfl := List.mem_singleton.mp member
      exact ends
  | append_singleton front d _ =>
      have ended := ends d List.getLast?_concat
      cases cuts : isCut d with
      | true =>
          rw [cut_append_of_cut cuts] at shape
          obtain ⟨-, same⟩ := List.append_inj' shape rfl
          obtain rfl := (List.cons.inj same).1
          simp
      | false =>
          obtain ⟨pieces, piece, whole⟩ := exists_cut_concat isCut front
          rw [cut_append whole (cut_of_solid (List.forall_mem_singleton.mpr cuts))] at shape
          obtain ⟨-, same⟩ := List.append_inj' shape rfl
          obtain rfl := (List.cons.inj same).1
          rw [List.getLast?_concat]
          rintro c ⟨⟩
          exact ended

/-- The first piece of a text starts like the text, if it is not empty. -/
theorem starts_of_cut {isCut : Char → Bool} {holds : Char → Prop} {back first : List Char}
    {later : List (List Char)} (shape : cut isCut back = first :: later)
    (starts : ∀ c ∈ back.head?, holds c)
    : ∀ c ∈ first.head?, holds c := by
  cases back with
  | nil =>
      obtain rfl := (List.cons.inj shape).1
      exact starts
  | cons d back =>
      cases cuts : isCut d with
      | true =>
          rw [cut_cons_of_cut cuts] at shape
          obtain rfl := (List.cons.inj shape).1
          simp
      | false =>
          obtain ⟨piece, rest, -, whole⟩ := cut_cons_of_not_cut cuts back
          rw [whole] at shape
          obtain rfl := (List.cons.inj shape).1
          exact starts

theorem trim_concat_of_blank {c : Char} (blank : isBlank c = true) (cs : List Char)
    : trim (cs ++ [c]) = trim cs := by
  induction cs with
  | nil => exact trim_eq_nil (by simp [blank])
  | cons d cs ih =>
      rw [List.cons_append, trim, trim]
      cases first : isBlank d with
      | true =>
          rw [trimStart_cons_of_blank first, trimStart_cons_of_blank first]
          exact ih
      | false =>
          rw [trimStart_cons first, trimStart_cons first, ← List.cons_append,
            trimEnd_concat_of_blank blank]

theorem sameLine_dropReturn (text : List Char) : SameLine (dropReturn text) text := by
  unfold dropReturn
  split
  · rename_i last
    obtain ⟨front, shape⟩ := List.getLast?_eq_some_iff.mp (eq_of_beq last)
    rw [shape, List.dropLast_concat, SameLine, trim_concat_of_blank (by decide)]
    exact .refl _
  · exact sameLine_refl _

theorem Loosened.head?_eq_some_iff {cs ds : List Char} {c : Char} (loosened : Loosened cs ds)
    (word : isBlank c = false)
    : ds.head? = some c ↔ cs.head? = some c := by
  have differs {d : Char} (blank : isBlank d = true) : d ≠ c := by
    rintro rfl
    cases blank.symm.trans word
  rcases loosened with rfl | respaced
  · exact Iff.rfl
  · cases respaced with
    | last => simp [differs isBlank_space]
    | before blank => simp [differs isBlank_space, differs blank]
    | behind blank => exact Iff.rfl
    | cons d later => exact Iff.rfl

theorem words_eq_nil_iff {cs : List Char} : words cs = [] ↔ cs.all isBlank = true := by
  induction cs with
  | nil => exact iff_of_true rfl rfl
  | cons c cs ih =>
      cases first : isBlank c with
      | true => rw [words_cons_of_blank first, ih, List.all_cons, first, Bool.true_and]
      | false =>
          have starts : StartsWord (c :: cs) := ⟨c, cs, rfl, first⟩
          simp [starts.words_ne_nil, first]

/-- Whether a text starts with a fixed one shows in its first word. By induction on the layout of
the text, for any fixed text.
-/
theorem strip?_trimStart_isSome {start : List Char} (solid : ∀ c ∈ start, isBlank c = false)
    (nonempty : start ≠ []) (cs : List Char)
    : (strip? start (trimStart cs)).isSome
      = (words cs).head?.any fun word => (strip? start word).isSome := by
  obtain ⟨p, ps, rfl⟩ := List.exists_cons_of_ne_nil nonempty
  clear nonempty
  induction cs using layout_induction generalizing p ps with
  | nil => rfl
  | blank c rest first ih =>
      rw [trimStart_cons_of_blank first, words_cons_of_blank first, ih p ps solid]
  | last c first =>
      rw [trimStart_cons first, words_singleton first]
      rfl
  | gap c d rest first second ih =>
      rw [trimStart_cons first, words_cons_cons_of_blank first second]
      simp only [List.head?_cons, Option.any_some, strip?]
      split
      · cases ps with
        | nil => rfl
        | cons q qs =>
            have differs : q ≠ d := by
              rintro rfl
              cases second.symm.trans (solid q (by simp))
            rw [strip?_cons_of_ne differs]
            rfl
      · rfl
  | word c rest first starts ih =>
      obtain ⟨w, ws, shape, longer⟩ := words_cons_of_startsWord first starts
      rw [trimStart_cons first, longer]
      simp only [List.head?_cons, Option.any_some, strip?]
      split
      · cases ps with
        | nil => rfl
        | cons q qs =>
            have later := ih q qs (List.forall_mem_cons.mp solid).2
            rw [starts.trimStart_eq, shape] at later
            exact later
      · rfl

end Text

namespace Header

open ApiBindings.Constant
open ApiBindings.Text

variable {number : Nat → Option Nat}

theorem SameResult.symm {one other : Findings × Scope} (same : SameResult number one other)
    : SameResult number other one :=
  ⟨same.found.symm, same.scopes.symm⟩

theorem SameItem.refl (item : Item) : SameItem number item item := by
  cases item with
  | directive text => exact sameItem_directive (.refl text)
  | statement raw line => exact sameItem_statement rfl rfl

theorem SameItem.symm {one other : Item} (same : SameItem number one other)
    : SameItem number other one :=
  fun context scope scope' agrees => (same context scope' scope agrees.symm).symm

theorem SameItem.trans {one other third : Item} (first : SameItem number one other)
    (second : SameItem number other third)
    : SameItem number one third := by
  intro context scope scope' agrees
  have first := first context scope scope (.refl scope)
  have second := second context scope scope' agrees
  exact ⟨second.found.trans first.found, first.scopes.trans second.scopes⟩

theorem sameItems_trans {first second third : List Item}
    (earlier : List.Forall₂ (SameItem number) first second)
    (later : List.Forall₂ (SameItem number) second third)
    : List.Forall₂ (SameItem number) first third := by
  induction earlier generalizing third with
  | nil => exact later
  | cons same _ ih =>
      cases later with
      | cons same' later => exact .cons (same.trans same') (ih later)

/-- A declaration whose braces are part of it is known by its words. -/
theorem isBracedDeclaration_congr {one other : List Char} (same : words other = words one)
    : isBracedDeclaration other = isBracedDeclaration one := by
  have solid : ∀ start ∈ bracedStarts, start ≠ [] ∧ ∀ c ∈ start, isBlank c = false := by decide
  unfold isBracedDeclaration
  rw [Bool.eq_iff_iff, List.any_eq_true, List.any_eq_true]
  refine exists_congr fun start => and_congr_right fun member => ?_
  obtain ⟨nonempty, solid⟩ := solid start member
  rw [strip?_trimStart_isSome solid nonempty, strip?_trimStart_isSome solid nonempty, same]

namespace Cutter

variable {one other : Cutter} {line line' : Nat} {c : Char}

-----------------------------------------------------------------------------------------
-- Blanks
-----------------------------------------------------------------------------------------

theorem read_of_isBlank (blank : isBlank c = true) (line : Nat) (cutter : Cutter)
    : read line cutter c = { cutter with statement := c :: cutter.statement } := by
  have differs {sign : Char} (solid : isBlank sign = false) : c ≠ sign := by
    rintro rfl
    cases blank.symm.trans solid
  have ending : ¬(c = ';' ∧ cutter.depth = 0) := fun ended => differs (by decide) ended.1
  rw [read, if_neg (differs (by decide)), if_neg (differs (by decide)), if_neg ending]
  simp [take, blank]

/-- What is being read ends in a blank, or nothing is. -/
def IsFresh (cutter : Cutter) : Prop :=
  ∀ c ∈ cutter.statement.head?, isBlank c = true

theorem isFresh_of_blank (blank : isBlank c = true) {statement : List Char}
    (shape : one.statement = c :: statement)
    : one.IsFresh := by
  intro d first
  rw [shape] at first
  cases first
  exact blank

theorem isFresh_start : IsFresh {} :=
  fun c first => by cases first

/-- A blank next to another one adds nothing to the words. -/
theorem IsFresh.words_eq (fresh : one.IsFresh) (blank : isBlank c = true) (back : List Char)
    : words (one.statement.reverse ++ c :: back) = words (one.statement.reverse ++ back) := by
  cases shape : one.statement with
  | nil => exact words_cons_of_blank blank
  | cons d rest =>
      have first := fresh d (by rw [shape]; rfl)
      rw [List.reverse_cons, List.append_assoc, List.append_assoc, List.singleton_append,
        List.singleton_append, words_append_cons_of_blank _ _ first,
        words_append_cons_of_blank _ _ first, words_cons_of_blank blank]

/-- What is read from here on is read alike, whatever follows. -/
structure Alike (number : Nat → Option Nat) (one other : Cutter) : Prop where
  words
    : ∀ back, words (other.statement.reverse ++ back) = words (one.statement.reverse ++ back)
  line : number other.line = number one.line
  depth : other.depth = one.depth
  items : List.Forall₂ (SameItem number) one.items other.items

theorem Alike.refl (cutter : Cutter) : Alike number cutter cutter where
  words _ := rfl
  line := rfl
  depth := rfl
  items := List.forall₂_same.mpr fun item _ => .refl item

theorem Alike.symm (alike : Alike number one other) : Alike number other one where
  words back := (alike.words back).symm
  line := alike.line.symm
  depth := alike.depth.symm
  items := alike.items.flip.imp fun _ _ => SameItem.symm

theorem Alike.trans {third : Cutter} (first : Alike number one other)
    (second : Alike number other third)
    : Alike number one third where
  words back := (second.words back).trans (first.words back)
  line := second.line.trans first.line
  depth := second.depth.trans first.depth
  items := sameItems_trans first.items second.items

theorem Alike.all_isBlank (alike : Alike number one other)
    : other.statement.all isBlank = one.statement.all isBlank := by
  have same := alike.words []
  rw [List.append_nil, List.append_nil] at same
  rw [Bool.eq_iff_iff, ← List.all_reverse, ← words_eq_nil_iff, same, words_eq_nil_iff,
    List.all_reverse]

theorem Alike.take (alike : Alike number one other) (lines : number line' = number line) (c : Char)
    : Alike number (one.take line c) (other.take line' c) where
  words back := by simpa [Cutter.take] using alike.words (c :: back)
  line := by
    simp only [Cutter.take, alike.all_isBlank]
    split
    · exact lines
    · exact alike.line
  depth := alike.depth
  items := alike.items

theorem Alike.clear (alike : Alike number one other) : Alike number one.clear other.clear where
  words _ := rfl
  line := alike.line
  depth := alike.depth
  items := alike.items

theorem Alike.isBracedDeclaration_eq (alike : Alike number one other)
    : isBracedDeclaration other.statement.reverse = isBracedDeclaration one.statement.reverse := by
  refine isBracedDeclaration_congr ?_
  simpa using alike.words []

/-- A character is read alike. -/
theorem Alike.read (alike : Alike number one other) (lines : number line' = number line) (c : Char)
    : Alike number (read line one c) (read line' other c) := by
  unfold Cutter.read
  split
  · have inner : Alike number { one with depth := one.depth + 1 }
        { other with depth := other.depth + 1 } :=
      ⟨alike.words, alike.line, congrArg (· + 1) alike.depth, alike.items⟩
    exact inner.take lines c
  · split
    · rw [alike.depth]
      split
      · exact alike
      · have outer : Alike number { one with depth := one.depth - 1 }
            { other with depth := one.depth - 1 } :=
          ⟨alike.words, alike.line, rfl, alike.items⟩
        dsimp only
        rw [alike.isBracedDeclaration_eq]
        split
        · exact outer.clear
        · exact outer.take lines c
    · rw [alike.depth]
      split
      · refine Alike.clear ⟨alike.words, alike.line, rfl, .cons ?_ alike.items⟩
        exact sameItem_statement alike.line (by simpa using alike.words [])
      · exact alike.take lines c

theorem Alike.foldl_read (alike : Alike number one other) (lines : number line' = number line)
    (cs : List Char)
    : Alike number (cs.foldl (Cutter.read line) one) (cs.foldl (Cutter.read line') other) := by
  induction cs generalizing one other with
  | nil => exact alike
  | cons c cs ih => exact ih (alike.read lines c)

/-- A further blank is read next to another one. -/
theorem Alike.blank (alike : Alike number one other) (fresh : other.IsFresh)
    (blank : isBlank c = true) (line : Nat)
    : Alike number one (Cutter.read line other c) ∧ (Cutter.read line other c).IsFresh := by
  rw [read_of_isBlank blank]
  refine ⟨⟨fun back => ?_, alike.line, alike.depth, alike.items⟩, isFresh_of_blank blank rfl⟩
  rw [List.reverse_cons, List.append_assoc, List.singleton_append, fresh.words_eq blank,
    alike.words]

theorem Alike.blanks (alike : Alike number one other) (fresh : other.IsFresh) {cs : List Char}
    (blank : ∀ c ∈ cs, isBlank c = true) (line : Nat)
    : Alike number one (cs.foldl (Cutter.read line) other)
      ∧ (cs.foldl (Cutter.read line) other).IsFresh := by
  induction cs generalizing other with
  | nil => exact ⟨alike, fresh⟩
  | cons c cs ih =>
      obtain ⟨first, blank⟩ := List.forall_mem_cons.mp blank
      obtain ⟨alike, fresh⟩ := alike.blank fresh first line
      exact ih alike fresh blank

/-- A blank in front of another one adds nothing to the words. -/
theorem alike_read_read {d : Char} (first : isBlank c = true) (second : isBlank d = true)
    (line : Nat) (cutter : Cutter)
    : Alike number (read line cutter d) (read line (read line cutter c) d) := by
  rw [read_of_isBlank first, read_of_isBlank second, read_of_isBlank second]
  refine ⟨fun back => ?_, rfl, rfl, (Alike.refl cutter).items⟩
  simp only [List.reverse_cons, List.append_assoc, List.cons_append, List.nil_append]
  rw [words_append_cons_of_blank _ _ first, words_cons_of_blank second,
    words_append_cons_of_blank _ _ second]

-----------------------------------------------------------------------------------------
-- Lines
-----------------------------------------------------------------------------------------

/-- Goes on behind the break that ends a line. -/
def close (cutter : Cutter) : Cutter :=
  { cutter with statement := '\n' :: cutter.statement }

theorem isFresh_close (cutter : Cutter) : cutter.close.IsFresh :=
  isFresh_of_blank (by decide) rfl

theorem read_break (line : Nat) (cutter : Cutter) : read line cutter '\n' = cutter.close :=
  read_of_isBlank (by decide) line cutter

theorem Alike.close (alike : Alike number one other) : Alike number one.close other.close := by
  rw [← read_break 0, ← read_break 0]
  exact alike.read rfl '\n'

/-- Blanks at the end of a line add nothing to the words. -/
theorem Alike.close_blanks (alike : Alike number one.close other.close) {cs : List Char}
    (blank : ∀ c ∈ cs, isBlank c = true) (line : Nat)
    : Alike number one.close (cs.foldl (Cutter.read line) other).close := by
  induction cs generalizing other with
  | nil => exact alike
  | cons c cs ih =>
      obtain ⟨first, blank⟩ := List.forall_mem_cons.mp blank
      refine ih (alike.trans ?_) blank
      rw [← read_break line, ← read_break line]
      exact alike_read_read first (by decide) line other

theorem readLine_directive {text : List Char} (directive : (trim text).head? = some '#')
    (cutter : Cutter) (line : Nat)
    : readLine cutter (line, text) =
        { cutter with items := .directive (trim text) :: cutter.items } :=
  if_pos directive

theorem readLine_statement {text : List Char} (plain : (trim text).head? ≠ some '#')
    (cutter : Cutter) (line : Nat)
    : readLine cutter (line, text) = (text.foldl (read line) cutter).close :=
  if_neg plain

theorem IsFresh.readLine (fresh : one.IsFresh) (numbered : Nat × List Char)
    : (readLine one numbered).IsFresh := by
  obtain ⟨line, text⟩ := numbered
  by_cases directive : (trim text).head? = some '#'
  · rw [readLine_directive directive]
    exact fresh
  · rw [readLine_statement directive]
    exact isFresh_close _

/-- A further space in a gap of a line adds nothing to the words. By induction on the line. -/
theorem Alike.respaced (alike : Alike number one other) (lines : number line' = number line)
    {text text' : List Char} (respaced : Respaced text text')
    : Alike number (text.foldl (Cutter.read line) one).close
        (text'.foldl (Cutter.read line') other).close := by
  induction respaced generalizing one other with
  | last => exact alike.close.close_blanks (List.forall_mem_singleton.mpr isBlank_space) line'
  | @before c cs blank =>
      have first := (alike.read lines c).trans (alike_read_read isBlank_space blank line' other)
      exact (first.foldl_read lines cs).close
  | @behind c cs blank =>
      have first := alike.read lines c
      have fresh : (Cutter.read line' other c).IsFresh := by
        rw [read_of_isBlank blank]
        exact isFresh_of_blank blank rfl
      exact ((first.blank fresh isBlank_space line').1.foldl_read lines cs).close
  | cons c later ih => exact ih (alike.read lines c)

/-- Lines are read alike if they only differ in a gap, or in the blanks at their ends. -/
theorem Alike.readLine (alike : Alike number one other) (fresh : one.IsFresh)
    (fresh' : other.IsFresh) {text text' : List Char} (same : SameLine text text')
    (lines : number line' = number line)
    : Alike number (Cutter.readLine one (line, text)) (Cutter.readLine other (line', text')) := by
  have kind := same.head?_eq_some_iff (c := '#') (by decide)
  by_cases directive : (trim text).head? = some '#'
  · rw [readLine_directive directive, readLine_directive (kind.mpr directive)]
    exact ⟨alike.words, alike.line, alike.depth, .cons (sameItem_directive same) alike.items⟩
  · rw [readLine_statement directive, readLine_statement (mt kind.mp directive)]
    obtain ⟨front, back, shape, before, behind⟩ := exists_trim text
    obtain ⟨front', back', shape', before', behind'⟩ := exists_trim text'
    -- The blanks in front are read first, on one side after the other.
    have starts := (alike.blanks fresh' before' line').1
    have starts := (starts.symm.blanks fresh before line).1.symm
    have inner
        : Alike number
            ((trim text).foldl (Cutter.read line) (front.foldl (Cutter.read line) one)).close
            ((trim text').foldl (Cutter.read line')
              (front'.foldl (Cutter.read line') other)).close := by
      rcases same with same | respaced
      · rw [← same]
        exact (starts.foldl_read lines _).close
      · exact starts.respaced lines respaced
    have ends := inner.close_blanks behind' line'
    have ends := (ends.symm.close_blanks behind line).symm
    rw [shape, shape', List.foldl_append, List.foldl_append, List.foldl_append, List.foldl_append]
    exact ends

/-- Reads lines whose numbers count from the one of the first. -/
def readFrom (first : Nat) (cutter : Cutter) : List (List Char) → Cutter
  | [] => cutter
  | line :: rest => readFrom (first + 1) (cutter.readLine (first, line)) rest

theorem readFrom_append (first : Nat) (cutter : Cutter) (front back : List (List Char))
    : readFrom first cutter (front ++ back)
      = readFrom (first + front.length) (readFrom first cutter front) back := by
  induction front generalizing first cutter with
  | nil => rfl
  | cons text front ih =>
      rw [List.cons_append, readFrom, ih, readFrom, List.length_cons, Nat.add_right_comm,
        Nat.add_assoc]

theorem foldl_mapIdx (first : Nat) (cutter : Cutter) (texts : List (List Char))
    : (texts.mapIdx fun index text => (index + first, text)).foldl Cutter.readLine cutter
      = readFrom first cutter texts := by
  induction texts generalizing first cutter with
  | nil => rfl
  | cons text texts ih =>
      have later := ih (first + 1) (cutter.readLine (first, text))
      rw [List.mapIdx_cons, List.foldl_cons, readFrom, ← later]
      simp only [Nat.zero_add, Nat.add_right_comm, Nat.add_assoc]

theorem IsFresh.readFrom (fresh : one.IsFresh) (first : Nat) (texts : List (List Char))
    : (readFrom first one texts).IsFresh := by
  induction texts generalizing first one with
  | nil => exact fresh
  | cons text texts ih => exact ih (fresh.readLine _) _

/-- Lines are read alike one after the other. By induction on the lines. -/
theorem Alike.readFrom (alike : Alike number one other) (fresh : one.IsFresh)
    (fresh' : other.IsFresh) {texts texts' : List (List Char)}
    (same : List.Forall₂ SameLine texts texts') {first first' : Nat}
    (lines : ∀ index, number (first' + index) = number (first + index))
    : Alike number (Cutter.readFrom first one texts) (Cutter.readFrom first' other texts') := by
  induction same generalizing one other first first' with
  | nil => exact alike
  | cons text rest ih =>
      refine ih (alike.readLine fresh fresh' text (lines 0)) (fresh.readLine _) (fresh'.readLine _) ?_
      intro index
      rw [Nat.add_assoc, Nat.add_assoc]
      exact lines (1 + index)

/-- What has been read at the end of a text. -/
def behind (cs : List Char) : Cutter :=
  (numberedLines cs).foldl readLine {}

/-- A text can be read by the pieces between its line breaks. What distinguishes its lines from them
are carriage returns and an empty piece at the end.
-/
theorem alike_behind (cs : List Char)
    : Alike number (behind cs) (readFrom 1 {} (cut isBreak cs)) := by
  have fresh := isFresh_start
  obtain ⟨front, last, shape⟩ := exists_cut_concat isBreak cs
  have returns : List.Forall₂ SameLine (front.map dropReturn) front := by
    rw [List.forall₂_map_left_iff, List.forall₂_same]
    exact fun text _ => sameLine_dropReturn text
  have earlier
      : Alike number (readFrom 1 {} (front.map dropReturn)) (readFrom 1 {} front) :=
    (Alike.refl {}).readFrom fresh fresh returns fun _ => rfl
  have fresh' := fresh.readFrom 1 front
  rw [behind, numberedLines, foldl_mapIdx, lines, shape, readFrom_append]
  simp only [List.dropLast_concat, List.getLast?_concat, Option.toList_some, readFrom_append,
    List.length_map]
  cases last with
  | nil =>
      rw [readFrom, readFrom, readLine_statement (by decide), List.foldl_nil, ← read_break 0]
      exact (earlier.blank fresh' (by decide) 0).1
  | cons c last => exact earlier.readLine (fresh.readFrom _ _) fresh' (sameLine_refl _) rfl

end Cutter

-----------------------------------------------------------------------------------------
-- Fragments
-----------------------------------------------------------------------------------------

variable {scope other : Scope}

/-- Texts with the same lines are cut into items that are read alike. -/
theorem sameItems_of_sameLines {cs ds : List Char}
    (same : List.Forall₂ SameLine (cut isBreak cs) (cut isBreak ds))
    : List.Forall₂ (SameItem number) (items cs) (items ds) := by
  have fresh := Cutter.isFresh_start
  have alike : Cutter.Alike number (Cutter.behind cs) (Cutter.behind ds) :=
    (Cutter.alike_behind cs).trans <|
      ((Cutter.Alike.refl {}).readFrom fresh fresh same fun _ => rfl).trans
        (Cutter.alike_behind ds).symm
  exact List.rel_reverse alike.items

/-- What is collected of two things that are read alike. -/
theorem collect_same {α β : Type} {read : Scope → α → Findings × Scope}
    {read' : Scope → β → Findings × Scope} {things : List α} {things' : List β}
    (same
      : List.Forall₂
          (fun thing thing' => ∀ scope other, scope.Agrees other
            → SameResult number (read scope thing) (read' other thing'))
          things things')
    (agrees : scope.Agrees other)
    : SameResult number (Findings.collect read scope things)
        (Findings.collect read' other things') := by
  induction same generalizing scope other with
  | nil => exact ⟨rfl, agrees⟩
  | cons first _ ih =>
      have first := first scope other agrees
      rw [Findings.collect_cons, Findings.collect_cons]
      exact (ih first.scopes).append first.found

/-- Items that are read alike, one after the other. -/
def SameItems (number : Nat → Option Nat) (pieces pieces' : List Item) : Prop :=
  ∀ context scope other, scope.Agrees other
    → SameResult number (Findings.collect (readItem context) scope pieces)
        (Findings.collect (readItem context) other pieces')

/-- Items that are read alike one by one are so together. -/
theorem collect_readItem_same {pieces pieces' : List Item}
    (same : List.Forall₂ (SameItem number) pieces pieces')
    : SameItems number pieces pieces' :=
  fun context _ _ => collect_same (same.imp fun _ _ same => same context)

theorem SameItems.symm {pieces pieces' : List Item} (same : SameItems number pieces pieces')
    : SameItems number pieces' pieces :=
  fun context scope scope' agrees => (same context scope' scope agrees.symm).symm

theorem SameItems.trans {pieces pieces' pieces'' : List Item}
    (first : SameItems number pieces pieces') (second : SameItems number pieces' pieces'')
    : SameItems number pieces pieces'' := by
  intro context scope scope' agrees
  have first := first context scope scope (.refl scope)
  have second := second context scope scope' agrees
  exact ⟨second.found.trans first.found, first.scopes.trans second.scopes⟩

/-- The headers of an interface, but for the text of one of them. -/
structure Setting where
  dialect : Dialect
  before : List Fragment
  name : String
  role : Role
  after : List Fragment

def Setting.context (setting : Setting) : Context where
  dialect := setting.dialect
  source := setting.name
  origin := setting.role.origin setting.dialect.api

/-- What is read from the headers if that text is given. -/
def Setting.read (setting : Setting) (text : List Char) : Records :=
  let fragment := { name := setting.name, role := setting.role, text := String.ofList text }
  Header.read setting.dialect (setting.before ++ fragment :: setting.after)

/-- One header whose prototypes are marked. -/
def markedHeader : Setting where
  dialect := { api := .vx, markers := [.literal "VX_API_ENTRY ".toList] }
  before := []
  name := "vx.h"
  role := .feature { major := 1, minor := 0 }
  after := []

/-- A header is read alike with another text if the items of the two texts are. -/
theorem readFragment_same {dialect : Dialect} {one two : Fragment} (name : two.name = one.name)
    (role : two.role = one.role)
    (inner
      : let context := { dialect, source := one.name, origin := one.role.origin dialect.api }
        SameResult number
          (Findings.collect (readItem context) scope (items (prepare one.text.toList)))
          (Findings.collect (readItem context) other (items (prepare two.text.toList))))
    : SameResult number (readFragment dialect scope one) (readFragment dialect other two) := by
  have enums := congrArg Findings.enums inner.found
  have commands := congrArg Findings.commands inner.found
  simp only [Findings.renumber] at enums commands
  unfold readFragment
  rw [name, role]
  refine ⟨?_, inner.scopes⟩
  simp only [Findings.renumber_append, inner.found, standFor, required, enums, commands]

/-- The same is read from texts if it is from their items. -/
theorem Setting.read_of_items (setting : Setting) {one two : List Char}
    (same : SameItems number (items (prepare one)) (items (prepare two)))
    : (setting.read two).toFindings.renumber number
      = (setting.read one).toFindings.renumber number := by
  let SameFragment (one two : Fragment) : Prop := ∀ scope other, scope.Agrees other
    → SameResult number (readFragment setting.dialect scope one)
        (readFragment setting.dialect other two)
  have each (fragments : List Fragment) : List.Forall₂ SameFragment fragments fragments := by
    refine List.forall₂_same.mpr fun fragment _ scope other agrees => ?_
    refine readFragment_same rfl rfl (collect_readItem_same ?_ _ _ _ agrees)
    exact List.forall₂_same.mpr fun item _ => .refl item
  refine (collect_same (List.rel_append (each _) (.cons ?_ (each _))) (.refl _)).found
  intro scope other agrees
  refine readFragment_same ?_ ?_ ?_
  · rfl
  · rfl
  · simpa using same _ scope other agrees

/-- The same is read from texts that are cut into items that are read alike. -/
theorem Setting.read_same (setting : Setting) {one two : List Char}
    (same : List.Forall₂ (SameItem number) (items (prepare one)) (items (prepare two)))
    : (setting.read two).toFindings.renumber number
      = (setting.read one).toFindings.renumber number :=
  setting.read_of_items (collect_readItem_same same)

end Header

end ApiBindings
