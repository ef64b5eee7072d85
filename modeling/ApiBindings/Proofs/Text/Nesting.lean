import ApiBindings.Proofs.Reading.Cutting
import ApiBindings.Proofs.Reading.Pointers

/-! Brackets that are closed in the reverse of the order in which they are opened.
What is nested in this way has its brackets in balance. A text that is nested is cut into pieces
that are.
-/

namespace ApiBindings.Text

variable {awaited later : List Char} {text front back : List Char}

/-- The sign that closes what a sign opens. -/
def closer? : Char → Option Char
  | '(' => some ')'
  | '[' => some ']'
  | _ => none

/-- What is awaited behind a character, given the closing signs that are awaited before it, the
innermost first. A closing sign has to be the innermost one.
-/
def awaitBehind? (awaited : List Char) (c : Char) : Option (List Char) :=
  match closer? c with
  | some closer => some (closer :: awaited)
  | none =>
      if c = ')' ∨ c = ']' then
        if awaited.head? = some c then some awaited.tail else none
      else
        some awaited

/-- What is awaited behind a text. -/
def awaitAfter? (awaited text : List Char) : Option (List Char) :=
  text.foldlM awaitBehind? awaited

/-- Every bracket is closed by its own sign, and those in it before. -/
def IsNested (text : List Char) : Prop :=
  awaitAfter? [] text = some []

instance : DecidablePred IsNested := fun _ => inferInstanceAs (Decidable (_ = _))

-----------------------------------------------------------------------------------------
-- What is awaited
-----------------------------------------------------------------------------------------

theorem awaitAfter?_append (awaited front back : List Char)
    : awaitAfter? awaited (front ++ back) = (awaitAfter? awaited front).bind (awaitAfter? · back) :=
  List.foldlM_append

theorem awaitAfter?_cons (awaited : List Char) (c : Char) (text : List Char)
    : awaitAfter? awaited (c :: text) = (awaitBehind? awaited c).bind (awaitAfter? · text) :=
  List.foldlM_cons

theorem awaitBehind?_of_plain {c : Char} (plain : c ∉ "()[]".toList)
    : awaitBehind? awaited c = some awaited := by
  have other (sign : Char) (member : sign ∈ "()[]".toList) : c ≠ sign := by
    rintro rfl
    exact plain member
  have opens : closer? c = none := by
    unfold closer?
    split
    · exact absurd rfl (other '(' (by decide))
    · exact absurd rfl (other '[' (by decide))
    · rfl
  simp [awaitBehind?, opens, other ')' (by decide), other ']' (by decide)]

theorem awaitBehind?_of_closing {c : Char} (closes : c ∈ ")]".toList)
    : awaitBehind? awaited c = if awaited.head? = some c then some awaited.tail else none := by
  rcases List.mem_pair.mp closes with rfl | rfl <;> rfl

theorem awaitAfter?_of_plain (plain : ∀ c ∈ text, c ∉ "()[]".toList)
    : awaitAfter? awaited text = some awaited := by
  induction text with
  | nil => rfl
  | cons c text ih =>
      obtain ⟨here, rest⟩ := List.forall_mem_cons.mp plain
      rw [awaitAfter?_cons, awaitBehind?_of_plain here]
      exact ih rest

/-- The number of the signs that are awaited is that of the open brackets. -/
theorem depthBehind_eq_length {c : Char} (step : awaitBehind? awaited c = some later)
    : depthBehind awaited.length c = later.length := by
  unfold awaitBehind? closer? at step
  split at step
  · rename_i closer opens
    split at opens <;> cases opens <;> cases step <;> rfl
  · rename_i opens
    split at opens
    · cases opens
    · cases opens
    · rename_i noParenthesis noBracket
      have opening : (c == '(' || c == '[') = false := by
        simpa using ⟨fun same => noParenthesis same, fun same => noBracket same⟩
      unfold depthBehind
      rw [opening, if_neg Bool.false_ne_true]
      split at step
      · rename_i closing
        have closes : (c == ')' || c == ']') = true := by simpa using closing
        split at step
        · cases step
          rw [if_pos closes, List.length_tail]
        · cases step
      · rename_i plain
        have closes : (c == ')' || c == ']') = false := by simpa using plain
        cases step
        rw [closes, if_neg Bool.false_ne_true]

theorem depthAfter_eq_length (awaits : awaitAfter? awaited text = some later)
    : depthAfter awaited.length text = later.length := by
  induction text generalizing awaited with
  | nil =>
      cases awaits
      rfl
  | cons c text ih =>
      rw [awaitAfter?_cons] at awaits
      obtain ⟨middle, step, rest⟩ := Option.bind_eq_some_iff.mp awaits
      rw [depthAfter, List.foldl_cons, depthBehind_eq_length step]
      exact ih rest

theorem IsNested.closed (nested : IsNested text) : depthAfter 0 text = 0 :=
  depthAfter_eq_length nested

theorem eq_append_of_identifier? {name rest : List Char}
    (reads : identifier? text = some (name, rest))
    : text = name ++ rest ∧ ∀ c ∈ name, isWordChar c = true := by
  cases text with
  | nil => cases reads
  | cons c cs =>
      rw [identifier?] at reads
      split at reads
      · rename_i starts
        cases reads
        refine ⟨by rw [List.cons_append, List.takeWhile_append_dropWhile], ?_⟩
        exact List.forall_mem_cons.mpr
          ⟨isWordChar_of_isNameStart starts, fun d => List.mem_takeWhile_imp⟩
      · cases reads

/-- A closing sign stays awaited as long as it does not occur. By induction on the text. -/
theorem exists_awaited {closer : Char} {inner : List Char} (absent : closer ∉ text)
    (awaits : awaitAfter? (inner ++ closer :: awaited) text = some later)
    : ∃ inner', later = inner' ++ closer :: awaited := by
  induction text generalizing inner with
  | nil =>
      cases awaits
      exact ⟨inner, rfl⟩
  | cons c text ih =>
      obtain ⟨other, rest⟩ := not_or.mp (mt List.mem_cons.mpr absent)
      rw [awaitAfter?_cons] at awaits
      obtain ⟨middle, step, more⟩ := Option.bind_eq_some_iff.mp awaits
      unfold awaitBehind? at step
      split at step
      · rename_i own opens
        cases step
        have longer : awaitAfter? (own :: inner ++ closer :: awaited) text = some later := more
        exact ih rest longer
      · split at step
        · split at step
          · rename_i innermost
            cases step
            cases inner with
            | nil => exact absurd (Option.some.inj innermost) other
            | cons d inner => exact ih rest more
          · cases step
        · cases step
          exact ih rest more

theorem not_bracket_of_isBlank {c : Char} (blank : isBlank c = true) : c ∉ "()[]".toList := by
  intro bracket
  have solid : ∀ sign ∈ "()[]".toList, isBlank sign = false := by decide
  rw [solid c bracket] at blank
  cases blank

theorem not_bracket_of_isWordChar {c : Char} (word : isWordChar c = true) : c ∉ "()[]".toList := by
  intro bracket
  have apart : ∀ sign ∈ "()[]".toList, isWordChar sign = false := by decide
  rw [apart c bracket] at word
  cases word

theorem awaitAfter?_trimStart (awaited text : List Char)
    : awaitAfter? awaited (trimStart text) = awaitAfter? awaited text := by
  have blank : ∀ c ∈ text.takeWhile isBlank, c ∉ "()[]".toList := fun c member =>
    not_bracket_of_isBlank (List.mem_takeWhile_imp member)
  have whole : text.takeWhile isBlank ++ trimStart text = text := List.takeWhile_append_dropWhile
  calc
    _ = (awaitAfter? awaited (text.takeWhile isBlank)).bind (awaitAfter? · (trimStart text)) := by
      rw [awaitAfter?_of_plain blank, Option.bind_some]
    _ = awaitAfter? awaited text := by rw [← awaitAfter?_append, whole]

theorem eq_append_of_dropWhile {sign d : Char} (stops : text.dropWhile (· != sign) = d :: back)
    : text = text.takeWhile (· != sign) ++ sign :: back := by
  have found : d = sign := by
    have first := List.head?_dropWhile_not (· != sign) text
    rw [stops] at first
    simpa using first
  subst found
  rw [← stops, List.takeWhile_append_dropWhile]

/-- Array lengths close nothing that is open in front of them. By induction on the lengths. -/
theorem exists_awaited_of_arrays? {arrays : Nat} (reads : Header.arrays? text = some arrays)
    (awaits : awaitAfter? awaited text = some later)
    : ∃ inner, later = inner ++ awaited := by
  fun_induction Header.arrays? text generalizing awaited arrays with
  | case1 =>
      cases awaits
      exact ⟨[], rfl⟩
  | case2 rest d after stops ih =>
      obtain ⟨count, counts, -⟩ := Option.map_eq_some_iff.mp reads
      have absent : ']' ∉ rest.takeWhile (· != ']') := fun member => by
        simpa using List.mem_takeWhile_imp member
      rw [eq_append_of_dropWhile stops, awaitAfter?_cons] at awaits
      have opened : awaitBehind? awaited '[' = some (']' :: awaited) := rfl
      rw [opened, Option.bind_some, awaitAfter?_append] at awaits
      obtain ⟨middle, inside, behind⟩ := Option.bind_eq_some_iff.mp awaits
      obtain ⟨inner, rfl⟩ := @exists_awaited awaited middle _ ']' [] absent inside
      rw [awaitAfter?_cons] at behind
      obtain ⟨open', closing, behind⟩ := Option.bind_eq_some_iff.mp behind
      rw [← awaitAfter?_trimStart] at behind
      obtain ⟨more, rfl⟩ := ih counts behind
      -- The sign that closes the brackets closes the innermost ones of those that are open.
      have closes : open' = (inner ++ ']' :: awaited).tail := by
        rw [awaitBehind?_of_closing (by decide)] at closing
        split at closing
        · exact (Option.some.inj closing).symm
        · cases closing
      cases inner with
      | nil => exact ⟨more, by rw [closes]; rfl⟩
      | cons c inner => exact ⟨more ++ (inner ++ [']']), by simp [closes]⟩
  | case3 => cases reads
  | case4 => cases reads

/-- What is in front of a name and array lengths is nested, if all of it is. -/
theorem IsNested.of_nameBeforeArrays? {found : List Char × Nat}
    (reads : Header.nameBeforeArrays? back = some found) (nested : IsNested (front ++ back))
    : IsNested front := by
  obtain ⟨⟨name, rest⟩, isName, more⟩ := Option.bind_eq_some_iff.mp reads
  obtain ⟨arrays, lengths, -⟩ := Option.bind_eq_some_iff.mp more
  obtain ⟨awaited, inFront, behind⟩ := Option.bind_eq_some_iff.mp
    ((awaitAfter?_append [] front back).symm.trans nested)
  obtain ⟨rfl, word⟩ := eq_append_of_identifier? isName
  have plain : ∀ c ∈ name, c ∉ "()[]".toList := fun c member =>
    not_bracket_of_isWordChar (word c member)
  rw [awaitAfter?_append, awaitAfter?_of_plain plain, Option.bind_some, ← awaitAfter?_trimStart]
    at behind
  obtain ⟨inner, shape⟩ := exists_awaited_of_arrays? lengths behind
  obtain ⟨-, rfl⟩ := List.append_eq_nil_iff.mp shape.symm
  exact inFront

-----------------------------------------------------------------------------------------
-- Items
-----------------------------------------------------------------------------------------

/-- A text that can stand between the commas of a list: no bracket is open behind it, and its own
commas stand inside of brackets.
-/
structure IsItem (text : List Char) : Prop where
  nonempty : text ≠ []
  closed : depthAfter 0 text = 0
  uncut : IsUncut ',' 0 text

theorem IsNested.trim (nested : IsNested text) : IsNested (trim text) := by
  obtain ⟨before, behind, whole, blank, blank'⟩ := exists_trim text
  have plain : ∀ c ∈ before, c ∉ "()[]".toList := fun c member =>
    not_bracket_of_isBlank (blank c member)
  have plain' : ∀ c ∈ behind, c ∉ "()[]".toList := fun c member =>
    not_bracket_of_isBlank (blank' c member)
  rw [IsNested, whole, List.append_assoc, awaitAfter?_append, awaitAfter?_of_plain plain,
    Option.bind_some, awaitAfter?_append] at nested
  obtain ⟨awaited, inside, after⟩ := Option.bind_eq_some_iff.mp nested
  rw [awaitAfter?_of_plain plain'] at after
  cases after
  exact inside

theorem IsUncut.trim {separator : Char} {depth : Nat} (uncut : IsUncut separator depth text)
    : IsUncut separator depth (trim text) := by
  obtain ⟨before, behind, whole, blank, -⟩ := exists_trim text
  have same : depthAfter depth before = depth :=
    depthAfter_of_plain fun c member => not_bracket_of_isBlank (blank c member)
  rw [whole, isUncut_append_iff, isUncut_append_iff, same] at uncut
  exact uncut.1.2

theorem depthAfter_trim (depth : Nat) (text : List Char)
    : depthAfter depth (Text.trim text) = depthAfter depth text := by
  obtain ⟨before, behind, whole, blank, blank'⟩ := exists_trim text
  have same {depth : Nat} : depthAfter depth before = depth :=
    depthAfter_of_plain fun c member => not_bracket_of_isBlank (blank c member)
  have same' {depth : Nat} : depthAfter depth behind = depth :=
    depthAfter_of_plain fun c member => not_bracket_of_isBlank (blank' c member)
  rw [whole, depthAfter_append, depthAfter_append, same, same', ← whole]

/-- The layout of an item does not matter. -/
theorem IsItem.collapse (uncut : IsUncut ',' 0 text) (closed : depthAfter 0 text = 0)
    (word : ∃ c ∈ text, isBlank c = false)
    : IsItem (collapse text) where
  nonempty := by
    obtain ⟨c, member, solid⟩ := word
    exact List.ne_nil_of_mem (mem_collapse_of_mem member solid)
  closed := by
    rw [← trim_collapseBefore, depthAfter_trim, depthAfter_collapseBefore, closed]
  uncut := by
    rw [← trim_collapseBefore]
    exact (uncut.collapseBefore (by decide)).trim

/-- A nested list is cut into nested items. By induction on the items. -/
theorem IsNested.of_areItems {depth : Nat} {items : List (List Char)}
    (nested : IsNested ([','].intercalate items)) (are : AreItems ',' depth items)
    (whole : depth = 0)
    : ∀ item ∈ items, IsNested item ∧ IsUncut ',' 0 item := by
  induction are with
  | last uncut =>
      rw [List.intercalate_singleton] at nested
      exact List.forall_mem_singleton.mpr ⟨nested, whole ▸ uncut⟩
  | @cons depth text rest uncut closed later ih =>
      subst whole
      obtain ⟨second, others, rfl⟩ := List.exists_cons_of_ne_nil later.ne_nil
      have comma : awaitBehind? [] ',' = some [] := rfl
      rw [List.intercalate_cons_cons, IsNested, List.append_assoc, awaitAfter?_append] at nested
      obtain ⟨awaited, first, more⟩ := Option.bind_eq_some_iff.mp nested
      have none : awaited.length = 0 := (depthAfter_eq_length first).symm.trans closed
      obtain rfl := List.length_eq_zero_iff.mp none
      rw [List.singleton_append, awaitAfter?_cons, comma, Option.bind_some] at more
      exact List.forall_mem_cons.mpr ⟨⟨first, uncut⟩, ih more rfl⟩

theorem IsNested.of_mem_cutOutside {item : List Char} (nested : IsNested text)
    (member : item ∈ cutOutside ',' 0 text)
    : IsNested item ∧ IsUncut ',' 0 item := by
  obtain ⟨are, joined⟩ := areItems_cutOutside ',' 0 text
  rw [← joined] at nested
  exact nested.of_areItems are rfl item member

theorem IsNested.isItem (nested : IsNested text) (nonempty : text ≠ [])
    (whole : text ∈ cutOutside ',' 0 text)
    : IsItem text :=
  ⟨nonempty, nested.closed, (nested.of_mem_cutOutside whole).2⟩

end ApiBindings.Text
