import ApiBindings.Text.Word

/-! The pieces between the commas of a list.
A piece whose parentheses and brackets are in balance is kept whole, so texts that are put together
with commas are cut apart at those commas. Every text is a list of such pieces, but for brackets
that are still open behind the last one.
-/

namespace ApiBindings.Text

variable {separator : Char} {depth : Nat} {text front back : List Char}

theorem cutOutside_ne_nil (separator : Char) (depth : Nat) (cs : List Char)
    : cutOutside separator depth cs ≠ [] := by
  cases cs with
  | nil => exact List.cons_ne_nil _ _
  | cons c cs =>
      rw [cutOutside]
      split
      · exact List.cons_ne_nil _ _
      · dsimp only
        split
        · exact List.cons_ne_nil _ _
        · exact List.cons_ne_nil _ _

/-- A text that is not cut, whatever is cut behind it. -/
def IsPiece (separator : Char) (depth : Nat) (text : List Char) : Prop :=
  ∀ rest,
    cutOutside separator depth (text ++ rest) =
      (cutOutside separator depth rest).modifyHead (text ++ ·)

theorem isPiece_nil : IsPiece separator depth [] := by
  intro rest
  obtain ⟨piece, pieces, shape⟩ :=
    List.exists_cons_of_ne_nil (cutOutside_ne_nil separator depth rest)
  rw [List.nil_append, shape]
  rfl

theorem IsPiece.append (first : IsPiece separator depth front)
    (second : IsPiece separator depth back)
    : IsPiece separator depth (front ++ back) := by
  intro rest
  obtain ⟨piece, pieces, shape⟩ :=
    List.exists_cons_of_ne_nil (cutOutside_ne_nil separator depth rest)
  rw [List.append_assoc, first, second, shape]
  simp

/-- How many brackets are open behind a character. -/
def depthBehind (depth : Nat) (c : Char) : Nat :=
  if c == '(' || c == '[' then depth + 1
  else if c == ')' || c == ']' then depth - 1
  else depth

/-- A character that does not cut belongs to the first piece. -/
theorem cutOutside_cons {c : Char} (keeps : ¬(c = separator ∧ depth = 0)) (cs : List Char)
    : cutOutside separator depth (c :: cs) =
        (cutOutside separator (depthBehind depth c) cs).modifyHead (c :: ·) := by
  obtain ⟨first, pieces, shape⟩ :=
    List.exists_cons_of_ne_nil (cutOutside_ne_nil separator (depthBehind depth c) cs)
  have whole : (c == separator && depth == 0) = false := by simpa using keeps
  rw [shape, cutOutside, whole]
  unfold depthBehind at shape
  simp only [Bool.false_eq_true, if_false, shape]
  rfl

theorem depthBehind_of_plain {c : Char} (plain : c ∉ "()[]".toList) : depthBehind depth c = depth := by
  have other (sign : Char) (member : sign ∈ "()[]".toList) : (c == sign) = false := by
    refine beq_eq_false_iff_ne.mpr ?_
    rintro rfl
    exact plain member
  simp [depthBehind, other '(' (by decide), other ')' (by decide), other '[' (by decide),
    other ']' (by decide)]

/-- A text that neither opens nor closes anything and has no comma is a piece. By induction on the
text.
-/
theorem isPiece_of_plain (plain : ∀ c ∈ text, c ∉ "()[]".toList ∧ c ≠ separator)
    : IsPiece separator depth text := by
  induction text with
  | nil => exact isPiece_nil
  | cons c text ih =>
      obtain ⟨⟨here, other⟩, later⟩ := List.forall_mem_cons.mp plain
      intro rest
      rw [List.cons_append, cutOutside_cons fun cuts => other cuts.1, depthBehind_of_plain here,
        ih later]
      obtain ⟨first, pieces, shape⟩ :=
        List.exists_cons_of_ne_nil (cutOutside_ne_nil separator depth rest)
      rw [shape]
      rfl

/-- Brackets around a piece are a piece. -/
theorem isPiece_bracketed (inner : IsPiece separator (depth + 1) text) (bracket : '[' ≠ separator)
    : IsPiece separator depth ('[' :: text ++ [']']) := by
  intro rest
  obtain ⟨first, pieces, shape⟩ :=
    List.exists_cons_of_ne_nil (cutOutside_ne_nil separator depth rest)
  have opened : depthBehind depth '[' = depth + 1 := rfl
  have closed : depthBehind (depth + 1) ']' = depth := rfl
  have behind : cutOutside separator (depth + 1) (']' :: rest) = (']' :: first) :: pieces := by
    rw [cutOutside_cons fun cuts => Nat.succ_ne_zero depth cuts.2, closed, shape]
    rfl
  rw [List.cons_append, List.cons_append, cutOutside_cons fun cuts => bracket cuts.1, opened,
    List.append_assoc, inner, List.singleton_append, behind, shape]
  simp

/-- Pieces that are put together with a comma and a blank are cut apart again. By induction on the
pieces.
-/
theorem cutOutside_intercalate {first : List Char} {rest : List (List Char)}
    (pieces : ∀ piece ∈ first :: rest, IsPiece ',' 0 piece)
    : cutOutside ',' 0 (", ".toList.intercalate (first :: rest)) =
        first :: rest.map (' ' :: ·) := by
  induction rest generalizing first with
  | nil =>
      have whole := pieces first List.mem_cons_self []
      simpa [List.intercalate, cutOutside] using whole
  | cons second rest ih =>
      obtain ⟨here, later⟩ := List.forall_mem_cons.mp pieces
      have blank : IsPiece ',' 0 [' '] := isPiece_of_plain (List.forall_mem_singleton.mpr (by decide))
      have shape : ", ".toList.intercalate (first :: second :: rest) =
          first ++ ',' :: ([' '] ++ ", ".toList.intercalate (second :: rest)) := by
        simp [List.intercalate, List.intersperse]
      have cuts (cs : List Char) : cutOutside ',' 0 (',' :: cs) = [] :: cutOutside ',' 0 cs := rfl
      rw [shape, here, cuts, blank, ih later]
      simp

-----------------------------------------------------------------------------------------
-- Lists
-----------------------------------------------------------------------------------------

/-- How many brackets are open behind a text. -/
def depthAfter (depth : Nat) (text : List Char) : Nat :=
  text.foldl depthBehind depth

/-- No separator stands outside of all brackets. -/
def IsUncut (separator : Char) (depth : Nat) (text : List Char) : Prop :=
  ∀ front back, text = front ++ separator :: back → depthAfter depth front ≠ 0

/-- The items of a list, given how many brackets are open before them: separators stand inside of
brackets only, and behind every item but the last one all brackets are closed.
-/
inductive AreItems (separator : Char) : Nat → List (List Char) → Prop where
  | last {depth : Nat} {text : List Char} (uncut : IsUncut separator depth text)
    : AreItems separator depth [text]
  | cons {depth : Nat} {text : List Char} {rest : List (List Char)}
    (uncut : IsUncut separator depth text) (closed : depthAfter depth text = 0)
    (later : AreItems separator 0 rest)
    : AreItems separator depth (text :: rest)

theorem isUncut_nil : IsUncut separator depth [] := by
  intro front back shape
  simp at shape

theorem isUncut_cons_iff {c : Char}
    : IsUncut separator depth (c :: text)
      ↔ ¬(c = separator ∧ depth = 0) ∧ IsUncut separator (depthBehind depth c) text := by
  constructor
  · intro uncut
    refine ⟨?_, fun front back shape => ?_⟩
    · rintro ⟨rfl, closed⟩
      exact uncut [] text rfl closed
    · exact uncut (c :: front) back (by rw [shape, List.cons_append])
  · rintro ⟨keeps, later⟩ front back shape closed
    cases front with
    | nil =>
        obtain ⟨rfl, -⟩ := List.cons.inj shape
        exact keeps ⟨rfl, closed⟩
    | cons d front =>
        obtain ⟨rfl, same⟩ := List.cons.inj shape
        exact later front back same closed

theorem isUncut_of_not_mem (absent : separator ∉ text) : IsUncut separator depth text := by
  rintro front back rfl
  exact absurd (List.mem_append_right front List.mem_cons_self) absent

theorem depthAfter_append (depth : Nat) (front back : List Char)
    : depthAfter depth (front ++ back) = depthAfter (depthAfter depth front) back :=
  List.foldl_append

theorem depthAfter_of_plain (plain : ∀ c ∈ text, c ∉ "()[]".toList)
    : depthAfter depth text = depth := by
  induction text with
  | nil => rfl
  | cons c text ih =>
      obtain ⟨here, later⟩ := List.forall_mem_cons.mp plain
      rw [depthAfter, List.foldl_cons, depthBehind_of_plain here]
      exact ih later

/-- Inside of brackets everything is kept as long as none is opened or closed. -/
theorem isUncut_of_plain (plain : ∀ c ∈ text, c ∉ "()[]".toList) (opened : depth ≠ 0)
    : IsUncut separator depth text := by
  rintro front back rfl
  rwa [depthAfter_of_plain fun c member => plain c (List.mem_append_left _ member)]

theorem isUncut_append_iff
    : IsUncut separator depth (front ++ back)
      ↔ IsUncut separator depth front ∧ IsUncut separator (depthAfter depth front) back := by
  induction front generalizing depth with
  | nil => exact (and_iff_right isUncut_nil).symm
  | cons c front ih =>
      rw [List.cons_append, isUncut_cons_iff, isUncut_cons_iff, ih, and_assoc]
      rfl

/-- A text without separators outside of brackets is kept whole in front of any other. By induction
on the text.
-/
theorem cutOutside_append_of_isUncut (uncut : IsUncut separator depth text) (rest : List Char)
    : cutOutside separator depth (text ++ rest) =
        (cutOutside separator (depthAfter depth text) rest).modifyHead (text ++ ·) := by
  induction text generalizing depth with
  | nil => exact isPiece_nil rest
  | cons c text ih =>
      obtain ⟨keeps, later⟩ := isUncut_cons_iff.mp uncut
      rw [List.cons_append, cutOutside_cons keeps, ih later, List.modifyHead_modifyHead]
      rfl

theorem IsUncut.isPiece (uncut : IsUncut separator depth text)
    (closed : depthAfter depth text = depth)
    : IsPiece separator depth text := by
  intro rest
  rw [cutOutside_append_of_isUncut uncut, closed]

/-- A text without separators outside of brackets is one item. -/
theorem cutOutside_of_isUncut (uncut : IsUncut separator depth text)
    : cutOutside separator depth text = [text] := by
  simpa [cutOutside] using cutOutside_append_of_isUncut uncut []

/-- A list is cut behind an item in which all brackets are closed. -/
theorem cutOutside_append_separator (uncut : IsUncut separator depth text)
    (closed : depthAfter depth text = 0) (rest : List Char)
    : cutOutside separator depth (text ++ separator :: rest) =
        text :: cutOutside separator 0 rest := by
  rw [cutOutside_append_of_isUncut uncut, closed, cutOutside, if_pos (by simp),
    List.modifyHead_cons, List.append_nil]

theorem AreItems.ne_nil {items : List (List Char)} (are : AreItems separator depth items)
    : items ≠ [] := by
  cases are <;> exact List.cons_ne_nil _ _

/-- A list is cut into its items. By induction on the items. -/
theorem AreItems.cutOutside {items : List (List Char)} (are : AreItems separator depth items)
    : Text.cutOutside separator depth ([separator].intercalate items) = items := by
  induction are with
  | last uncut => simpa [List.intercalate] using cutOutside_of_isUncut uncut
  | @cons depth text rest uncut closed later ih =>
      obtain ⟨second, others, rfl⟩ := List.exists_cons_of_ne_nil later.ne_nil
      rw [List.intercalate_cons_cons, List.append_assoc, List.singleton_append,
        cutOutside_append_separator uncut closed, ih]

/-- One more character in front of the first item. -/
theorem AreItems.modifyHead {c : Char} {items : List (List Char)}
    (keeps : ¬(c = separator ∧ depth = 0)) (are : AreItems separator (depthBehind depth c) items)
    : AreItems separator depth (items.modifyHead (c :: ·)) := by
  cases are with
  | last uncut => exact .last (isUncut_cons_iff.mpr ⟨keeps, uncut⟩)
  | cons uncut closed later => exact .cons (isUncut_cons_iff.mpr ⟨keeps, uncut⟩) closed later

/-- Every text is a list of items. By induction on the text. -/
theorem areItems_cutOutside (separator : Char) (depth : Nat) (text : List Char)
    : AreItems separator depth (cutOutside separator depth text)
      ∧ [separator].intercalate (cutOutside separator depth text) = text := by
  induction text generalizing depth with
  | nil => exact ⟨.last isUncut_nil, rfl⟩
  | cons c text ih =>
      by_cases cuts : c = separator ∧ depth = 0
      · obtain ⟨rfl, rfl⟩ := cuts
        obtain ⟨are, joined⟩ := ih 0
        have cut : cutOutside c 0 (c :: text) = [] :: cutOutside c 0 text := by
          rw [cutOutside, if_pos (by simp)]
        obtain ⟨first, rest, shape⟩ := List.exists_cons_of_ne_nil are.ne_nil
        rw [cut]
        refine ⟨.cons isUncut_nil rfl are, ?_⟩
        rw [shape] at joined ⊢
        rw [List.intercalate_cons_cons, joined]
        rfl
      · obtain ⟨are, joined⟩ := ih (depthBehind depth c)
        rw [cutOutside_cons cuts]
        refine ⟨are.modifyHead cuts, ?_⟩
        obtain ⟨first, rest, shape⟩ := List.exists_cons_of_ne_nil are.ne_nil
        rw [shape] at joined ⊢
        rw [← joined]
        cases rest with
        | nil => simp [List.intercalate]
        | cons second rest =>
            rw [List.modifyHead_cons, List.intercalate_cons_cons, List.intercalate_cons_cons]
            rfl

end ApiBindings.Text
