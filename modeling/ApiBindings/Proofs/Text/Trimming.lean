import ApiBindings.Proofs.Text.Spacing

/-! Texts without the blanks at their two ends.
Trimming a text leaves its part between its first and its last sign that is no blank, and there is
only one such part.
-/

namespace ApiBindings.Text

/-- A text is what is left when it is trimmed, with blanks around it. -/
theorem exists_trim (cs : List Char)
    : ∃ front back, cs = front ++ trim cs ++ back ∧ (∀ c ∈ front, isBlank c = true)
        ∧ ∀ c ∈ back, isBlank c = true := by
  refine ⟨cs.takeWhile isBlank, ((trimStart cs).reverse.takeWhile isBlank).reverse, ?_,
    fun c => List.mem_takeWhile_imp, fun c member => ?_⟩
  · rw [trim, trimEnd, List.append_assoc, ← List.reverse_append, List.takeWhile_append_dropWhile,
      List.reverse_reverse, trimStart, List.takeWhile_append_dropWhile]
  · exact List.mem_takeWhile_imp (List.mem_reverse.mp member)

/-- Nothing is left of a text that consists of blanks, and of no other. -/
theorem isEmpty_trim (cs : List Char) : (trim cs).isEmpty = cs.all isBlank := by
  cases blank : cs.all isBlank with
  | true => rw [trim_eq_nil blank, List.isEmpty_nil]
  | false =>
      refine Bool.eq_false_iff.mpr fun empty => Bool.eq_false_iff.mp blank ?_
      obtain ⟨front, back, shape, before, behind⟩ := exists_trim cs
      rw [List.isEmpty_iff.mp empty, List.append_nil] at shape
      rw [shape]
      exact List.all_eq_true.mpr (List.forall_mem_append.mpr ⟨before, behind⟩)

/-- Trimming the end of a text does not change what it starts with. -/
theorem head?_trim (cs : List Char) : (trim cs).head? = (trimStart cs).head? := by
  cases shape : trimStart cs with
  | nil => rw [trim, shape]
           rfl
  | cons c rest =>
      have word : isBlank c = false := by
        have stops := List.head?_dropWhile_not isBlank cs
        rw [← trimStart, shape] at stops
        exact stops
      rw [trim, shape, trimEnd_cons, if_neg (by simp [word])]
      rfl

/-- A part of a text that neither starts nor ends with a blank, with blanks around it. -/
structure IsTrimmed (inner text : List Char) : Prop where
  shape
    : ∃ front back,
        text = front ++ inner ++ back ∧ (∀ c ∈ front, isBlank c = true)
        ∧ ∀ c ∈ back, isBlank c = true
  starts : ∀ c ∈ inner.head?, isBlank c = false
  ends : ∀ c ∈ inner.getLast?, isBlank c = false

theorem isTrimmed_trim (text : List Char) : IsTrimmed (trim text) text where
  shape := exists_trim text
  starts := by
    intro c head
    rw [head?_trim, trimStart] at head
    have stops := List.head?_dropWhile_not isBlank text
    rw [Option.mem_def.mp head] at stops
    exact stops
  ends := by
    intro c last
    rw [trim, trimEnd, List.getLast?_reverse] at last
    have stops := List.head?_dropWhile_not isBlank (trimStart text).reverse
    rw [Option.mem_def.mp last] at stops
    exact stops

namespace IsTrimmed

variable {inner text : List Char}

theorem trim_eq (trimmed : IsTrimmed inner text) : trim text = inner := by
  obtain ⟨⟨front, back, rfl, before, behind⟩, starts, ends⟩ := trimmed
  have first : trimStart (front ++ inner ++ back) = trimStart (inner ++ back) := by
    rw [trimStart, List.append_assoc, List.dropWhile_append_of_pos before]
    rfl
  rw [trim, first]
  cases inner with
  | nil =>
      have none : trimStart back = [] := List.dropWhile_eq_nil_iff.mpr behind
      rw [List.nil_append, none]
      rfl
  | cons c inner =>
      rw [List.cons_append, trimStart_cons (starts c rfl), ← List.cons_append, trimEnd,
        List.reverse_append, List.dropWhile_append_of_pos (by simpa using behind)]
      cases shape : (c :: inner).reverse with
      | nil => simp at shape
      | cons d rest =>
          have solid : isBlank d = false := by
            refine ends d ?_
            rw [← List.reverse_reverse (c :: inner), shape, List.getLast?_reverse]
            rfl
          rw [List.dropWhile_cons_of_neg (by simp [solid]), ← shape, List.reverse_reverse]

/-- More blanks around a text make no difference. -/
theorem pad (trimmed : IsTrimmed inner text) {front back : List Char}
    (before : ∀ c ∈ front, isBlank c = true) (behind : ∀ c ∈ back, isBlank c = true)
    : IsTrimmed inner (front ++ text ++ back) := by
  obtain ⟨⟨first, last, rfl, blank, blank'⟩, starts, ends⟩ := trimmed
  refine ⟨⟨front ++ first, last ++ back, by simp only [List.append_assoc], ?_, ?_⟩, starts, ends⟩
  · exact List.forall_mem_append.mpr ⟨before, blank⟩
  · exact List.forall_mem_append.mpr ⟨blank', behind⟩

theorem not_mem {c : Char} (trimmed : IsTrimmed inner text) (solid : isBlank c = false)
    (absent : c ∉ inner)
    : c ∉ text := by
  obtain ⟨⟨front, back, rfl, before, behind⟩, -⟩ := trimmed
  have notBlank {blanks : List Char} (blank : ∀ d ∈ blanks, isBlank d = true) : c ∉ blanks := by
    intro member
    rw [blank c member] at solid
    cases solid
  exact List.not_mem_append (List.not_mem_append (notBlank before) absent) (notBlank behind)

end IsTrimmed

end ApiBindings.Text
