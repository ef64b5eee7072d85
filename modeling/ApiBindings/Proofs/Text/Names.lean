import ApiBindings.Proofs.Text.Search

/-! The names in a text.
A name is a word from the first of its signs on that a name can start with. Names are read one
behind the other, so what stands in front of a name counts only if its last word runs into it.
-/

namespace ApiBindings.Text

variable {c : Char} {cs front back name rest : List Char}

-----------------------------------------------------------------------------------------
-- Single names
-----------------------------------------------------------------------------------------

/-- A name is read as far as the word goes that it starts. -/
theorem identifier?_eq_some_iff
    : identifier? cs = some (name, rest)
      ↔ cs = name ++ rest ∧ isIdentifier name = true ∧ EndsName rest := by
  constructor
  · intro reads
    cases cs with
    | nil => cases reads
    | cons c cs =>
        rw [identifier?] at reads
        split at reads
        · rename_i starts
          cases reads
          refine ⟨by rw [List.cons_append, List.takeWhile_append_dropWhile], ?_, fun d head => ?_⟩
          · rw [isIdentifier, starts, Bool.true_and]
            exact List.all_eq_true.mpr fun d => List.mem_takeWhile_imp
          · have stops := List.head?_dropWhile_not isWordChar cs
            rw [Option.mem_def.mp head] at stops
            exact stops
        · cases reads
  · rintro ⟨rfl, identifier, ends⟩
    exact identifier?_append identifier ends

-----------------------------------------------------------------------------------------
-- The last name
-----------------------------------------------------------------------------------------

theorem identifiers_name_append (identifier : isIdentifier name = true) (ends : EndsName rest)
    : identifiers (name ++ rest) = name :: identifiers rest := by
  have word := isWordChar_of_isIdentifier identifier
  cases name with
  | nil => cases identifier
  | cons c cs =>
      have starts := (Bool.and_eq_true_iff.mp identifier).1
      have word := (List.forall_mem_cons.mp word).2
      rw [List.cons_append, identifiers, if_pos starts, takeWhile_isWordChar word ends,
        dropWhile_isWordChar word ends]

/-- No name in a text goes on behind it: there is no sign that a name can start with in the word at
the end, if the text ends with a word.
-/
def EndsApart (front : List Char) : Prop :=
  ∀ first word, front = first ++ word → (∀ c ∈ word, isWordChar c = true)
    → ∀ c ∈ word, isNameStart c = false

/-- The last name in a text, if there is any. -/
inductive HasLastName (text : List Char) : Option (List Char) → Prop where
  | named {front name back : List Char} (shape : text = front ++ (name ++ back))
    (identifier : isIdentifier name = true) (apart : EndsApart front) (ends : EndsName back)
    (last : ∀ c ∈ back, isNameStart c = false)
    : HasLastName text (some name)
  | nameless (absent : ∀ c ∈ text, isNameStart c = false) : HasLastName text none

theorem EndsApart.of_append (apart : EndsApart (front ++ back)) : EndsApart back :=
  fun first word shape =>
    apart (front ++ first) word (by rw [shape, List.append_assoc])

/-- A sign that is in no word keeps what is in front of it apart. -/
theorem EndsApart.behind (apart : EndsApart back) (differs : isWordChar c = false)
    (front : List Char)
    : EndsApart (front ++ c :: back) := by
  intro first word shape words
  rcases List.append_eq_append_iff.mp shape with ⟨inner, -, rest⟩ | ⟨inner, -, rest⟩
  · cases inner with
    | nil =>
        have here := words c (by rw [← List.nil_append word, ← rest]; exact List.mem_cons_self)
        rw [differs] at here
        cases here
    | cons d inner =>
        obtain ⟨-, same⟩ := List.cons.inj rest
        exact apart inner word same words
  · have here := words c (by rw [rest]; simp)
    rw [differs] at here
    cases here

theorem EndsApart.cons (apart : EndsApart front) (starts : isNameStart c = false)
    : EndsApart (c :: front) := by
  intro first word shape words
  cases first with
  | nil =>
      obtain rfl : c :: front = word := shape
      exact List.forall_mem_cons.mpr
        ⟨starts, apart [] front rfl (List.forall_mem_cons.mp words).2⟩
  | cons d first => exact apart first word (List.cons.inj shape).2 words

/-- Names behind a text that ends apart are read as if they stood alone. By induction on the names
in front.
-/
theorem identifiers_append_of_endsApart (apart : EndsApart front) (back : List Char)
    : identifiers (front ++ back) = identifiers front ++ identifiers back := by
  fun_induction identifiers front with
  | case1 => rfl
  | case2 c rest starts ih =>
      have parted : rest.dropWhile isWordChar ≠ [] := by
        intro none
        have words : ∀ d ∈ c :: rest, isWordChar d = true :=
          List.forall_mem_cons.mpr
            ⟨isWordChar_of_isNameStart starts, List.dropWhile_eq_nil_iff.mp none⟩
        have not := apart [] (c :: rest) rfl words c List.mem_cons_self
        rw [starts] at not
        cases not
      have kept : (rest ++ back).takeWhile isWordChar = rest.takeWhile isWordChar := by
        rw [List.takeWhile_append, if_neg]
        intro long
        have all := List.takeWhile_append_dropWhile (p := isWordChar) (l := rest)
        have size := congrArg List.length all
        rw [List.length_append, long] at size
        exact parted (List.eq_nil_of_length_eq_zero (by omega))
      have left : (rest ++ back).dropWhile isWordChar = rest.dropWhile isWordChar ++ back := by
        rw [List.dropWhile_append, if_neg fun empty => parted (List.isEmpty_iff.mp empty)]
      have behind : EndsApart (rest.dropWhile isWordChar) := by
        have whole : c :: rest = (c :: rest.takeWhile isWordChar) ++ rest.dropWhile isWordChar := by
          rw [List.cons_append, List.takeWhile_append_dropWhile]
        rw [whole] at apart
        exact apart.of_append
      rw [List.cons_append, identifiers, if_pos starts, kept, left, ih behind, List.cons_append]
  | case3 c rest starts ih =>
      have behind : EndsApart ([c] ++ rest) := apart
      rw [List.cons_append, identifiers, if_neg starts, ih behind.of_append]

/-- The last name is the one that is read last. -/
theorem HasLastName.getLast?_identifiers {text : List Char} {name : Option (List Char)}
    (has : HasLastName text name)
    : (identifiers text).getLast? = name := by
  cases has with
  | nameless absent => rw [identifiers_eq_nil absent, List.getLast?_nil]
  | @named front name back shape identifier apart ends last =>
      rw [shape, identifiers_append_of_endsApart apart, identifiers_name_append identifier ends,
        identifiers_eq_nil last, List.getLast?_concat]

theorem endsApart_nil : EndsApart [] := by
  intro first word shape
  obtain ⟨-, rfl⟩ := List.append_eq_nil_iff.mp shape.symm
  simp

/-- What is read last is the last name. By induction on the names that are read. -/
theorem hasLastName_identifiers (text : List Char)
    : HasLastName text (identifiers text).getLast? := by
  fun_induction identifiers text with
  | case1 => exact .nameless (by simp)
  | case2 c rest starts ih =>
      have first
          : identifier? (c :: rest)
            = some (c :: rest.takeWhile isWordChar, rest.dropWhile isWordChar) :=
        if_pos starts
      obtain ⟨shape, identifier, ends⟩ := identifier?_eq_some_iff.mp first
      generalize later : (identifiers (rest.dropWhile isWordChar)).getLast? = found at ih
      cases ih with
      | nameless absent =>
          rw [List.getLast?_eq_none_iff.mp later, List.getLast?_singleton]
          exact .named (shape.trans (List.nil_append _).symm) identifier endsApart_nil ends absent
      | @named front name back inner isName apart behind last =>
          rw [List.getLast?_cons, later, Option.getD_some]
          cases front with
          | nil =>
              obtain ⟨d, name, rfl⟩ := List.exists_cons_of_ne_nil (ne_nil_of_isIdentifier isName)
              have first := ends d (by rw [inner]; rfl)
              rw [isWordChar_of_isIdentifier isName d List.mem_cons_self] at first
              cases first
          | cons d front =>
              have first := ends d (by rw [inner]; rfl)
              have tail : EndsApart ([d] ++ front) := apart
              refine .named ?_ isName
                (tail.of_append.behind first (c :: rest.takeWhile isWordChar)) behind last
              rw [shape, inner, List.append_assoc]
  | case3 c rest starts ih =>
      generalize (identifiers rest).getLast? = found at ih
      have none : isNameStart c = false := by simpa using starts
      cases ih with
      | nameless absent => exact .nameless (List.forall_mem_cons.mpr ⟨none, absent⟩)
      | @named front name back inner isName apart ends last =>
          exact .named (by rw [inner, List.cons_append]) isName (apart.cons none) ends last

end ApiBindings.Text
