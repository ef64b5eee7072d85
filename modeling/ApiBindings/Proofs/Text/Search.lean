import ApiBindings.Text.Blank
import ApiBindings.Text.Word
import Mathlib.Data.List.Induction
import Mathlib.Data.List.TakeWhile

/-! Where a search for a part of a text ends.
A search passes every place at which nothing can be read, so it gets from the front of a text to the
part that it looks for. A name is read as a whole if it does not run into what stands around it.
-/

namespace ApiBindings.Text

variable {c : Char} {cs front back name rest : List Char}

-----------------------------------------------------------------------------------------
-- Kinds of characters
-----------------------------------------------------------------------------------------

theorem isWordChar_of_isNameStart (starts : isNameStart c = true) : isWordChar c = true := by
  rcases Bool.or_eq_true_iff.mp starts with letter | underscore
  · have ascii : c.toNat < 0x80 := by
      have same : c.toNat = c.val.toNat := rfl
      rcases Bool.or_eq_true_iff.mp letter with upper | lower
      · have last : c.val ≤ 'Z'.val := (of_decide_eq_true upper).2
        have last : c.val.toNat ≤ 90 := UInt32.le_iff_toNat_le.mp last
        omega
      · have last : c.val ≤ 'z'.val := of_decide_eq_true (Bool.and_eq_true_iff.mp lower).2
        have last : c.val.toNat ≤ 122 := UInt32.le_iff_toNat_le.mp last
        omega
    simp [isWordChar, ascii, Char.isAlphanum, letter]
  · obtain rfl := eq_of_beq underscore
    decide

theorem not_isNameStart_of_not_isWordChar (apart : isWordChar c = false)
    : isNameStart c = false := by
  rw [Bool.eq_false_iff]
  intro starts
  rw [isWordChar_of_isNameStart starts] at apart
  cases apart

/-- The blanks by their numbers. -/
def blankCodes : List Nat :=
  [0x20, 0x09, 0x0A, 0x0B, 0x0C, 0x0D, 0x85, 0xA0, 0x1680, 0x2000, 0x2001, 0x2002, 0x2003, 0x2004,
    0x2005, 0x2006, 0x2007, 0x2008, 0x2009, 0x200A, 0x2028, 0x2029, 0x202F, 0x205F, 0x3000]

theorem toNat_mem_blankCodes (blank : isBlank c = true) : c.toNat ∈ blankCodes := by
  simp only [isBlank, Bool.or_eq_true, Bool.and_eq_true, beq_iff_eq, decide_eq_true_eq] at blank
  simp only [blankCodes, List.mem_cons, List.not_mem_nil, or_false]
  omega

theorem not_isWordChar_of_isBlank (blank : isBlank c = true) : isWordChar c = false := by
  have apart : ∀ code ∈ blankCodes, isWordChar (Char.ofNat code) = false := by decide +kernel
  simpa using apart c.toNat (toNat_mem_blankCodes blank)

theorem not_isBlank_of_isWordChar (word : isWordChar c = true) : isBlank c = false := by
  cases blank : isBlank c with
  | false => rfl
  | true => simp [not_isWordChar_of_isBlank blank] at word

-----------------------------------------------------------------------------------------
-- Fixed texts
-----------------------------------------------------------------------------------------

theorem strip?_append (start rest : List Char) : strip? start (start ++ rest) = some rest := by
  induction start with
  | nil => rfl
  | cons c start ih => simpa [strip?] using ih

/-- Nothing is dropped from the front of a text that starts otherwise. -/
theorem strip?_cons_of_ne {d : Char} {start : List Char} (differs : c ≠ d)
    : strip? (c :: start) (d :: rest) = none :=
  if_neg differs

/-- All characters of a text differ from one that is not in it. -/
theorem bne_of_not_mem {sign : Char} (absent : sign ∉ cs) : ∀ c ∈ cs, (c != sign) = true := by
  intro c member
  refine bne_iff_ne.mpr ?_
  rintro rfl
  exact absent member

theorem ofList_ne_empty (nonempty : cs ≠ []) : String.ofList cs ≠ "" := by
  intro same
  exact nonempty (by simpa using congrArg String.toList same)

-----------------------------------------------------------------------------------------
-- Names
-----------------------------------------------------------------------------------------

/-- A text does not start with a character that could belong to a name in front of it. -/
def EndsName (rest : List Char) : Prop :=
  ∀ c ∈ rest.head?, isWordChar c = false

theorem isWordChar_of_isIdentifier (identifier : isIdentifier name = true)
    : ∀ c ∈ name, isWordChar c = true := by
  cases name with
  | nil => cases identifier
  | cons c cs =>
      obtain ⟨starts, later⟩ := Bool.and_eq_true_iff.mp identifier
      exact List.forall_mem_cons.mpr
        ⟨isWordChar_of_isNameStart starts, List.all_eq_true.mp later⟩

theorem not_mem_of_isIdentifier (identifier : isIdentifier name = true) {sign : Char}
    (word : isWordChar sign = false)
    : sign ∉ name := by
  intro member
  rw [isWordChar_of_isIdentifier identifier sign member] at word
  cases word

theorem ne_nil_of_isIdentifier (identifier : isIdentifier name = true) : name ≠ [] := by
  rintro rfl
  cases identifier

theorem takeWhile_isWordChar (word : ∀ c ∈ name, isWordChar c = true) (ends : EndsName rest)
    : (name ++ rest).takeWhile isWordChar = name := by
  rw [List.takeWhile_append_of_pos word]
  cases rest with
  | nil => simp
  | cons c rest => simp [ends c rfl]

theorem dropWhile_isWordChar (word : ∀ c ∈ name, isWordChar c = true) (ends : EndsName rest)
    : (name ++ rest).dropWhile isWordChar = rest := by
  rw [List.dropWhile_append_of_pos word]
  cases rest with
  | nil => rfl
  | cons c rest => simp [ends c rfl]

theorem identifier?_append (identifier : isIdentifier name = true) (ends : EndsName rest)
    : identifier? (name ++ rest) = some (name, rest) := by
  have word := isWordChar_of_isIdentifier identifier
  cases name with
  | nil => cases identifier
  | cons c cs =>
      have starts := (Bool.and_eq_true_iff.mp identifier).1
      have word := (List.forall_mem_cons.mp word).2
      rw [List.cons_append, identifier?, if_pos starts, takeWhile_isWordChar word ends,
        dropWhile_isWordChar word ends]

/-- A text that stands in front of a name without running into it. -/
def EndsBefore (front : List Char) : Prop :=
  ∀ c ∈ front.getLast?, isWordChar c = false

instance (front : List Char) : Decidable (EndsBefore front) :=
  Option.decidableForallMem _

theorem EndsBefore.tail (ends : EndsBefore (c :: front)) : EndsBefore front := by
  cases front with
  | nil =>
      intro d last
      cases last
  | cons d front => exact ends

theorem EndsBefore.of_append (ends : EndsBefore (front ++ back)) : EndsBefore back := by
  induction front with
  | nil => exact ends
  | cons c front ih => exact ih ends.tail

theorem EndsBefore.cons (ends : EndsBefore front) (nonempty : front ≠ []) (c : Char)
    : EndsBefore (c :: front) := by
  cases front with
  | nil => exact absurd rfl nonempty
  | cons d front => exact ends

theorem EndsBefore.append (first : EndsBefore front) (second : EndsBefore back)
    : EndsBefore (front ++ back) := by
  induction back using List.reverseRecOn with
  | nil => rwa [List.append_nil]
  | append_singleton back last _ =>
      unfold EndsBefore at second ⊢
      rw [List.getLast?_concat] at second
      rwa [← List.append_assoc, List.getLast?_concat]

/-- A text that ends before a name does not end with the start of another one. -/
theorem EndsBefore.ne_nil (ends : EndsBefore (c :: front)) (starts : isNameStart c = true)
    : front ≠ [] := by
  rintro rfl
  have ended := ends c rfl
  rw [isWordChar_of_isNameStart starts] at ended
  cases ended

/-- What is left of a text behind the word that it starts with still ends before a name. -/
theorem EndsBefore.dropWhile_append (ends : EndsBefore front) (nonempty : front ≠ [])
    (back : List Char)
    : (front ++ back).dropWhile isWordChar = front.dropWhile isWordChar ++ back
      ∧ EndsBefore (front.dropWhile isWordChar) := by
  induction front with
  | nil => exact absurd rfl nonempty
  | cons c front ih =>
      cases word : isWordChar c with
      | false => simp [word, ends]
      | true =>
          cases front with
          | nil =>
              have ended := ends c rfl
              rw [word] at ended
              cases ended
          | cons d front => simpa [word] using ih ends (List.cons_ne_nil d front)

/-- No name goes on over a character that is in none. By induction on the text in front of it. -/
theorem identifiers_append_cons (apart : isWordChar c = false) (front back : List Char)
    : identifiers (front ++ c :: back) = identifiers front ++ identifiers back := by
  have starts := not_isNameStart_of_not_isWordChar apart
  induction size : front.length using Nat.strongRecOn generalizing front with
  | _ length ih =>
      subst size
      cases front with
      | nil =>
          have none : identifiers [] = [] := by rw [identifiers]
          rw [List.nil_append, none, List.nil_append, identifiers, if_neg (by simp [starts])]
      | cons d front =>
          cases first : isNameStart d with
          | true =>
              have whole : front ++ c :: back
                  = front.takeWhile isWordChar ++ (front.dropWhile isWordChar ++ c :: back) := by
                rw [← List.append_assoc, List.takeWhile_append_dropWhile]
              have word : ∀ e ∈ front.takeWhile isWordChar, isWordChar e = true :=
                fun e member => List.mem_takeWhile_imp member
              have ends : EndsName (front.dropWhile isWordChar ++ c :: back) := by
                cases shape : front.dropWhile isWordChar with
                | nil =>
                    intro e head
                    cases head
                    exact apart
                | cons e behind =>
                    have stops := List.head?_dropWhile_not isWordChar front
                    rw [shape] at stops
                    intro e head
                    cases head
                    simpa using stops
              have later := ih _ (Nat.lt_succ_of_le (length_dropWhile_le isWordChar front))
                (front.dropWhile isWordChar) rfl
              have read : identifiers (d :: front) = (d :: front.takeWhile isWordChar)
                  :: identifiers (front.dropWhile isWordChar) := by
                rw [identifiers, if_pos first]
              rw [read, List.cons_append, identifiers, if_pos first, whole,
                takeWhile_isWordChar word ends, dropWhile_isWordChar word ends, later,
                List.cons_append]
          | false =>
              have later := ih _ (Nat.lt_succ_self front.length) front rfl
              have read : identifiers (d :: front) = identifiers front := by
                rw [identifiers, if_neg (by simp [first])]
              rw [read, List.cons_append, identifiers, if_neg (by simp [first]), later]

/-- Signs that no name starts with are passed over. By induction on these. -/
theorem identifiers_append (passed : ∀ c ∈ front, isNameStart c = false) (back : List Char)
    : identifiers (front ++ back) = identifiers back := by
  induction front with
  | nil => rfl
  | cons c front ih =>
      obtain ⟨here, later⟩ := List.forall_mem_cons.mp passed
      rw [List.cons_append, identifiers, if_neg (by simp [here]), ih later]

theorem identifiers_eq_nil (passed : ∀ c ∈ cs, isNameStart c = false) : identifiers cs = [] := by
  have whole := identifiers_append passed []
  rwa [List.append_nil, identifiers] at whole

theorem identifiers_of_isIdentifier (identifier : isIdentifier name = true)
    : identifiers name = [name] := by
  cases name with
  | nil => cases identifier
  | cons c cs =>
      obtain ⟨starts, word⟩ := Bool.and_eq_true_iff.mp identifier
      have word := List.all_eq_true.mp word
      rw [identifiers, if_pos starts, List.takeWhile_eq_self_iff.mpr word,
        List.dropWhile_eq_nil_iff.mpr word, identifiers]

/-- A name at the end of a text is the last one in it. -/
theorem getLast?_identifiers_append (ends : EndsBefore front)
    (identifier : isIdentifier name = true)
    : (identifiers (front ++ name)).getLast? = some name := by
  rcases List.eq_nil_or_concat front with rfl | ⟨before, last, rfl⟩
  · rw [List.nil_append, identifiers_of_isIdentifier identifier, List.getLast?_singleton]
  · have apart : isWordChar last = false := ends last (by simp)
    rw [List.concat_append, identifiers_append_cons apart,
      identifiers_of_isIdentifier identifier, List.getLast?_concat]

-----------------------------------------------------------------------------------------
-- Searching
-----------------------------------------------------------------------------------------

variable {α : Type} {read : Option Char → List Char → Option α}

theorem find?_of_some {before : Option Char} {found : α} (reads : read before cs = some found)
    : find? read before cs = some ([], found) := by
  cases cs with
  | nil => rw [find?, reads, Option.map_some]
  | cons c cs => rw [find?, reads]

/-- What a search finds stands behind what it skips. -/
theorem exists_append_of_find? {before : Option Char} {skipped : List Char} {found : α}
    (finds : find? read before cs = some (skipped, found))
    : ∃ before rest, cs = skipped ++ rest ∧ read before rest = some found := by
  induction cs generalizing before skipped with
  | nil =>
      obtain ⟨found, reads, same⟩ := Option.map_eq_some_iff.mp finds
      cases same
      exact ⟨before, [], rfl, reads⟩
  | cons c cs ih =>
      rw [find?] at finds
      split at finds
      · rename_i reads
        cases finds
        exact ⟨before, c :: cs, rfl, reads⟩
      · obtain ⟨later, more, same⟩ := Option.map_eq_some_iff.mp finds
        cases same
        obtain ⟨before, rest, rfl, reads⟩ := ih more
        exact ⟨before, rest, rfl, reads⟩

theorem getLast?_cons_or (c : Char) (front : List Char) (before : Option Char)
    : (c :: front).getLast?.or before = front.getLast?.or (some c) := by
  rw [List.getLast?_cons]
  cases front.getLast? <;> rfl

/-- A search gets past a text in front in which nothing can be read. By induction on that text. -/
theorem find?_append {before : Option Char}
    (passed : ∀ first c later, front = first ++ c :: later
      → read (first.getLast?.or before) (c :: later ++ back) = none)
    : find? read before (front ++ back) =
        (find? read (front.getLast?.or before) back).map fun (skipped, found) =>
          (front ++ skipped, found) := by
  induction front generalizing before with
  | nil => simp
  | cons c front ih =>
      have here : read before (c :: front ++ back) = none := passed [] c front rfl
      rw [List.cons_append, find?, ← List.cons_append, here, getLast?_cons_or]
      dsimp only
      rw [ih, Option.map_map]
      · rfl
      · intro first d later shape
        rw [← getLast?_cons_or c first before]
        exact passed (c :: first) d later (by rw [shape, List.cons_append])

/-- A search finds nothing exactly if nothing can be read at any place. By induction on the text. -/
theorem find?_eq_none_iff {before : Option Char}
    : find? read before cs = none
      ↔ ∀ first later, cs = first ++ later → read (first.getLast?.or before) later = none := by
  constructor
  · intro missing first later shape
    subst shape
    induction first generalizing before with
    | nil =>
        cases here : read before later with
        | none => exact here
        | some found =>
            rw [List.nil_append, find?_of_some here] at missing
            cases missing
    | cons c first ih =>
        rw [getLast?_cons_or]
        rw [List.cons_append, find?] at missing
        split at missing
        · cases missing
        · exact ih (Option.map_eq_none_iff.mp missing)
  · intro passed
    have ended : read (cs.getLast?.or before) [] = none := passed cs [] (List.append_nil cs).symm
    rw [← List.append_nil cs, find?_append, find?, ended]
    · rfl
    · intro first c later shape
      rw [List.append_nil]
      exact passed first (c :: later) shape

theorem contains_of_isInfix {part : List Char} (inside : part <:+: cs)
    : contains part cs = true := by
  obtain ⟨front, back, shape⟩ := inside
  rw [contains, ← Option.ne_none_iff_isSome]
  intro missing
  have absent :=
    find?_eq_none_iff.mp missing front (part ++ back) (by rw [← shape, List.append_assoc])
  rw [strip?_append] at absent
  cases absent

/-- What a search finds is read behind what it skips, and at no place before that. By induction on
the text.
-/
theorem find?_eq_some_iff {before : Option Char} {skipped : List Char} {found : α}
    : find? read before cs = some (skipped, found)
      ↔ ∃ rest,
          cs = skipped ++ rest
          ∧ read (skipped.getLast?.or before) rest = some found
          ∧ ∀ first c later, skipped = first ++ c :: later
            → read (first.getLast?.or before) (c :: later ++ rest) = none := by
  constructor
  · intro finds
    induction cs generalizing before skipped with
    | nil =>
        obtain ⟨found, reads, same⟩ := Option.map_eq_some_iff.mp finds
        cases same
        exact ⟨[], rfl, reads, by simp⟩
    | cons c cs ih =>
        rw [find?] at finds
        split at finds
        · rename_i reads
          cases finds
          exact ⟨c :: cs, rfl, reads, by simp⟩
        · rename_i missing
          obtain ⟨⟨skipped, found⟩, more, same⟩ := Option.map_eq_some_iff.mp finds
          cases same
          obtain ⟨rest, rfl, reads, passed⟩ := ih more
          refine ⟨rest, rfl, by rwa [getLast?_cons_or], fun first d later shape => ?_⟩
          cases first with
          | nil =>
              obtain ⟨rfl, rfl⟩ := List.cons.inj shape
              exact missing
          | cons e first =>
              obtain ⟨rfl, same⟩ := List.cons.inj shape
              rw [getLast?_cons_or]
              exact passed first d later same
  · rintro ⟨rest, rfl, reads, passed⟩
    rw [find?_append passed, find?_of_some reads]
    simp

end ApiBindings.Text
