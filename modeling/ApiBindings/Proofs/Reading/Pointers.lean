import ApiBindings.Code.TypeItem
import ApiBindings.Proofs.Code.Spelling
import ApiBindings.Proofs.Code.Typedefs

/-! The names of pointers to functions.
The generator takes a calling convention in front of the star, the reader of headers does not. Then
it looks for a pointer among the parameters, and takes the last name of a definition if there is
none.
-/

namespace ApiBindings

namespace Text

variable {depth : Nat} {cs : List Char}

-----------------------------------------------------------------------------------------
-- Layout
-----------------------------------------------------------------------------------------

/-- Blanks behind a word, collapsed in front of another one. -/
def squeeze (gap : List Char) : List Char :=
  if gap.isEmpty then [] else [' ']

theorem isBlank_squeeze (gap : List Char) : ∀ c ∈ squeeze gap, isBlank c = true := by
  unfold squeeze
  split <;> decide

theorem collapseBefore_of_blank (blank : ∀ c ∈ cs, isBlank c = true) : collapseBefore cs = [] := by
  induction cs with
  | nil => rfl
  | cons c cs ih =>
      obtain ⟨here, later⟩ := List.forall_mem_cons.mp blank
      rw [collapseBefore_cons_of_blank here, ih later]

/-- A word keeps one of the blanks behind it. By induction on the word. -/
theorem collapseBefore_word_append {word gap : List Char} (nonempty : word ≠ [])
    (solid : ∀ c ∈ word, isBlank c = false) (blank : ∀ c ∈ gap, isBlank c = true)
    : collapseBefore (word ++ gap) = word ++ squeeze gap := by
  induction word with
  | nil => exact absurd rfl nonempty
  | cons c word ih =>
      obtain ⟨here, later⟩ := List.forall_mem_cons.mp solid
      cases word with
      | nil =>
          cases gap with
          | nil => exact collapseBefore_singleton here
          | cons d gap =>
              have first := blank d List.mem_cons_self
              rw [List.singleton_append, collapseBefore_cons_cons_of_blank here first,
                collapseBefore_of_blank blank]
              rfl
      | cons d word =>
          have starts : StartsWord (d :: word ++ gap) :=
            ⟨d, word ++ gap, rfl, later d List.mem_cons_self⟩
          rw [List.cons_append, collapseBefore_cons_of_startsWord here starts,
            ih (List.cons_ne_nil d word) later]
          rfl

theorem depthBehind_of_isBlank {c : Char} (blank : isBlank c = true) : depthBehind depth c = depth := by
  refine depthBehind_of_plain fun bracket => ?_
  have solid : ∀ sign ∈ "()[]".toList, isBlank sign = false := by decide
  rw [solid c bracket] at blank
  cases blank

/-- Blanks open and close nothing. By induction on the layout. -/
theorem depthAfter_collapseBefore (depth : Nat) (cs : List Char)
    : depthAfter depth (collapseBefore cs) = depthAfter depth cs := by
  induction cs using layout_induction generalizing depth with
  | nil => rfl
  | blank c rest first ih =>
      rw [collapseBefore_cons_of_blank first, ih, depthAfter, depthAfter, List.foldl_cons,
        depthBehind_of_isBlank first]
  | last c first => rw [collapseBefore_singleton first]
  | gap c d rest first second ih =>
      rw [collapseBefore_cons_cons_of_blank first second, depthAfter, List.foldl_cons,
        List.foldl_cons, depthBehind_of_isBlank isBlank_space]
      exact ih _
  | word c rest first word ih =>
      rw [collapseBefore_cons_of_startsWord first word, depthAfter, List.foldl_cons]
      exact ih _

/-- Blanks separate nothing. By induction on the layout. -/
theorem IsUncut.collapseBefore {separator : Char} (uncut : IsUncut separator depth cs)
    (solid : isBlank separator = false)
    : IsUncut separator depth (collapseBefore cs) := by
  induction cs using layout_induction generalizing depth with
  | nil => exact uncut
  | blank c rest first ih =>
      obtain ⟨-, later⟩ := isUncut_cons_iff.mp uncut
      rw [depthBehind_of_isBlank first] at later
      rw [collapseBefore_cons_of_blank first]
      exact ih later
  | last c first =>
      rw [collapseBefore_singleton first]
      exact uncut
  | gap c d rest first second ih =>
      obtain ⟨keeps, later⟩ := isUncut_cons_iff.mp uncut
      rw [collapseBefore_cons_cons_of_blank first second, isUncut_cons_iff, isUncut_cons_iff,
        depthBehind_of_isBlank isBlank_space]
      refine ⟨keeps, ?_, ih later⟩
      rintro ⟨rfl, -⟩
      cases solid
  | word c rest first word ih =>
      obtain ⟨keeps, later⟩ := isUncut_cons_iff.mp uncut
      rw [collapseBefore_cons_of_startsWord first word]
      exact isUncut_cons_iff.mpr ⟨keeps, ih later⟩

/-- A search that does not look in front of a place finds the same whatever is there. -/
theorem find?_before {α : Type} (read : List Char → Option α) (before before' : Option Char)
    (cs : List Char)
    : find? (fun _ rest => read rest) before cs = find? (fun _ rest => read rest) before' cs := by
  cases cs <;> rfl

theorem getLast?_dropWhile {skips : Char → Bool} {last : Char} (kept : skips last = false)
    (ends : cs.getLast? = some last)
    : (cs.dropWhile skips).getLast? = some last := by
  obtain ⟨front, rfl⟩ := List.getLast?_eq_some_iff.mp ends
  rw [List.dropWhile_append]
  split
  · rw [List.dropWhile_cons_of_neg (by simp [kept])]
    rfl
  · exact List.getLast?_concat

end Text

namespace Header

open ApiBindings.Text

-----------------------------------------------------------------------------------------
-- Pointers
-----------------------------------------------------------------------------------------

/-- What stands in front of the star of a pointer in parentheses, with a calling convention or
without one.
-/
inductive Opens : Bool → List Char → Prop where
  | plain {gap : List Char} (blank : ∀ c ∈ gap, isBlank c = true) : Opens false ('(' :: gap)
  | called {gap convention parting : List Char} (blank : ∀ c ∈ gap ++ parting, isBlank c = true)
    (parted : parting ≠ []) (identifier : isIdentifier convention = true)
    : Opens true ('(' :: (gap ++ (convention ++ parting)))

/-- A named pointer in parentheses, as in `(*name)` or `(CALLBACK *name)`, with blanks wherever they
may stand.
-/
inductive PointsTo (name : List Char) (called : Bool) : List Char → Prop where
  | intro {opening between behind : List Char} (opens : Opens called opening)
    (blank : ∀ c ∈ between ++ behind, isBlank c = true)
    : PointsTo name called (opening ++ '*' :: (between ++ (name ++ (behind ++ [')']))))

section

variable {called : Bool} {opening name pointer : List Char}

theorem Opens.exists_cons (opens : Opens called opening)
    : ∃ inner, opening = '(' :: inner ∧ ∀ c ∈ inner, isBlank c = true ∨ isWordChar c = true := by
  cases opens with
  | plain blank => exact ⟨_, rfl, fun c member => .inl (blank c member)⟩
  | @called gap convention parting blank parted identifier =>
      obtain ⟨front, later⟩ := List.forall_mem_append.mp blank
      refine ⟨_, rfl, fun c member => ?_⟩
      rcases List.mem_append.mp member with member | member
      · exact .inl (front c member)
      rcases List.mem_append.mp member with member | member
      · exact .inr (isWordChar_of_isIdentifier identifier c member)
      · exact .inl (later c member)

theorem startsWord_star (cs : List Char) : StartsWord ('*' :: cs) :=
  ⟨'*', cs, rfl, by decide⟩

theorem starredName?_of_isIdentifier {convention : List Char}
    (identifier : isIdentifier convention = true) (back : List Char)
    : Declarator.starredName? (convention ++ back) = none := by
  have absent : '*' ∉ convention := not_mem_of_isIdentifier identifier (by decide)
  cases convention with
  | nil => cases identifier
  | cons c convention =>
      have other : '*' ≠ c := fun same => absent (same ▸ List.mem_cons_self)
      rw [Declarator.starredName?, List.cons_append, strip?_cons_of_ne other]
      rfl

/-- The generator takes what is in front of a star with a calling convention or without one. -/
theorem Opens.pointerName? (opens : Opens called opening) (cs : List Char)
    : Code.pointerName? (opening ++ '*' :: cs) = Declarator.starredName? ('*' :: cs) := by
  cases opens with
  | @plain gap blank =>
      have trimmed := trimStart_blanks_append blank (startsWord_star cs)
      have noWord : Code.afterWord? ('*' :: cs) = none := rfl
      simp [Code.pointerName?, strip?, trimmed, noWord]
  | @called gap convention parting blank parted identifier =>
      obtain ⟨front, later⟩ := List.forall_mem_append.mp blank
      obtain ⟨c, parting, rfl⟩ := List.exists_cons_of_ne_nil parted
      have first := later c List.mem_cons_self
      have starts := (startsWord_of_isIdentifier identifier).append (c :: (parting ++ '*' :: cs))
      have trimmed := trimStart_blanks_append front starts
      have ends : EndsName (c :: (parting ++ '*' :: cs)) := by
        intro d head
        cases head
        exact not_isWordChar_of_isBlank first
      have behind : trimStart (c :: (parting ++ '*' :: cs)) = '*' :: cs :=
        trimStart_blanks_append later (startsWord_star cs)
      have word
          : Code.afterWord? (convention ++ c :: (parting ++ '*' :: cs)) = some ('*' :: cs) := by
        simp [Code.afterWord?, identifier?_append identifier ends, first, behind]
      have missing := starredName?_of_isIdentifier identifier (c :: (parting ++ '*' :: cs))
      have shape : gap ++ (convention ++ c :: parting) ++ '*' :: cs =
          gap ++ (convention ++ c :: (parting ++ '*' :: cs)) := by
        simp
      rw [Code.pointerName?, List.cons_append, shape]
      simp [strip?, trimmed, missing, word]

/-- The reader of headers does not take a calling convention. -/
theorem Opens.functionPointer? (opens : Opens called opening) (cs : List Char)
    : Header.functionPointer? (opening ++ '*' :: cs) =
        if called then none else Declarator.starredName? ('*' :: cs) := by
  cases opens with
  | @plain gap blank =>
      simp [Header.functionPointer?, strip?, trimStart_blanks_append blank (startsWord_star cs)]
  | @called gap convention parting blank parted identifier =>
      obtain ⟨front, -⟩ := List.forall_mem_append.mp blank
      have starts := (startsWord_of_isIdentifier identifier).append (parting ++ '*' :: cs)
      have shape : gap ++ (convention ++ parting) ++ '*' :: cs =
          gap ++ (convention ++ (parting ++ '*' :: cs)) := by
        simp
      rw [Header.functionPointer?, List.cons_append, shape]
      simp [strip?, trimStart_blanks_append front starts, starredName?_of_isIdentifier identifier]

/-- The layout of what is in front of a star does not matter. -/
theorem Opens.collapseBefore (opens : Opens called opening)
    : Opens called (Text.collapseBefore opening) := by
  have paren : ∀ c ∈ ['('], isBlank c = false := by decide
  cases opens with
  | @plain gap blank =>
      rw [← List.singleton_append, collapseBefore_word_append (List.cons_ne_nil _ _) paren blank]
      exact .plain (isBlank_squeeze gap)
  | @called gap convention parting blank parted identifier =>
      obtain ⟨front, later⟩ := List.forall_mem_append.mp blank
      have starts := (startsWord_of_isIdentifier identifier).append parting
      rw [← List.singleton_append, ← List.append_assoc, collapseBefore_append starts,
        collapseBefore_word_append (List.cons_ne_nil _ _) paren front,
        collapseBefore_word_append (ne_nil_of_isIdentifier identifier)
          (isBlank_of_isIdentifier identifier) later, List.append_assoc]
      have kept : squeeze parting ≠ [] := by simpa [squeeze] using parted
      have blank : ∀ c ∈ squeeze gap ++ squeeze parting, isBlank c = true :=
        List.forall_mem_append.mpr ⟨isBlank_squeeze gap, isBlank_squeeze parting⟩
      exact @Opens.called (squeeze gap) convention _ blank kept identifier

namespace PointsTo

theorem exists_cons (points : PointsTo name called pointer) (identifier : isIdentifier name = true)
    : ∃ inner,
        pointer = '(' :: (inner ++ [')'])
        ∧ ∀ c ∈ inner, isBlank c = true ∨ isWordChar c = true ∨ c = '*' := by
  cases points with
  | @intro opening between behind opens blank =>
      obtain ⟨inner, rfl, chars⟩ := opens.exists_cons
      obtain ⟨front, later⟩ := List.forall_mem_append.mp blank
      refine ⟨inner ++ '*' :: (between ++ (name ++ behind)), by simp, fun c member => ?_⟩
      rcases List.mem_append.mp member with member | member
      · exact (chars c member).imp_right .inl
      rcases List.mem_cons.mp member with star | member
      · exact .inr (.inr star)
      rcases List.mem_append.mp member with member | member
      · exact .inl (front c member)
      rcases List.mem_append.mp member with member | member
      · exact .inr (.inl (isWordChar_of_isIdentifier identifier c member))
      · exact .inl (later c member)

theorem not_mem (points : PointsTo name called pointer) (identifier : isIdentifier name = true)
    {sign : Char} (word : isWordChar sign = false) (blank : isBlank sign = false)
    (other : sign ∉ "*()".toList)
    : sign ∉ pointer := by
  obtain ⟨inner, rfl, chars⟩ := points.exists_cons identifier
  intro member
  rcases List.mem_cons.mp member with rfl | member
  · exact other (by decide)
  rcases List.mem_append.mp member with member | member
  · rcases chars sign member with is | is | rfl
    · rw [blank] at is
      cases is
    · rw [word] at is
      cases is
    · exact other (by decide)
  · obtain rfl := List.mem_singleton.mp member
    exact other (by decide)

/-- The generator reads the name of a pointer with a calling convention or without one. -/
theorem pointerName? (points : PointsTo name called pointer) (identifier : isIdentifier name = true)
    (back : List Char)
    : Code.pointerName? (pointer ++ back) = some (name, back) := by
  cases points with
  | @intro opening between behind opens blank =>
      have starred := starredName?_of_blanks identifier blank back
      have shape : opening ++ '*' :: (between ++ (name ++ (behind ++ [')']))) ++ back =
          opening ++ '*' :: (between ++ (name ++ (behind ++ ')' :: back))) := by
        simp
      rw [shape, opens.pointerName?, starred]

/-- The reader of headers only reads the name of a pointer without a calling convention. -/
theorem functionPointer? (points : PointsTo name called pointer)
    (identifier : isIdentifier name = true) (back : List Char)
    : Header.functionPointer? (pointer ++ back) = if called then none else some (name, back) := by
  cases points with
  | @intro opening between behind opens blank =>
      have starred := starredName?_of_blanks identifier blank back
      have shape : opening ++ '*' :: (between ++ (name ++ (behind ++ [')']))) ++ back =
          opening ++ '*' :: (between ++ (name ++ (behind ++ ')' :: back))) := by
        simp
      rw [shape, opens.functionPointer?, starred]

/-- The last name of a pointer is the one that it has. -/
theorem getLast?_identifiers (points : PointsTo name called pointer)
    (identifier : isIdentifier name = true)
    : (identifiers pointer).getLast? = some name := by
  cases points with
  | @intro opening between behind opens blank =>
      obtain ⟨front, later⟩ := List.forall_mem_append.mp blank
      have star : EndsBefore (opening ++ ['*']) := by
        intro c last
        rw [List.getLast?_concat] at last
        cases last
        decide
      have gap : EndsBefore between := fun c last =>
        not_isWordChar_of_isBlank (front c (List.mem_of_getLast? last))
      have ends : EndsBefore (opening ++ '*' :: between) := by
        have both := star.append gap
        rwa [List.append_assoc] at both
      have closing : ∀ c ∈ behind ++ [')'], isWordChar c = false :=
        List.forall_mem_append.mpr
          ⟨fun c member => not_isWordChar_of_isBlank (later c member), by decide⟩
      obtain ⟨c, rest, shape⟩ := List.exists_cons_of_ne_nil (l := behind ++ [')']) (by simp)
      rw [shape] at closing ⊢
      obtain ⟨here, closing⟩ := List.forall_mem_cons.mp closing
      have whole : opening ++ '*' :: (between ++ (name ++ c :: rest)) =
          opening ++ '*' :: between ++ name ++ c :: rest := by
        simp
      have unnamed : ∀ d ∈ rest, isNameStart d = false := fun d member =>
        not_isNameStart_of_not_isWordChar (closing d member)
      rw [whole, identifiers_append_cons here, identifiers_eq_nil unnamed, List.append_nil,
        getLast?_identifiers_append ends identifier]

/-- The layout of a pointer does not matter. -/
theorem collapse (points : PointsTo name called pointer) (identifier : isIdentifier name = true)
    : PointsTo name called (Text.collapse pointer) := by
  cases points with
  | @intro opening between behind opens blank =>
      obtain ⟨front, later⟩ := List.forall_mem_append.mp blank
      have star : ∀ c ∈ ['*'], isBlank c = false := by decide
      have named := startsWord_of_isIdentifier identifier
      have closing : StartsWord [')'] := ⟨')', [], rfl, by decide⟩
      rw [collapse_append (startsWord_star _), ← List.singleton_append, ← List.append_assoc ['*'],
        collapse_append (named.append _), ← List.append_assoc name, collapse_append closing,
        collapseBefore_word_append (List.cons_ne_nil _ _) star front,
        collapseBefore_word_append named.ne_nil (isBlank_of_isIdentifier identifier) later,
        collapse_singleton (by decide), List.append_assoc, List.append_assoc]
      exact .intro opens.collapseBefore
        (List.forall_mem_append.mpr ⟨isBlank_squeeze between, isBlank_squeeze behind⟩)

end PointsTo

-----------------------------------------------------------------------------------------
-- Names
-----------------------------------------------------------------------------------------

variable {front later : List Char}

/-- A search goes past a pointer with a calling convention. -/
theorem PointsTo.findFunctionPointer? (points : PointsTo name called pointer)
    (identifier : isIdentifier name = true) (absent : '(' ∉ front) (back : List Char)
    : Header.findFunctionPointer? (front ++ (pointer ++ back)) =
        if called then
          (Header.findFunctionPointer? back).map fun found => (front ++ (pointer ++ found.1), found.2)
        else
          some (front, name, back) := by
  have passed {first later : List Char} {c : Char} (shape : front = first ++ c :: later)
      (rest : List Char)
      : Header.functionPointer? (c :: rest) = none := by
    refine functionPointer?_cons_of_ne (fun same => absent ?_) rest
    rw [shape, same]
    exact List.mem_append_right _ List.mem_cons_self
  have here := points.functionPointer? identifier back
  rw [Header.findFunctionPointer?, find?_append fun first c later shape => passed shape _]
  cases called with
  | false =>
      rw [find?_of_some here]
      simp
  | true =>
      obtain ⟨inner, rfl, chars⟩ := points.exists_cons identifier
      have alone : '(' ∉ inner ++ [')'] := by
        intro member
        rcases List.mem_append.mp member with member | member
        · rcases chars _ member with blank | word | star
          · cases blank
          · cases word
          · cases star
        · exact absurd member (by decide)
      rw [find?_append, find?_before Header.functionPointer? _ none, Option.map_map,
        ← Header.findFunctionPointer?, if_pos rfl]
      · rfl
      · intro first c later shape
        cases first with
        | nil =>
            obtain ⟨rfl, rfl⟩ := List.cons.inj shape
            exact here
        | cons d first =>
            obtain ⟨rfl, same⟩ := List.cons.inj shape
            refine functionPointer?_cons_of_ne (fun opening => alone ?_) _
            rw [same, opening]
            exact List.mem_append_right _ List.mem_cons_self

/-- A definition of a pointer introduces its name. With a calling convention it introduces the name
that stands behind it, if there is any.
-/
theorem PointsTo.definedName? (points : PointsTo name called pointer)
    (identifier : isIdentifier name = true) (parenthesis : '(' ∉ front) (bracket : '[' ∉ front)
    (later : List Char)
    : Header.definedName? (front ++ (pointer ++ '(' :: later)) =
        if called then
          (Header.definedName? ('(' :: later)).or (some (String.ofList name))
        else
          some (String.ofList name) := by
  have found := points.findFunctionPointer? identifier parenthesis ('(' :: later)
  rw [Header.definedName?, found]
  cases called with
  | false => rfl
  | true =>
      rw [if_pos rfl, if_pos rfl, Header.definedName?]
      cases Header.findFunctionPointer? ('(' :: later) with
      | some found => rfl
      | none =>
          have closed : '[' ∉ pointer :=
            points.not_mem identifier (by decide) (by decide) (by decide)
          have passed : (front ++ (pointer ++ '(' :: later)).takeWhile (· != '[') =
              front ++ pointer ++ '(' :: later.takeWhile (· != '[') := by
            rw [List.takeWhile_append_of_pos (bne_of_not_mem bracket),
              List.takeWhile_append_of_pos (bne_of_not_mem closed),
              List.takeWhile_cons_of_pos (by decide), List.append_assoc]
          have behind : identifiers ('(' :: later.takeWhile (· != '[')) =
              identifiers (later.takeWhile (· != '[')) := by
            have cut := identifiers_append_cons (c := '(') (by decide) []
              (later.takeWhile (· != '['))
            rwa [List.nil_append, identifiers, List.nil_append] at cut
          have last : (identifiers (front ++ pointer)).getLast? = some name := by
            have named := points.getLast?_identifiers identifier
            obtain ⟨inner, rfl, -⟩ := points.exists_cons identifier
            have cut := identifiers_append_cons (c := '(') (by decide) [] (inner ++ [')'])
            rw [List.nil_append, identifiers, List.nil_append] at cut
            rw [identifiers_append_cons (by decide), List.getLast?_append, ← cut, named]
            rfl
          dsimp only
          rw [passed, List.takeWhile_cons_of_pos (by decide), lastName?, lastName?, behind,
            identifiers_append_cons (by decide), List.getLast?_append, last, Option.map_or]
          rfl

end

end Header

end ApiBindings
