import ApiBindings.Proofs.Text.Layout
import ApiBindings.Proofs.Text.Search
import Mathlib.Data.List.DropRight
import Mathlib.Data.List.Forall2
import Mathlib.Data.Option.Basic

/-! One more space where a text has a gap already.
A space next to a blank or at the end of a text parts nothing that was not parted before. Whatever
reads a text from the front meets the space as a part of that gap and goes on with the same
characters.
-/

namespace ApiBindings.Text

/-- The second text is the first one with one more space, next to a blank or at the end. -/
inductive Respaced : List Char → List Char → Prop
  | last : Respaced [] [' ']
  | before {c : Char} {cs : List Char} (blank : isBlank c = true)
    : Respaced (c :: cs) (' ' :: c :: cs)
  | behind {c : Char} {cs : List Char} (blank : isBlank c = true)
    : Respaced (c :: cs) (c :: ' ' :: cs)
  | cons {cs ds : List Char} (c : Char) (later : Respaced cs ds) : Respaced (c :: cs) (c :: ds)

/-- The second text is the first one, perhaps with one more space in a gap. -/
def Loosened (cs ds : List Char) : Prop :=
  cs = ds ∨ Respaced cs ds

/-- The second text is the first one, perhaps with one more space in a gap or at the front. -/
def Spaced (cs ds : List Char) : Prop :=
  ds = ' ' :: cs ∨ Loosened cs ds

/-- Two lines that differ in a gap at most, apart from the blanks at their ends. -/
def SameLine (cs ds : List Char) : Prop :=
  Loosened (trim cs) (trim ds)

variable {cs ds : List Char} {c : Char}

theorem isBlank_space : isBlank ' ' = true := by decide

theorem Loosened.refl (cs : List Char) : Loosened cs cs :=
  .inl rfl

theorem Loosened.cons (loosened : Loosened cs ds) (c : Char) : Loosened (c :: cs) (c :: ds) := by
  rcases loosened with rfl | respaced
  · exact .inl rfl
  · exact .inr (.cons c respaced)

theorem Loosened.append (loosened : Loosened cs ds) (front : List Char)
    : Loosened (front ++ cs) (front ++ ds) := by
  induction front with
  | nil => exact loosened
  | cons c front ih => exact ih.cons c

/-- A space is put in next to a blank or at the end of a text. -/
theorem Respaced.exists_split (respaced : Respaced cs ds)
    : ∃ front back, cs = front ++ back ∧ ds = front ++ ' ' :: back
        ∧ (back = [] ∨ (∃ c rest, back = c :: rest ∧ isBlank c = true)
          ∨ ∃ rest c, front = rest ++ [c] ∧ isBlank c = true) := by
  induction respaced with
  | last => exact ⟨[], [], rfl, rfl, .inl rfl⟩
  | before blank => exact ⟨[], _, rfl, rfl, .inr (.inl ⟨_, _, rfl, blank⟩)⟩
  | @behind c cs blank => exact ⟨[c], cs, rfl, rfl, .inr (.inr ⟨[], c, rfl, blank⟩)⟩
  | cons c later ih =>
      obtain ⟨front, back, rfl, rfl, gap⟩ := ih
      refine ⟨c :: front, back, rfl, rfl, ?_⟩
      rcases gap with none | starts | ⟨rest, d, rfl, blank⟩
      · exact .inl none
      · exact .inr (.inl starts)
      · exact .inr (.inr ⟨c :: rest, d, rfl, blank⟩)

theorem Respaced.mem_iff (respaced : Respaced cs ds) (word : isBlank c = false)
    : c ∈ ds ↔ c ∈ cs := by
  have other : c ≠ ' ' := by
    rintro rfl
    cases isBlank_space.symm.trans word
  obtain ⟨front, back, rfl, rfl, -⟩ := respaced.exists_split
  simp [other]

theorem Respaced.all_isBlank (respaced : Respaced cs ds) : ds.all isBlank = cs.all isBlank := by
  obtain ⟨front, back, rfl, rfl, -⟩ := respaced.exists_split
  simp [isBlank_space]

theorem Respaced.breaks_eq (respaced : Respaced cs ds) : breaks ds = breaks cs := by
  obtain ⟨front, back, rfl, rfl, -⟩ := respaced.exists_split
  simp [breaks]

-----------------------------------------------------------------------------------------
-- Trimming
-----------------------------------------------------------------------------------------

theorem Respaced.trimStart (respaced : Respaced cs ds) : Loosened (trimStart cs) (trimStart ds) := by
  induction respaced with
  | last => exact .inl rfl
  | before blank =>
      rw [trimStart_cons_of_blank isBlank_space]
      exact .refl _
  | behind blank =>
      rw [trimStart_cons_of_blank blank, trimStart_cons_of_blank blank,
        trimStart_cons_of_blank isBlank_space]
      exact .refl _
  | cons c later ih =>
      cases first : isBlank c with
      | true =>
          rw [trimStart_cons_of_blank first, trimStart_cons_of_blank first]
          exact ih
      | false =>
          rw [trimStart_cons first, trimStart_cons first]
          exact .inr (.cons c later)

theorem Loosened.trimStart (loosened : Loosened cs ds) : Loosened (trimStart cs) (trimStart ds) := by
  rcases loosened with rfl | respaced
  · exact .refl _
  · exact respaced.trimStart

/-- A text is trimmed from the back up to its last character that is not blank. -/
theorem trimEnd_cons (c : Char) (cs : List Char)
    : trimEnd (c :: cs) = if (c :: cs).all isBlank then [] else c :: trimEnd cs := by
  induction cs using List.reverseRecOn with
  | nil => cases blank : isBlank c <;> simp [trimEnd, blank]
  | append_singleton cs last ih =>
      rw [← List.cons_append]
      cases blank : isBlank last with
      | true =>
          rw [trimEnd_concat_of_blank blank, trimEnd_concat_of_blank blank, ih]
          simp [blank]
      | false =>
          rw [trimEnd_concat blank, trimEnd_concat blank]
          simp [blank]

theorem trimEnd_eq_nil (blank : cs.all isBlank = true) : trimEnd cs = [] := by
  cases cs with
  | nil => rfl
  | cons c cs => rw [trimEnd_cons, if_pos blank]

theorem Respaced.trimEnd (respaced : Respaced cs ds) : Loosened (trimEnd cs) (trimEnd ds) := by
  induction respaced with
  | last => exact .inl rfl
  | @before c cs blank =>
      cases rest : (c :: cs).all isBlank with
      | true =>
          rw [trimEnd_eq_nil rest, trimEnd_eq_nil (by simpa [isBlank_space] using rest)]
          exact .refl _
      | false =>
          rw [trimEnd_cons ' ', if_neg (by simpa [isBlank_space] using rest), trimEnd_cons,
            if_neg (by simp [rest])]
          exact .inr (.before blank)
  | @behind c cs blank =>
      cases rest : cs.all isBlank with
      | true =>
          rw [trimEnd_eq_nil (by simp [blank, rest]),
            trimEnd_eq_nil (by simp [isBlank_space, blank, rest])]
          exact .refl _
      | false =>
          rw [trimEnd_cons, if_neg (by simp [rest]), trimEnd_cons, if_neg (by simp [rest]),
            trimEnd_cons, if_neg (by simp [rest])]
          exact .inr (.behind blank)
  | @cons cs ds c later ih =>
      have same : (c :: ds).all isBlank = (c :: cs).all isBlank := by
        rw [List.all_cons, later.all_isBlank, List.all_cons]
      rw [trimEnd_cons, trimEnd_cons, same]
      split
      · exact .refl _
      · exact ih.cons c

theorem Loosened.trimEnd (loosened : Loosened cs ds) : Loosened (trimEnd cs) (trimEnd ds) := by
  rcases loosened with rfl | respaced
  · exact .refl _
  · exact respaced.trimEnd

theorem Loosened.sameLine (loosened : Loosened cs ds) : SameLine cs ds :=
  loosened.trimStart.trimEnd

theorem Spaced.sameLine (spaced : Spaced cs ds) : SameLine cs ds := by
  rcases spaced with rfl | loosened
  · rw [SameLine, trim, trim, trimStart_cons_of_blank isBlank_space]
    exact .refl _
  · exact loosened.sameLine

theorem trimEnd_trim (cs : List Char) : Text.trimEnd (trim cs) = trim cs := by
  rw [trim, Text.trimEnd, Text.trimEnd, List.reverse_reverse, List.dropWhile_idempotent]

theorem trim_eq_nil (blank : cs.all isBlank = true) : trim cs = [] := by
  have nothing : trimStart cs = [] := List.dropWhile_eq_nil_iff.mpr (List.all_eq_true.mp blank)
  rw [trim, nothing]
  rfl

-----------------------------------------------------------------------------------------
-- Parts of a text
-----------------------------------------------------------------------------------------

/-- What is read in two steps is related if each step relates what it is given. -/
theorem rel_bind {α β γ δ : Type} {r : α → β → Prop} {s : γ → δ → Prop} {one : Option α}
    {other : Option β} (first : Option.Rel r one other) {read : α → Option γ} {read' : β → Option δ}
    (second : ∀ a b, r a b → Option.Rel s (read a) (read' b))
    : Option.Rel s (one.bind read) (other.bind read') := by
  cases first with
  | none => exact .none
  | some related => exact second _ _ related

/-- A fixed text without blanks ends before the space or is in neither text. -/
theorem Respaced.strip? {word : List Char} (solid : ∀ c ∈ word, isBlank c = false)
    (respaced : Respaced cs ds)
    : Option.Rel Respaced (strip? word cs) (strip? word ds) := by
  induction word generalizing cs ds with
  | nil => exact .some respaced
  | cons d word ih =>
      obtain ⟨first, solid⟩ := List.forall_mem_cons.mp solid
      have differs {c : Char} (blank : isBlank c = true) : d ≠ c := by
        rintro rfl
        rw [blank] at first
        cases first
      cases respaced with
      | last =>
          rw [strip?_cons_of_ne (differs isBlank_space)]
          exact .none
      | before blank =>
          rw [strip?_cons_of_ne (differs blank), strip?_cons_of_ne (differs isBlank_space)]
          exact .none
      | behind blank =>
          rw [strip?_cons_of_ne (differs blank), strip?_cons_of_ne (differs blank)]
          exact .none
      | cons c later =>
          simp only [Text.strip?]
          split
          · exact ih solid later
          · exact .none

theorem Loosened.strip? {word : List Char} (solid : ∀ c ∈ word, isBlank c = false)
    (loosened : Loosened cs ds)
    : Option.Rel Loosened (strip? word cs) (strip? word ds) := by
  rcases loosened with rfl | respaced
  · cases Text.strip? word cs with
    | none => exact .none
    | some rest => exact .some (.refl rest)
  · have rest := respaced.strip? solid
    generalize Text.strip? word cs = one, Text.strip? word ds = other at rest
    cases rest with
    | none => exact .none
    | some respaced => exact .some (.inr respaced)

/-- A run of characters that are no blanks ends before the space. -/
theorem Respaced.run {part : Char → Bool} (solid : ∀ c, part c = true → isBlank c = false)
    (respaced : Respaced cs ds)
    : ds.takeWhile part = cs.takeWhile part
      ∧ Respaced (cs.dropWhile part) (ds.dropWhile part) := by
  have stops {c : Char} (blank : isBlank c = true) : part c = false := by
    cases inside : part c with
    | false => rfl
    | true => cases blank.symm.trans (solid c inside)
  induction respaced with
  | last => simpa [stops isBlank_space] using Respaced.last
  | before blank => simpa [stops isBlank_space, stops blank] using Respaced.before blank
  | behind blank => simpa [stops blank] using Respaced.behind blank
  | cons c later ih =>
      cases inside : part c with
      | false => simpa [inside] using Respaced.cons c later
      | true => simpa [inside] using ih

/-- The space is in a run that goes on at spaces, or behind it. -/
theorem Respaced.split {part : Char → Bool} (goesOn : part ' ' = true)
    (respaced : Respaced cs ds)
    : Loosened (cs.takeWhile part) (ds.takeWhile part)
      ∧ Loosened (cs.dropWhile part) (ds.dropWhile part) := by
  induction respaced with
  | last => simpa [goesOn] using ⟨.inr .last, .refl _⟩
  | @before c cs blank =>
      cases inside : part c with
      | false => simpa [inside, goesOn] using ⟨.inr .last, .refl _⟩
      | true => simpa [inside, goesOn] using ⟨.inr (.before blank), .refl _⟩
  | @behind c cs blank =>
      cases inside : part c with
      | false => simpa [inside, Loosened] using Respaced.behind blank
      | true => simpa [inside, goesOn] using ⟨.inr (.behind blank), .refl _⟩
  | cons c later ih =>
      cases inside : part c with
      | false => simpa [inside] using ⟨.refl _, .inr (.cons c later)⟩
      | true => simpa [inside] using ⟨ih.1.cons c, ih.2⟩

/-- The space is still there behind a character that is no blank. -/
theorem Loosened.drop_one (loosened : Loosened cs ds) (word : ∀ c ∈ cs.head?, isBlank c = false)
    : Loosened (cs.drop 1) (ds.drop 1) := by
  rcases loosened with rfl | respaced
  · exact .refl _
  · cases respaced with
    | last => exact .refl _
    | before blank => cases blank.symm.trans (word _ rfl)
    | behind blank => cases blank.symm.trans (word _ rfl)
    | cons c later => exact .inr later

theorem not_isBlank_of_isNameStart (starts : isNameStart c = true) : isBlank c = false :=
  not_isBlank_of_isWordChar (isWordChar_of_isNameStart starts)

/-- The same name is at the front of both texts, and the space behind it. -/
theorem Respaced.identifier? (respaced : Respaced cs ds)
    : Option.Rel (fun one other => one.1 = other.1 ∧ Respaced one.2 other.2) (identifier? cs)
        (identifier? ds) := by
  have stops {c : Char} (blank : isBlank c = true) : ¬isNameStart c = true := fun starts => by
    cases blank.symm.trans (not_isBlank_of_isNameStart starts)
  cases respaced with
  | last => simp [Text.identifier?, stops isBlank_space]
  | before blank => simp [Text.identifier?, stops blank, stops isBlank_space]
  | behind blank => simp [Text.identifier?, stops blank]
  | cons c later =>
      obtain ⟨same, rest⟩ := later.run fun c => not_isBlank_of_isWordChar
      simp only [Text.identifier?]
      split
      · exact .some ⟨by rw [same], rest⟩
      · exact .none

theorem Loosened.identifier? (loosened : Loosened cs ds)
    : Option.Rel (fun one other => one.1 = other.1 ∧ Loosened one.2 other.2) (identifier? cs)
        (identifier? ds) := by
  rcases loosened with rfl | respaced
  · cases Text.identifier? cs with
    | none => exact .none
    | some found => exact .some ⟨rfl, .refl _⟩
  · have found := respaced.identifier?
    generalize Text.identifier? cs = one, Text.identifier? ds = other at found
    cases found with
    | none => exact .none
    | some same => exact .some ⟨same.1, .inr same.2⟩

/-- The pieces of a text are those without the space, but for the one in which it is. -/
theorem Respaced.cut {isCut : Char → Bool} (keeps : isCut ' ' = false)
    (respaced : Respaced cs ds)
    : ∃ piece piece' rest rest', cut isCut cs = piece :: rest ∧ cut isCut ds = piece' :: rest'
        ∧ Loosened piece piece' ∧ List.Forall₂ Spaced rest rest' := by
  have same (rest : List (List Char)) : List.Forall₂ Spaced rest rest :=
    List.forall₂_same.mpr fun piece _ => .inr (.refl piece)
  induction respaced with
  | last =>
      refine ⟨[], [' '], [], [], rfl, ?_, .inr .last, .nil⟩
      exact cut_of_solid (List.forall_mem_singleton.mpr keeps)
  | @before c cs blank =>
      obtain ⟨piece, rest, shape, longer⟩ := cut_cons_of_not_cut keeps (c :: cs)
      refine ⟨piece, ' ' :: piece, rest, rest, shape, longer, ?_, same rest⟩
      cases cuts : isCut c with
      | true =>
          rw [cut_cons_of_cut cuts] at shape
          obtain ⟨rfl, -⟩ := List.cons.inj shape
          exact .inr .last
      | false =>
          obtain ⟨inner, others, -, whole⟩ := cut_cons_of_not_cut cuts cs
          rw [whole] at shape
          obtain ⟨rfl, -⟩ := List.cons.inj shape
          exact .inr (.before blank)
  | @behind c cs blank =>
      obtain ⟨piece, rest, shape, spaced⟩ := cut_cons_of_not_cut keeps cs
      cases cuts : isCut c with
      | true =>
          refine ⟨[], [], piece :: rest, (' ' :: piece) :: rest, ?_, ?_, .refl _,
            .cons (.inl rfl) (same rest)⟩
          · rw [cut_cons_of_cut cuts, shape]
          · rw [cut_cons_of_cut cuts, spaced]
      | false =>
          obtain ⟨inner, others, first, whole⟩ := cut_cons_of_not_cut cuts cs
          obtain ⟨inner', others', first', whole'⟩ := cut_cons_of_not_cut cuts (' ' :: cs)
          rw [shape] at first
          rw [spaced] at first'
          obtain ⟨rfl, rfl⟩ := List.cons.inj first
          obtain ⟨rfl, rfl⟩ := List.cons.inj first'
          exact ⟨c :: piece, c :: ' ' :: piece, rest, rest, whole, whole',
            .inr (.behind blank), same rest⟩
  | @cons cs ds c later ih =>
      obtain ⟨piece, piece', rest, rest', shape, shape', first, others⟩ := ih
      cases cuts : isCut c with
      | true =>
          refine ⟨[], [], piece :: rest, piece' :: rest', ?_, ?_, .refl _,
            .cons (.inr first) others⟩
          · rw [cut_cons_of_cut cuts, shape]
          · rw [cut_cons_of_cut cuts, shape']
      | false =>
          obtain ⟨inner, later, same, whole⟩ := cut_cons_of_not_cut cuts cs
          obtain ⟨inner', later', same', whole'⟩ := cut_cons_of_not_cut cuts ds
          rw [shape] at same
          rw [shape'] at same'
          obtain ⟨rfl, rfl⟩ := List.cons.inj same
          obtain ⟨rfl, rfl⟩ := List.cons.inj same'
          exact ⟨c :: piece, c :: piece', rest, rest', whole, whole', first.cons c, others⟩

theorem sameLine_refl (cs : List Char) : SameLine cs cs :=
  .refl _

theorem sameLines_refl (lines : List (List Char)) : List.Forall₂ SameLine lines lines :=
  List.forall₂_same.mpr fun line _ => sameLine_refl line

/-- The pieces of a text are the same lines with the space and without it. -/
theorem Spaced.cut {isCut : Char → Bool} (keeps : isCut ' ' = false) (spaced : Spaced cs ds)
    : List.Forall₂ SameLine (cut isCut cs) (cut isCut ds) := by
  rcases spaced with rfl | rfl | respaced
  · obtain ⟨piece, rest, shape, longer⟩ := cut_cons_of_not_cut keeps cs
    rw [shape, longer]
    exact .cons (Spaced.sameLine (.inl rfl)) (sameLines_refl rest)
  · exact sameLines_refl _
  · obtain ⟨piece, piece', rest, rest', shape, shape', first, others⟩ := respaced.cut keeps
    rw [shape, shape']
    exact .cons first.sameLine (others.imp fun _ _ => Spaced.sameLine)

/-- A trimmed text with a further space in it has blanks in it, and so has the one without. -/
theorem Respaced.exists_blank (respaced : Respaced cs ds) (trimmed : Text.trimEnd ds = ds)
    : (∃ c ∈ cs, isBlank c = true) ∧ ∃ c ∈ ds, isBlank c = true := by
  obtain ⟨front, back, rfl, rfl, gap⟩ := respaced.exists_split
  refine ⟨?_, ' ', by simp, isBlank_space⟩
  rcases gap with rfl | ⟨c, rest, rfl, blank⟩ | ⟨rest, c, rfl, blank⟩
  · rw [trimEnd_concat_of_blank isBlank_space] at trimmed
    have shorter : (Text.trimEnd front).length ≤ front.length := by
      simpa [Text.trimEnd] using length_dropWhile_le isBlank front.reverse
    rw [trimmed] at shorter
    simp only [List.length_append, List.length_singleton] at shorter
    omega
  · exact ⟨c, by simp, blank⟩
  · exact ⟨c, by simp, blank⟩

end ApiBindings.Text
