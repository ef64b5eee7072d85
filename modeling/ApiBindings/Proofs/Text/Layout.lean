import ApiBindings.Text.Blank
import Mathlib.Data.List.Induction

/-! The layout of a text: only its words count once its blanks are collapsed.
A text collapses piece by piece as long as every later piece starts with a word. Such a piece keeps
one blank in front of it if there were any.
-/

namespace ApiBindings.Text

variable {c d : Char} {cs front back : List Char}

/-- What holds of the characters of a text is decided by these alone. There are instances that go
through all characters there are.
-/
instance (priority := high) decidableForallMem (holds : Char → Prop) [DecidablePred holds]
    (cs : List Char)
    : Decidable (∀ c ∈ cs, holds c) :=
  List.decidableBAll holds cs

/-- The same for a character that there may be. -/
instance (priority := high) decidableForallFirst (holds : Char → Prop) [DecidablePred holds]
    (c : Option Char)
    : Decidable (∀ d ∈ c, holds d) :=
  Option.decidableForallMem c

-----------------------------------------------------------------------------------------
-- Words
-----------------------------------------------------------------------------------------

theorem cut_cons_of_cut {isCut : Char → Bool} (cuts : isCut c = true)
    : cut isCut (c :: cs) = [] :: cut isCut cs := by
  simp [cut, cutBefore, cuts]

theorem cut_cons_of_not_cut {isCut : Char → Bool} (keeps : isCut c = false) (cs : List Char)
    : ∃ piece rest, cut isCut cs = piece :: rest ∧ cut isCut (c :: cs) = (c :: piece) :: rest := by
  induction cs generalizing c with
  | nil => exact ⟨[], [], rfl, by simp [cut, cutBefore, keeps]⟩
  | cons d ds ih =>
      cases cuts : isCut d with
      | true =>
          refine ⟨[], cut isCut ds, cut_cons_of_cut cuts, ?_⟩
          simp [cut, cutBefore, keeps, cuts]
      | false =>
          obtain ⟨piece, rest, -, whole⟩ := ih cuts
          refine ⟨d :: piece, rest, whole, ?_⟩
          have step : cut isCut (c :: d :: ds) = cutBefore isCut c (cut isCut (d :: ds)) := rfl
          simp [step, whole, cutBefore, keeps]

theorem cut_ne_nil (isCut : Char → Bool) (cs : List Char) : cut isCut cs ≠ [] := by
  cases cs with
  | nil => simp [cut]
  | cons c rest =>
      cases cuts : isCut c with
      | true => simp [cut_cons_of_cut cuts]
      | false =>
          obtain ⟨piece, pieces, -, whole⟩ := cut_cons_of_not_cut cuts rest
          simp [whole]

theorem exists_cut_concat (isCut : Char → Bool) (cs : List Char)
    : ∃ earlier last, cut isCut cs = earlier ++ [last] :=
  ⟨_, _, (List.dropLast_concat_getLast (cut_ne_nil isCut cs)).symm⟩

/-- No character of a piece is one that cuts, by induction on the text. -/
theorem keeps_of_mem_cut {isCut : Char → Bool} {piece : List Char} (member : piece ∈ cut isCut cs)
    : ∀ c ∈ piece, isCut c = false := by
  induction cs generalizing piece with
  | nil =>
      obtain rfl := List.mem_singleton.mp member
      exact List.forall_mem_nil _
  | cons c rest ih =>
      cases cuts : isCut c with
      | true =>
          rw [cut_cons_of_cut cuts] at member
          rcases List.mem_cons.mp member with rfl | later
          · exact List.forall_mem_nil _
          · exact ih later
      | false =>
          obtain ⟨first, pieces, shape, whole⟩ := cut_cons_of_not_cut cuts rest
          rw [shape] at ih
          rw [whole] at member
          rcases List.mem_cons.mp member with rfl | later
          · exact List.forall_mem_cons.mpr ⟨cuts, ih List.mem_cons_self⟩
          · exact ih (List.mem_cons_of_mem _ later)

/-- A text is cut at a character into what is cut before it and behind it, by induction on the
text before it.
-/
theorem cut_append_of_cut {isCut : Char → Bool} (cuts : isCut c = true) (front back : List Char)
    : cut isCut (front ++ c :: back) = cut isCut front ++ cut isCut back := by
  induction front with
  | nil => exact cut_cons_of_cut cuts
  | cons d front ih =>
      cases first : isCut d with
      | true =>
          rw [List.cons_append, cut_cons_of_cut first, cut_cons_of_cut first, ih]
          rfl
      | false =>
          obtain ⟨piece, rest, shape, longer⟩ := cut_cons_of_not_cut first front
          obtain ⟨piece', rest', shape', longer'⟩ :=
            cut_cons_of_not_cut first (front ++ c :: back)
          rw [ih, shape] at shape'
          obtain ⟨rfl, rfl⟩ := List.cons.inj shape'
          rw [List.cons_append, longer, longer', List.cons_append]
          rfl

/-- A text that is cut nowhere is one piece. -/
theorem cut_of_solid {isCut : Char → Bool} (solid : ∀ c ∈ cs, isCut c = false)
    : cut isCut cs = [cs] := by
  induction cs with
  | nil => rfl
  | cons c cs ih =>
      obtain ⟨keeps, others⟩ := List.forall_mem_cons.mp solid
      obtain ⟨piece, rest, shape, longer⟩ := cut_cons_of_not_cut keeps cs
      rw [ih others] at shape
      obtain ⟨rfl, rfl⟩ := List.cons.inj shape
      exact longer

theorem words_cons_of_blank (blank : isBlank c = true) : words (c :: cs) = words cs := by
  simp [words, cut_cons_of_cut blank]

/-- A text that goes on with a word, if at all, does not start with a blank. -/
def StartsWord (cs : List Char) : Prop :=
  ∃ c rest, cs = c :: rest ∧ isBlank c = false

theorem words_singleton (word : isBlank c = false) : words [c] = [[c]] := by
  simp [words, cut, cutBefore, word]

/-- A character alone is a word in front of a blank. -/
theorem words_cons_cons_of_blank (word : isBlank c = false) (blank : isBlank d = true)
    : words (c :: d :: cs) = [c] :: words (d :: cs) := by
  obtain ⟨piece, rest, whole, longer⟩ := cut_cons_of_not_cut word (d :: cs)
  rw [cut_cons_of_cut blank] at whole
  obtain ⟨rfl, rfl⟩ := List.cons.inj whole
  simp [words, longer, cut_cons_of_cut blank]

/-- A character joins the word that it stands in front of. -/
theorem words_cons_of_startsWord (word : isBlank c = false) (starts : StartsWord cs)
    : ∃ first rest, words cs = first :: rest ∧ words (c :: cs) = (c :: first) :: rest := by
  obtain ⟨d, ds, rfl, next⟩ := starts
  obtain ⟨piece, rest, -, whole⟩ := cut_cons_of_not_cut next ds
  obtain ⟨piece', rest', same, longer⟩ := cut_cons_of_not_cut word (d :: ds)
  rw [whole] at same
  obtain ⟨rfl, rfl⟩ := List.cons.inj same
  exact ⟨d :: piece, rest.filter fun word => !word.isEmpty, by simp [words, whole],
    by simp [words, longer]⟩

theorem StartsWord.ne_nil (starts : StartsWord cs) : cs ≠ [] := by
  obtain ⟨c, rest, rfl, -⟩ := starts
  exact List.cons_ne_nil c rest

theorem StartsWord.words_ne_nil (starts : StartsWord cs) : words cs ≠ [] := by
  obtain ⟨c, rest, rfl, word⟩ := starts
  obtain ⟨piece, later, -, whole⟩ := cut_cons_of_not_cut word rest
  simp [words, whole]

theorem StartsWord.append (starts : StartsWord front) (back : List Char)
    : StartsWord (front ++ back) := by
  obtain ⟨c, rest, rfl, word⟩ := starts
  exact ⟨c, rest ++ back, rfl, word⟩

/-- Induction on the layout of a text: a character is a blank, the last one of the text, the last
one of a word in front of a blank, or it goes on with the word behind it.
-/
@[elab_as_elim]
theorem layout_induction {motive : List Char → Prop} (nil : motive [])
    (blank : ∀ c rest, isBlank c = true → motive rest → motive (c :: rest))
    (last : ∀ c, isBlank c = false → motive [c])
    (gap : ∀ c d rest, isBlank c = false → isBlank d = true → motive (d :: rest)
      → motive (c :: d :: rest))
    (word : ∀ c rest, isBlank c = false → StartsWord rest → motive rest → motive (c :: rest))
    (cs : List Char)
    : motive cs := by
  induction cs with
  | nil => exact nil
  | cons c rest ih =>
      cases first : isBlank c with
      | true => exact blank c rest first ih
      | false =>
          cases rest with
          | nil => exact last c first
          | cons d rest =>
              cases second : isBlank d with
              | true => exact gap c d rest first second ih
              | false => exact word c (d :: rest) first ⟨d, rest, rfl, second⟩ ih

/-- Words in front of a text that ends in a word are words of the whole. -/
theorem words_append_ne_nil (front : List Char) (starts : StartsWord back)
    : words (front ++ back) ≠ [] := by
  induction front with
  | nil => exact starts.words_ne_nil
  | cons c rest ih =>
      cases blank : isBlank c with
      | true =>
          rw [List.cons_append, words_cons_of_blank blank]
          exact ih
      | false =>
          have whole : StartsWord (c :: rest ++ back) := ⟨c, rest ++ back, rfl, blank⟩
          exact whole.words_ne_nil

/-- A blank parts the words before it from those behind it. By induction on the text before it. -/
theorem words_append_cons_of_blank (front back : List Char) (blank : isBlank c = true)
    : words (front ++ c :: back) = words front ++ words back := by
  induction front using layout_induction with
  | nil => exact words_cons_of_blank blank
  | blank d rest first ih =>
      rw [List.cons_append, words_cons_of_blank first, ih, words_cons_of_blank first]
  | last d first =>
      rw [List.singleton_append, words_cons_cons_of_blank first blank, words_cons_of_blank blank,
        words_singleton first]
      rfl
  | gap d e rest first second ih =>
      rw [List.cons_append] at ih ⊢
      rw [List.cons_append, words_cons_cons_of_blank first second, ih,
        words_cons_cons_of_blank first second, List.cons_append]
  | word d rest first starts ih =>
      obtain ⟨w, ws, shape, longer⟩ := words_cons_of_startsWord first starts
      obtain ⟨v, vs, shape', longer'⟩ :=
        words_cons_of_startsWord first (starts.append (c :: back))
      rw [ih, shape, List.cons_append] at shape'
      obtain ⟨rfl, rfl⟩ := List.cons.inj shape'
      rw [List.cons_append, longer', longer, List.cons_append]

theorem words_concat_of_blank (blank : isBlank c = true) : words (front ++ [c]) = words front :=
  (words_append_cons_of_blank front [] blank).trans (List.append_nil _)

-----------------------------------------------------------------------------------------
-- Collapsing
-----------------------------------------------------------------------------------------

theorem unwords_cons_cons (first second : List Char) (rest : List (List Char))
    : unwords (first :: second :: rest) = first ++ ' ' :: unwords (second :: rest) := by
  simp [unwords, List.intercalate, List.intersperse]

theorem unwords_append {earlier later : List (List Char)} (someEarlier : earlier ≠ [])
    (someLater : later ≠ [])
    : unwords (earlier ++ later) = unwords earlier ++ ' ' :: unwords later := by
  obtain ⟨next, others, rfl⟩ := List.exists_cons_of_ne_nil someLater
  induction earlier with
  | nil => exact absurd rfl someEarlier
  | cons first rest ih =>
      cases rest with
      | nil =>
          rw [List.singleton_append, unwords_cons_cons]
          simp [unwords]
      | cons second rest =>
          rw [List.cons_append, List.cons_append, unwords_cons_cons, ← List.cons_append,
            ih (List.cons_ne_nil second rest), unwords_cons_cons, List.append_assoc,
            List.cons_append]

/-- Of the blanks between two texts with words one is left. -/
theorem collapse_append_cons_of_blank (front back : List Char) (blank : isBlank c = true)
    (before : words front ≠ []) (behind : words back ≠ [])
    : collapse (front ++ c :: back) = collapse front ++ ' ' :: collapse back := by
  rw [collapse, words_append_cons_of_blank front back blank, unwords_append before behind]
  rfl

theorem collapse_cons_of_blank (blank : isBlank c = true) : collapse (c :: cs) = collapse cs := by
  rw [collapse, words_cons_of_blank blank, collapse]

theorem collapse_singleton (word : isBlank c = false) : collapse [c] = [c] := by
  rw [collapse, words_singleton word]
  rfl

theorem collapse_cons_cons_of_blank (word : isBlank c = false) (blank : isBlank d = true)
    (more : words (d :: cs) ≠ [])
    : collapse (c :: d :: cs) = c :: ' ' :: collapse (d :: cs) := by
  obtain ⟨first, rest, shape⟩ := List.exists_cons_of_ne_nil more
  rw [collapse, words_cons_cons_of_blank word blank, collapse, shape, unwords_cons_cons]
  rfl

theorem collapse_cons_of_startsWord (word : isBlank c = false) (starts : StartsWord cs)
    : collapse (c :: cs) = c :: collapse cs := by
  obtain ⟨first, rest, shape, longer⟩ := words_cons_of_startsWord word starts
  rw [collapse, longer, collapse, shape]
  cases rest with
  | nil => simp [unwords]
  | cons second rest => rw [unwords_cons_cons, unwords_cons_cons, List.cons_append]

/-- A text in front of a word, its blanks collapsed: of those behind its last word one is left. -/
def collapseBefore : List Char → List Char
  | [] => []
  | c :: cs =>
      if isBlank c then collapseBefore cs
      else if cs.head?.any isBlank then c :: ' ' :: collapseBefore cs
      else c :: collapseBefore cs

theorem collapseBefore_cons_of_blank (blank : isBlank c = true)
    : collapseBefore (c :: cs) = collapseBefore cs := by
  rw [collapseBefore, if_pos blank]

theorem collapseBefore_cons_cons_of_blank (word : isBlank c = false) (blank : isBlank d = true)
    : collapseBefore (c :: d :: cs) = c :: ' ' :: collapseBefore (d :: cs) := by
  rw [collapseBefore, if_neg (by simp [word]), if_pos (by simp [blank])]

theorem collapseBefore_cons_of_startsWord (word : isBlank c = false) (starts : StartsWord cs)
    : collapseBefore (c :: cs) = c :: collapseBefore cs := by
  obtain ⟨d, rest, rfl, next⟩ := starts
  rw [collapseBefore, if_neg (by simp [word]), if_neg (by simp [next])]

theorem collapseBefore_singleton (word : isBlank c = false) : collapseBefore [c] = [c] := by
  simp [collapseBefore, word]

/-- A text collapses piece by piece if the later piece starts with a word. By induction on the
earlier one.
-/
theorem collapse_append (starts : StartsWord back)
    : collapse (front ++ back) = collapseBefore front ++ collapse back := by
  induction front using layout_induction with
  | nil => rfl
  | blank c rest first ih =>
      rw [List.cons_append, collapse_cons_of_blank first, ih, collapseBefore_cons_of_blank first]
  | last c first =>
      rw [collapseBefore_singleton first]
      exact collapse_cons_of_startsWord first starts
  | gap c d rest first second ih =>
      have more := words_append_ne_nil (d :: rest) starts
      rw [List.cons_append] at ih more
      rw [collapseBefore_cons_cons_of_blank first second, List.cons_append, List.cons_append,
        collapse_cons_cons_of_blank first second more, ih, List.cons_append, List.cons_append]
  | word c rest first word ih =>
      rw [collapseBefore_cons_of_startsWord first word, List.cons_append,
        collapse_cons_of_startsWord first (word.append back), ih, List.cons_append]

theorem collapseBefore_append (starts : StartsWord back)
    : collapseBefore (front ++ back) = collapseBefore front ++ collapseBefore back := by
  induction front using layout_induction with
  | nil => rfl
  | blank c rest first ih =>
      rw [List.cons_append, collapseBefore_cons_of_blank first, ih,
        collapseBefore_cons_of_blank first]
  | last c first =>
      rw [collapseBefore_singleton first]
      exact collapseBefore_cons_of_startsWord first starts
  | gap c d rest first second ih =>
      rw [collapseBefore_cons_cons_of_blank first second, List.cons_append, List.cons_append,
        collapseBefore_cons_cons_of_blank first second, ← List.cons_append, ih,
        List.cons_append, List.cons_append]
  | word c rest first word ih =>
      rw [collapseBefore_cons_of_startsWord first word, List.cons_append,
        collapseBefore_cons_of_startsWord first (word.append back), ih, List.cons_append]

/-- A text that ends in a word collapses alike, whatever stands behind it. -/
theorem collapseBefore_eq_collapse (word : isBlank c = false)
    : collapseBefore (front ++ [c]) = collapse (front ++ [c]) := by
  have starts : StartsWord [c] := ⟨c, [], rfl, word⟩
  rw [collapse_append starts, collapseBefore_append starts, collapseBefore_singleton word,
    collapse_singleton word]

/-- A text without blanks is a word, and collapsing leaves it alone. By induction on the text. -/
theorem collapse_eq_self (solid : ∀ c ∈ cs, isBlank c = false) : collapse cs = cs := by
  induction cs with
  | nil => rfl
  | cons c rest ih =>
      obtain ⟨word, later⟩ := List.forall_mem_cons.mp solid
      cases rest with
      | nil => exact collapse_singleton word
      | cons d rest =>
          rw [collapse_cons_of_startsWord word ⟨d, rest, rfl, later d List.mem_cons_self⟩,
            ih later]

theorem collapseBefore_eq_self (solid : ∀ c ∈ cs, isBlank c = false) : collapseBefore cs = cs := by
  induction cs using List.reverseRecOn with
  | nil => rfl
  | append_singleton front last _ =>
      rw [collapseBefore_eq_collapse (solid last (by simp)), collapse_eq_self solid]

/-- A text that starts with a word still starts with the same character. -/
theorem exists_collapseBefore_cons (word : isBlank c = false) (cs : List Char)
    : ∃ rest, collapseBefore (c :: cs) = c :: rest := by
  rw [collapseBefore, if_neg (by simp [word])]
  split
  · exact ⟨_, rfl⟩
  · exact ⟨_, rfl⟩

-----------------------------------------------------------------------------------------
-- What collapsing keeps
-----------------------------------------------------------------------------------------

theorem collapse_concat_of_blank (blank : isBlank c = true)
    : collapse (front ++ [c]) = collapse front := by
  rw [collapse, words_concat_of_blank blank, collapse]

/-- What stands in front of a word does not start with a blank once it is collapsed. -/
theorem collapseBefore_cases (cs : List Char)
    : collapseBefore cs = [] ∨ StartsWord (collapseBefore cs) := by
  induction cs with
  | nil => exact .inl rfl
  | cons c rest ih =>
      cases blank : isBlank c with
      | true =>
          rw [collapseBefore_cons_of_blank blank]
          exact ih
      | false =>
          obtain ⟨later, shape⟩ := exists_collapseBefore_cons blank rest
          exact .inr ⟨c, later, shape, blank⟩

theorem words_collapseBefore (cs : List Char) : words (collapseBefore cs) = words cs := by
  induction cs using layout_induction with
  | nil => rfl
  | blank c rest first ih =>
      rw [collapseBefore_cons_of_blank first, ih, words_cons_of_blank first]
  | last c first => rw [collapseBefore_singleton first]
  | gap c d rest first second ih =>
      rw [collapseBefore_cons_cons_of_blank first second,
        words_cons_cons_of_blank first (by decide), words_cons_of_blank (by decide), ih,
        words_cons_cons_of_blank first second]
  | word c rest first word ih =>
      have starts : StartsWord (collapseBefore rest) := by
        refine (collapseBefore_cases rest).resolve_left fun none => ?_
        rw [none] at ih
        exact word.words_ne_nil ih.symm
      obtain ⟨w, ws, shape, longer⟩ := words_cons_of_startsWord first word
      obtain ⟨v, vs, shape', longer'⟩ := words_cons_of_startsWord first starts
      rw [ih, shape] at shape'
      obtain ⟨rfl, rfl⟩ := List.cons.inj shape'
      rw [collapseBefore_cons_of_startsWord first word, longer', longer]

/-- Collapsing keeps the words of a text. By induction from the back, where blanks are dropped. -/
theorem words_collapse (cs : List Char) : words (collapse cs) = words cs := by
  induction cs using List.reverseRecOn with
  | nil => rfl
  | append_singleton front last ih =>
      cases blank : isBlank last with
      | true => rw [collapse_concat_of_blank blank, ih, words_concat_of_blank blank]
      | false => rw [← collapseBefore_eq_collapse blank, words_collapseBefore]

theorem collapse_collapse (cs : List Char) : collapse (collapse cs) = collapse cs := by
  rw [collapse, words_collapse, collapse]

theorem mem_collapseBefore (member : c ∈ collapseBefore cs)
    : c = ' ' ∨ c ∈ cs ∧ isBlank c = false := by
  induction cs with
  | nil => cases member
  | cons d rest ih =>
      have later (member : c ∈ collapseBefore rest)
          : c = ' ' ∨ c ∈ d :: rest ∧ isBlank c = false :=
        (ih member).imp_right fun ⟨inside, word⟩ => ⟨List.mem_cons_of_mem d inside, word⟩
      cases blank : isBlank d with
      | true =>
          rw [collapseBefore_cons_of_blank blank] at member
          exact later member
      | false =>
          rw [collapseBefore, if_neg (by simp [blank])] at member
          split at member
          · rcases List.mem_cons.mp member with rfl | member
            · exact .inr ⟨List.mem_cons_self, blank⟩
            · rcases List.mem_cons.mp member with rfl | member
              · exact .inl rfl
              · exact later member
          · rcases List.mem_cons.mp member with rfl | member
            · exact .inr ⟨List.mem_cons_self, blank⟩
            · exact later member

theorem mem_collapseBefore_of_mem (inside : c ∈ cs) (word : isBlank c = false)
    : c ∈ collapseBefore cs := by
  induction cs with
  | nil => cases inside
  | cons d rest ih =>
      cases blank : isBlank d with
      | true =>
          rw [collapseBefore_cons_of_blank blank]
          refine ih ((List.mem_cons.mp inside).resolve_left ?_)
          rintro rfl
          rw [word] at blank
          cases blank
      | false =>
          rw [collapseBefore, if_neg (by simp [blank])]
          rcases List.mem_cons.mp inside with rfl | later
          · split <;> exact List.mem_cons_self
          · split
            · exact List.mem_cons_of_mem _ (List.mem_cons_of_mem _ (ih later))
            · exact List.mem_cons_of_mem _ (ih later)

/-- A text that starts with a word does so once it is collapsed. -/
theorem StartsWord.collapse (starts : StartsWord cs) : StartsWord (collapse cs) := by
  obtain ⟨c, rest, rfl, word⟩ := starts
  obtain ⟨piece, later, -, whole⟩ := cut_cons_of_not_cut word rest
  have shape : words (c :: rest) = (c :: piece) :: later.filter fun word => !word.isEmpty := by
    simp [words, whole]
  rw [Text.collapse, shape]
  cases later.filter fun word => !word.isEmpty with
  | nil => exact ⟨c, piece, by simp [unwords], word⟩
  | cons second others =>
      rw [unwords_cons_cons]
      exact ⟨c, _, rfl, word⟩

/-- A text that ends in a word starts with a word once it is collapsed. -/
theorem startsWord_collapse (word : isBlank c = false) : StartsWord (collapse (front ++ [c])) := by
  rw [← collapseBefore_eq_collapse word]
  have kept : c ∈ collapseBefore (front ++ [c]) :=
    mem_collapseBefore_of_mem List.mem_concat_self word
  exact (collapseBefore_cases _).resolve_left (List.ne_nil_of_mem kept)

theorem mem_collapse_of_mem (inside : c ∈ cs) (word : isBlank c = false) : c ∈ collapse cs := by
  induction cs using List.reverseRecOn with
  | nil => cases inside
  | append_singleton front last ih =>
      cases blank : isBlank last with
      | true =>
          rw [collapse_concat_of_blank blank]
          refine ih ((List.mem_append.mp inside).resolve_right fun last => ?_)
          obtain rfl := List.mem_singleton.mp last
          rw [word] at blank
          cases blank
      | false =>
          rw [← collapseBefore_eq_collapse blank]
          exact mem_collapseBefore_of_mem inside word

theorem mem_collapse (member : c ∈ collapse cs) : c = ' ' ∨ c ∈ cs ∧ isBlank c = false := by
  induction cs using List.reverseRecOn with
  | nil => cases member
  | append_singleton front last ih =>
      cases blank : isBlank last with
      | true =>
          rw [collapse_concat_of_blank blank] at member
          exact (ih member).imp_right fun ⟨inside, word⟩ =>
            ⟨List.mem_append_left _ inside, word⟩
      | false =>
          rw [← collapseBefore_eq_collapse blank] at member
          exact mem_collapseBefore member

-----------------------------------------------------------------------------------------
-- Trimming
-----------------------------------------------------------------------------------------

theorem trimStart_cons_of_blank (blank : isBlank c = true)
    : trimStart (c :: cs) = trimStart cs :=
  List.dropWhile_cons_of_pos blank

theorem trimStart_cons (word : isBlank c = false) : trimStart (c :: cs) = c :: cs :=
  List.dropWhile_cons_of_neg (by simp [word])

theorem StartsWord.trimStart_eq (starts : StartsWord cs) : trimStart cs = cs := by
  obtain ⟨c, rest, rfl, word⟩ := starts
  exact trimStart_cons word

theorem trimStart_blanks_append (blank : ∀ c ∈ front, isBlank c = true) (starts : StartsWord cs)
    : trimStart (front ++ cs) = cs := by
  rw [trimStart, List.dropWhile_append_of_pos blank]
  exact starts.trimStart_eq

theorem trimEnd_concat_of_blank (blank : isBlank c = true)
    : trimEnd (front ++ [c]) = trimEnd front := by
  simp [trimEnd, blank]

theorem trimEnd_concat (word : isBlank c = false) : trimEnd (front ++ [c]) = front ++ [c] := by
  simp [trimEnd, word]

/-- One more blank in front of a word is kept at most once. -/
theorem collapseBefore_concat_of_blank (front : List Char) (blank : isBlank c = true)
    : collapseBefore (front ++ [c]) = collapseBefore front
      ∨ collapseBefore (front ++ [c]) = collapseBefore front ++ [' '] := by
  induction front using layout_induction with
  | nil => exact .inl (collapseBefore_cons_of_blank blank)
  | blank d rest first ih =>
      rw [List.cons_append, collapseBefore_cons_of_blank first, collapseBefore_cons_of_blank first]
      exact ih
  | last d first =>
      right
      rw [List.singleton_append, collapseBefore_cons_cons_of_blank first blank,
        collapseBefore_cons_of_blank blank, collapseBefore_singleton first]
      rfl
  | gap d e rest first second ih =>
      rw [List.cons_append] at ih ⊢
      rw [List.cons_append, collapseBefore_cons_cons_of_blank first second,
        collapseBefore_cons_cons_of_blank first second]
      rcases ih with same | same
      · exact .inl (by rw [same])
      · exact .inr (by rw [same, List.cons_append, List.cons_append])
  | word d rest first word ih =>
      rw [List.cons_append, collapseBefore_cons_of_startsWord first (word.append [c]),
        collapseBefore_cons_of_startsWord first word]
      rcases ih with same | same
      · exact .inl (by rw [same])
      · exact .inr (by rw [same, List.cons_append])

theorem trimStart_collapseBefore (cs : List Char)
    : trimStart (collapseBefore cs) = collapseBefore cs := by
  rcases collapseBefore_cases cs with none | starts
  · rw [none]
    rfl
  · exact starts.trimStart_eq

/-- Trimming what stands in front of a word collapses it on its own. By induction from the back. -/
theorem trim_collapseBefore (cs : List Char) : trim (collapseBefore cs) = collapse cs := by
  rw [trim, trimStart_collapseBefore]
  induction cs using List.reverseRecOn with
  | nil => rfl
  | append_singleton front last ih =>
      cases blank : isBlank last with
      | true =>
          rw [collapse_concat_of_blank blank, ← ih]
          rcases collapseBefore_concat_of_blank front blank with same | same
          · rw [same]
          · rw [same, trimEnd_concat_of_blank (by decide)]
      | false =>
          have starts : StartsWord [last] := ⟨last, [], rfl, blank⟩
          rw [← collapseBefore_eq_collapse blank, collapseBefore_append starts,
            collapseBefore_singleton blank, trimEnd_concat blank]

/-- A collapsed text has no blanks at its ends. -/
theorem trim_collapse (cs : List Char) : trim (collapse cs) = collapse cs := by
  induction cs using List.reverseRecOn with
  | nil => rfl
  | append_singleton front last ih =>
      cases blank : isBlank last with
      | true => rw [collapse_concat_of_blank blank, ih]
      | false =>
          have same := trim_collapseBefore (front ++ [last])
          rwa [collapseBefore_eq_collapse blank] at same

end ApiBindings.Text
