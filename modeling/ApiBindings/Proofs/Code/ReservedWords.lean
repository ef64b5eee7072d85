import ApiBindings.Proofs.Code.Identifiers

/-! Which names get an identifier that Rust accepts.
An identifier always has the form of one, it is never one of the words that it is guarded against,
and what is accepted is left as it is. Not all reserved words are guarded against though, and where
nothing is left of a name there is only an underscore, which names nothing.
-/

namespace ApiBindings.Code

/-- The strict keywords of Rust and the words that it reserves, with those of single editions. -/
def reservedWords : List String :=
  ["as", "async", "await", "break", "const", "continue", "crate", "dyn", "else", "enum", "extern",
    "false", "fn", "for", "if", "impl", "in", "let", "loop", "match", "mod", "move", "mut", "pub",
    "ref", "return", "self", "Self", "static", "struct", "super", "trait", "true", "type",
    "unsafe", "use", "where", "while",
    "abstract", "become", "box", "do", "final", "gen", "macro", "override", "priv", "try",
    "typeof", "unsized", "virtual", "yield"]

/-- The reserved words that an identifier is not guarded against. -/
def unguardedWords : List String :=
  reservedWords.filter fun word => !keywords.contains word

example
    : unguardedWords =
        ["abstract", "become", "do", "final", "gen", "macro", "override", "unsized",
          "virtual"] := by
  decide +kernel

/-- A text without foreign characters: one of letters, digits and underscores. -/
def IsSpelled (text : List Char) : Prop :=
  ∀ c ∈ text, c.isAlphanum = true ∨ c = '_'

/-- A text of letters, digits and underscores that does not start with a digit. -/
structure IsShaped (text : List Char) : Prop where
  nonempty : text ≠ []
  spelled : IsSpelled text
  start : ∀ c ∈ text.head?, c.isDigit = false

/-- A name that Rust accepts for an item. -/
structure IsUsable (name : String) : Prop extends IsShaped name.toList where
  named : name ≠ "_"
  free : name ∉ reservedWords

variable {a b : List Char}

-----------------------------------------------------------------------------------------
-- Reserved words
-----------------------------------------------------------------------------------------

theorem mem_unguardedWords {word : String}
    : word ∈ unguardedWords ↔ word ∈ reservedWords ∧ word ∉ keywords := by
  simp [unguardedWords]

theorem mem_reservedWords_of_keyword
    : ∀ word ∈ keywords, word ∈ reservedWords := by
  decide +kernel

/-- Reserved words are made of letters. -/
theorem isAlpha_of_mem_reservedWords {word : String} (reserved : word ∈ reservedWords)
    : ∀ c ∈ word.toList, c.isAlpha = true := by
  have all : ∀ word ∈ reservedWords, (word.toList.all Char.isAlpha) = true := by decide +kernel
  exact List.all_eq_true.mp (all word reserved)

theorem underscore_not_mem_reserved {text : List Char}
    (reserved : String.ofList text ∈ reservedWords)
    : '_' ∉ text := by
  intro member
  have letter := isAlpha_of_mem_reservedWords reserved '_' (by rwa [String.toList_ofList])
  cases letter

/-- All words that are not guarded against start with a small letter. -/
theorem exists_head_of_mem_unguardedWords {word : String} (unguarded : word ∈ unguardedWords)
    : ∃ c rest, word.toList = c :: rest ∧ c.isLower = true := by
  have all : ∀ word ∈ unguardedWords, (word.toList.head?.any Char.isLower) = true := by
    decide +kernel
  have lower := all word unguarded
  cases shape : word.toList with
  | nil => simp [shape] at lower
  | cons c rest => exact ⟨c, rest, rfl, by simpa [shape] using lower⟩

theorem not_isDigit_of_isLower {c : Char} (lower : c.isLower = true) : c.isDigit = false := by
  rw [Bool.eq_false_iff]
  intro digit
  have least := of_decide_eq_true (Bool.and_eq_true_iff.mp lower).1
  have most := of_decide_eq_true (Bool.and_eq_true_iff.mp digit).2
  exact absurd (UInt32.le_trans least most) (by decide)

-----------------------------------------------------------------------------------------
-- The form of an escape
-----------------------------------------------------------------------------------------

/-- What an escape leaves alone needs none. -/
theorem not_escapes_self (same : escape a = a) : ¬Escapes a b := by
  intro escapes
  have changed : a = b := same.symm.trans (escape_of_escapes escapes).1
  have longer : a.length < b.length := by cases escapes <;> simp
  rw [changed] at longer
  exact Nat.lt_irrefl _ longer

theorem Escapes.isGuarded (escapes : Escapes a b)
    : a = [] ∨ (∃ c ∈ a.head?, c.isDigit = true) ∨ String.ofList a ∈ keywords := by
  cases escapes with
  | empty => exact .inl rfl
  | digit digit => exact .inr (.inl ⟨_, rfl, digit⟩)
  | keyword reserved => exact .inr (.inr reserved)

theorem escape_eq_self (nonempty : a ≠ []) (start : ∀ c ∈ a.head?, c.isDigit = false)
    (free : String.ofList a ∉ keywords)
    : escape a = a := by
  rcases escape_cases a with same | escapes
  · exact same
  · rcases escapes.isGuarded with empty | ⟨c, head, digit⟩ | reserved
    · exact absurd empty nonempty
    · rw [start c head] at digit
      cases digit
    · exact absurd reserved free

theorem escape_escape (text : List Char) : escape (escape text) = escape text := by
  rcases escape_cases text with same | escapes
  · rw [same, same]
  · exact (escape_of_escapes escapes).2

theorem Escapes.isShaped (escapes : Escapes a b) (spelled : IsSpelled a) : IsShaped b := by
  have nonempty : b ≠ [] := List.ne_nil_of_mem escapes.underscore_mem
  cases escapes with
  | empty => exact ⟨nonempty, by simp [IsSpelled], by simp⟩
  | digit =>
      exact ⟨nonempty, List.forall_mem_cons.mpr ⟨.inr rfl, spelled⟩, by simp⟩
  | keyword reserved =>
      refine ⟨nonempty, List.forall_mem_append.mpr ⟨spelled, by simp⟩, ?_⟩
      obtain ⟨⟨c, rest, rfl, -, noDigit⟩, -⟩ := keyword_shape reserved
      simpa using noDigit

/-- A text without foreign characters has an escape of the right form, be it escaped or not. -/
theorem isShaped_escape (spelled : IsSpelled a) : IsShaped (escape a) := by
  rcases escape_cases a with same | escapes
  · rw [same]
    refine ⟨?_, spelled, ?_⟩
    · rintro rfl
      exact not_escapes_self same .empty
    · intro c head
      cases a with
      | nil => cases head
      | cons first rest =>
          cases head
          exact Bool.eq_false_iff.mpr fun digit => not_escapes_self same (.digit digit)
  · exact escapes.isShaped spelled

theorem escape_not_keyword (text : List Char) : String.ofList (escape text) ∉ keywords := by
  rcases escape_cases text with same | escapes
  · rw [same]
    exact fun reserved => not_escapes_self same (.keyword reserved)
  · intro reserved
    exact underscore_not_mem_reserved (mem_reservedWords_of_keyword _ reserved)
      escapes.underscore_mem

/-- An escape is reserved only if nothing was escaped. -/
theorem escape_mem_reservedWords_iff
    : String.ofList (escape a) ∈ reservedWords ↔ String.ofList a ∈ unguardedWords := by
  constructor
  · intro reserved
    rcases escape_cases a with same | escapes
    · have free := escape_not_keyword a
      rw [same] at reserved free
      exact mem_unguardedWords.mpr ⟨reserved, free⟩
    · exact absurd escapes.underscore_mem (underscore_not_mem_reserved reserved)
  · intro unguarded
    obtain ⟨reserved, free⟩ := mem_unguardedWords.mp unguarded
    obtain ⟨c, rest, shape, lower⟩ := exists_head_of_mem_unguardedWords unguarded
    rw [String.toList_ofList] at shape
    subst shape
    rwa [escape_eq_self (List.cons_ne_nil _ _) (by simpa using not_isDigit_of_isLower lower) free]

theorem escape_eq_underscore_iff : escape a = ['_'] ↔ a = [] ∨ a = ['_'] := by
  constructor
  · intro lone
    rcases escape_cases a with same | escapes
    · exact .inr (same.symm.trans lone)
    · rw [lone] at escapes
      rcases escapes.eq_tail_or_dropLast with ⟨-, rfl⟩ | ⟨-, rfl⟩ <;> exact .inl rfl
  · rintro (rfl | rfl) <;> decide +kernel

-----------------------------------------------------------------------------------------
-- Names
-----------------------------------------------------------------------------------------

theorem isSpelled_spelling (name : String) : IsSpelled (spelling name) := by
  intro c member
  obtain ⟨d, -, rfl⟩ := List.mem_map.mp member
  rw [identChar_eq]
  split
  · exact .inl ‹_›
  · exact .inr rfl

theorem spelling_eq_self {name : String} (spelled : IsSpelled name.toList)
    : spelling name = name.toList := by
  refine (List.map_congr_left fun c member => ?_).trans (List.map_id name.toList)
  rw [identChar_eq, id]
  rcases spelled c member with alphanum | rfl
  · rw [if_pos alphanum]
  · rfl

/-- A name is spelled with no more than an underscore if it is one foreign character. -/
theorem spelling_eq_underscore_iff {name : String}
    : spelling name = ['_'] ↔ ∃ c, name.toList = [c] ∧ c.isAlphanum = false := by
  rw [spelling, List.map_eq_singleton_iff]
  refine exists_congr fun c => and_congr_right fun _ => ?_
  rw [identChar_eq]
  cases alphanum : c.isAlphanum with
  | false => simp
  | true =>
      rw [if_pos rfl]
      refine iff_of_false ?_ (by simp)
      rintro rfl
      cases alphanum

/-- Only a word itself is spelled like it. -/
theorem spelling_mem_unguardedWords_iff {name : String}
    : String.ofList (spelling name) ∈ unguardedWords ↔ name ∈ unguardedWords := by
  constructor
  · intro unguarded
    have reserved := (mem_unguardedWords.mp unguarded).1
    have spelled : IsSpelled name.toList := by
      intro c member
      by_contra foreign
      have underscore : identChar c = '_' := by
        rw [identChar_eq, if_neg fun alphanum => foreign (.inl alphanum)]
      exact underscore_not_mem_reserved reserved (List.mem_map.mpr ⟨c, member, underscore⟩)
    rwa [spelling_eq_self spelled, String.ofList_toList] at unguarded
  · intro unguarded
    have reserved := (mem_unguardedWords.mp unguarded).1
    have spelled : IsSpelled name.toList := fun c member =>
      .inl (by simp [Char.isAlphanum, isAlpha_of_mem_reservedWords reserved c member])
    rwa [spelling_eq_self spelled, String.ofList_toList]

theorem toList_ident (name : String) : (ident name).toList = escape (spelling name) :=
  rfl

theorem isShaped_ident (name : String) : IsShaped (ident name).toList :=
  isShaped_escape (isSpelled_spelling name)

theorem ident_not_keyword (name : String) : ident name ∉ keywords := by
  rw [← String.ofList_toList (s := ident name), toList_ident]
  exact escape_not_keyword (spelling name)

theorem ident_ident (name : String) : ident (ident name) = ident name := by
  rw [← String.toList_inj, toList_ident, spelling_eq_self (isShaped_ident name).spelled,
    toList_ident, escape_escape]

theorem IsUsable.ident_eq {name : String} (usable : IsUsable name) : ident name = name := by
  have free : String.ofList name.toList ∉ keywords := by
    rw [String.ofList_toList]
    exact fun keyword => usable.free (mem_reservedWords_of_keyword name keyword)
  rw [← String.toList_inj, toList_ident, spelling_eq_self usable.spelled,
    escape_eq_self usable.nonempty usable.start free]

/-- A name has a usable identifier unless it is empty, one foreign character or an underscore, or
one of the words that are not guarded against.
-/
theorem isUsable_ident_iff (name : String)
    : IsUsable (ident name)
      ↔ name ≠ ""
        ∧ (∀ c, name.toList = [c] → c.isAlphanum = true)
        ∧ name ∉ unguardedWords := by
  have named : ident name = "_" ↔ name = "" ∨ ∃ c, name.toList = [c] ∧ c.isAlphanum = false := by
    have lone : "_".toList = ['_'] := rfl
    rw [← String.toList_inj, toList_ident, lone, escape_eq_underscore_iff,
      spelling_eq_underscore_iff, spelling, List.map_eq_nil_iff, String.toList_eq_nil_iff]
  have free : ident name ∈ reservedWords ↔ name ∈ unguardedWords := by
    rw [← String.ofList_toList (s := ident name), toList_ident, escape_mem_reservedWords_iff,
      spelling_mem_unguardedWords_iff]
  constructor
  · intro usable
    have other := mt named.mpr usable.named
    refine ⟨fun empty => other (.inl empty), fun c single => ?_, mt free.mpr usable.free⟩
    by_contra foreign
    exact other (.inr ⟨c, single, by simpa using foreign⟩)
  · rintro ⟨nonempty, single, guarded⟩
    refine ⟨isShaped_ident name, mt named.mp ?_, mt free.mp guarded⟩
    rintro (empty | ⟨c, shape, foreign⟩)
    · exact nonempty empty
    · rw [single c shape] at foreign
      cases foreign

-----------------------------------------------------------------------------------------
-- Names of groups
-----------------------------------------------------------------------------------------

/-- Nothing is left of a group's name if it has no letter and no digit. By induction on the name. -/
theorem joinedWords_eq_nil_iff {group : String}
    : joinedWords group = [] ↔ ∀ c ∈ group.toList, c.isAlphanum = false := by
  have capitalize_eq_nil (word : List Char) : capitalize word = [] ↔ word = [] := by
    cases word <;> simp [capitalize]
  simp only [joinedWords, List.flatMap_eq_nil_iff, capitalize_eq_nil]
  generalize group.toList = cs
  induction cs with
  | nil => simp [Text.cut]
  | cons c cs ih =>
      cases alphanum : c.isAlphanum with
      | false =>
          rw [Text.cut_cons_of_cut (by simp [alphanum])]
          simp [alphanum, ih]
      | true =>
          obtain ⟨piece, rest, -, whole⟩ :=
            @Text.cut_cons_of_not_cut c (fun c => !c.isAlphanum) (by simp [alphanum]) cs
          rw [whole]
          simp [alphanum]

/-- What is left of a group's name starts with no small letter. -/
theorem not_isLower_of_mem_head_joinedWords {group : String}
    : ∀ c ∈ (joinedWords group).head?, c.isLower = false := by
  unfold joinedWords
  generalize Text.cut (fun c => !c.isAlphanum) group.toList = words
  induction words with
  | nil => simp
  | cons word words ih =>
      rw [List.flatMap_cons]
      cases word with
      | nil => exact ih
      | cons first rest =>
          intro c head
          obtain rfl : first.toUpper = c := Option.some.inj head
          exact isLower_toUpper first

theorem isUsable_groupName_iff (group : String)
    : IsUsable (groupName group) ↔ ∃ c ∈ group.toList, c.isAlphanum = true := by
  have empty : String.ofList (joinedWords group) = "" ↔ joinedWords group = [] := by
    rw [← String.toList_inj, String.toList_ofList]
    rfl
  have someAlphanum : joinedWords group ≠ [] ↔ ∃ c ∈ group.toList, c.isAlphanum = true := by
    rw [ne_eq, joinedWords_eq_nil_iff]
    simp
  rw [groupName_eq, isUsable_ident_iff, ne_eq, empty, ← ne_eq, someAlphanum]
  refine and_iff_left ⟨fun c single => ?_, fun unguarded => ?_⟩
  · rw [String.toList_ofList] at single
    exact @isAlphanum_of_mem_joinedWords group c (by simp [single])
  · obtain ⟨c, rest, shape, lower⟩ := exists_head_of_mem_unguardedWords unguarded
    rw [String.toList_ofList] at shape
    rw [@not_isLower_of_mem_head_joinedWords group c (by simp [shape])] at lower
    cases lower

-----------------------------------------------------------------------------------------
-- All names
-----------------------------------------------------------------------------------------

/-- Identifiers have the form of one and are none of the words that they are guarded against. They
are usable but for the names that only an underscore stands for and the words that are forgotten,
usable names are kept as they are, and the name of a group is usable if it has a letter or a digit.
-/
theorem identifiers_usable (name group : String)
    : IsShaped (ident name).toList
      ∧ ident name ∉ keywords
      ∧ (IsUsable (ident name)
          ↔ name ≠ ""
            ∧ (∀ c, name.toList = [c] → c.isAlphanum = true)
            ∧ name ∉ unguardedWords)
      ∧ (IsUsable name → ident name = name)
      ∧ ident (ident name) = ident name
      ∧ (IsUsable (groupName group) ↔ ∃ c ∈ group.toList, c.isAlphanum = true) :=
  ⟨isShaped_ident name, ident_not_keyword name, isUsable_ident_iff name, IsUsable.ident_eq,
    ident_ident name, isUsable_groupName_iff group⟩

/-- A reserved word that is not guarded against, and names of which only an underscore is left. -/
theorem reservedDo_not_usable
    : ¬IsUsable (ident "do") ∧ ¬IsUsable (ident "") ∧ ¬IsUsable (groupName "_") := by
  refine ⟨fun usable => ?_, fun usable => ?_, fun usable => ?_⟩
  · exact usable.free (by decide +kernel)
  · exact usable.named (by decide +kernel)
  · exact usable.named (by decide +kernel)

end ApiBindings.Code
