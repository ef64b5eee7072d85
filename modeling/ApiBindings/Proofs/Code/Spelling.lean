import ApiBindings.Code.Spelling
import ApiBindings.Proofs.Reading.Parameters
import ApiBindings.Proofs.Reading.Seams

/-! C types are read as they are written, in whatever layout.
The constness of a level stands somewhere between the star of that level and the one below it, or
around the base if there is none below. How a value of the type is passed and how the type is
spelled are both taken from the outermost level, so they agree.
-/

namespace ApiBindings

open ApiBindings.Text

namespace CType

-----------------------------------------------------------------------------------------
-- Layout
-----------------------------------------------------------------------------------------

/-- A word that no blank and no star parts. -/
structure IsWord (word : String) : Prop where
  nonempty : word.toList ≠ []
  solid : ∀ c ∈ word.toList, isBlank c = false
  unstarred : '*' ∉ word.toList

/-- A text of words and stars. There is a blank between any two words, and there may be more of them
anywhere.
-/
inductive LaysOut : List String → List Char → Prop where
  | ends {gap : List Char} (blank : ∀ c ∈ gap, isBlank c = true) : LaysOut [] gap
  | star {gap rest : List Char} {words : List String} (blank : ∀ c ∈ gap, isBlank c = true)
    (later : LaysOut words rest)
    : LaysOut ("*" :: words) (gap ++ '*' :: rest)
  | word {gap rest : List Char} {word : String} {words : List String}
    (blank : ∀ c ∈ gap, isBlank c = true) (isWord : IsWord word)
    (apart : ∀ c ∈ rest.head?, isBlank c = true ∨ c = '*') (later : LaysOut words rest)
    : LaysOut (word :: words) (gap ++ (word.toList ++ rest))

theorem spaced_append (front back : List Char)
    : spaced (front ++ back) = spaced front ++ spaced back :=
  List.flatMap_append

theorem spaced_eq_self {text : List Char} (unstarred : '*' ∉ text) : spaced text = text := by
  induction text with
  | nil => rfl
  | cons c text ih =>
      obtain ⟨other, unstarred⟩ := List.ne_and_not_mem_of_not_mem_cons unstarred
      rw [spaced_cons_of_ne other.symm, ih unstarred]

theorem words_spaced_blanks {gap : List Char} (blank : ∀ c ∈ gap, isBlank c = true)
    (text : List Char)
    : words (spaced (gap ++ text)) = words (spaced text) := by
  have unstarred : '*' ∉ gap := fun member => absurd (blank _ member) (by decide)
  rw [spaced_append, spaced_eq_self unstarred, words_append_of_blank blank]

/-- A word is read up to the blank or the star behind it. -/
theorem words_spaced_word {word : String} (isWord : IsWord word) {rest : List Char}
    (apart : ∀ c ∈ rest.head?, isBlank c = true ∨ c = '*')
    : words (spaced (word.toList ++ rest)) = word.toList :: words (spaced rest) := by
  have alone := words_of_solid isWord.nonempty isWord.solid
  rw [spaced_append, spaced_eq_self isWord.unstarred]
  cases rest with
  | nil => rw [spaced, List.flatMap_nil, List.append_nil, alone]; rfl
  | cons c rest =>
      rcases apart c rfl with blank | rfl
      · rw [spaced_cons_of_ne (ne_star_of_isBlank blank), words_append_cons_of_blank _ _ blank, alone,
          words_cons_of_blank blank]
        rfl
      · rw [spaced_star, words_append_cons_of_blank _ _ isBlank_space, alone,
          words_cons_of_blank isBlank_space]
        rfl

/-- A text is read into the words and stars that it is made of. By induction on the text. -/
theorem LaysOut.wordsOf_eq {words : List String} {text : List Char} (laidOut : LaysOut words text)
    : wordsOf (String.ofList text) = words := by
  have unfolded (text : List Char)
      : wordsOf (String.ofList text) = (Text.words (spaced text)).map String.ofList := by
    rw [wordsOf, String.toList_ofList]
    rfl
  induction laidOut with
  | ends blank =>
      have nothing := words_spaced_blanks blank []
      rw [List.append_nil] at nothing
      rw [unfolded, nothing]
      rfl
  | star blank later ih =>
      rw [unfolded] at ih ⊢
      rw [words_spaced_blanks blank, words_spaced_star, List.map_cons, ih]
  | word blank isWord apart later ih =>
      rw [unfolded] at ih ⊢
      rw [words_spaced_blanks blank, words_spaced_word isWord apart, List.map_cons, ih,
        String.ofList_toList]

/-- All that is in a text are blanks, stars and words. -/
theorem LaysOut.mem_cases {words : List String} {text : List Char} (laidOut : LaysOut words text)
    {c : Char} (member : c ∈ text)
    : isBlank c = true ∨ c = '*' ∨ ∃ word ∈ words, c ∈ word.toList := by
  have later {first : String} {words : List String} (inside : ∃ word ∈ words, c ∈ word.toList)
      : ∃ word ∈ first :: words, c ∈ word.toList := by
    obtain ⟨word, among, inside⟩ := inside
    exact ⟨word, List.mem_cons_of_mem first among, inside⟩
  induction laidOut with
  | ends blank => exact .inl (blank c member)
  | star blank _ ih =>
      rcases List.mem_append.mp member with gap | member
      · exact .inl (blank c gap)
      rcases List.mem_cons.mp member with rfl | member
      · exact .inr (.inl rfl)
      exact (ih member).imp_right (Or.imp_right later)
  | @word gap rest word words blank isWord apart _ ih =>
      rcases List.mem_append.mp member with gap | member
      · exact .inl (blank c gap)
      rcases List.mem_append.mp member with inside | member
      · exact .inr (.inr ⟨word, List.mem_cons_self, inside⟩)
      exact (ih member).imp_right (Or.imp_right later)

-----------------------------------------------------------------------------------------
-- Words
-----------------------------------------------------------------------------------------

/-- The words by which what stands before the next star is constant. -/
def isConst (word : String) : Bool :=
  word == "const" || word == "CONST"

theorem isConst_iff {word : String} : isConst word = true ↔ word = "const" ∨ word = "CONST" := by
  simp [isConst]

theorem mem_qualifiers_of_isConst {word : String} (const : isConst word = true)
    : word ∈ qualifiers := by
  rcases isConst_iff.mp const with rfl | rfl <;> decide

/-- What may stand behind a star: qualifiers, and further stars with a flag for each of them. A flag
tells whether what the star points to is constant, so whether that is said since the star before.
-/
inductive WritesLevels : List Bool → List String → Prop where
  | last {behind : List String} (only : ∀ word ∈ behind, word ∈ qualifiers)
    : WritesLevels [] behind
  | level {behind rest : List String} {flags : List Bool} (only : ∀ word ∈ behind, word ∈ qualifiers)
    (later : WritesLevels flags rest)
    : WritesLevels (behind.any isConst :: flags) (behind ++ "*" :: rest)

/-- How a type may be written: the words of its base among qualifiers, and its levels of
indirection, the innermost first.
-/
inductive Writes (base : List String) : List Bool → List String → Prop where
  | value {front : List String} (named : front.filter (!qualifiers.contains ·) = base)
    : Writes base [] front
  | pointer {front rest : List String} {flags : List Bool}
    (named : front.filter (!qualifiers.contains ·) = base) (later : WritesLevels flags rest)
    : Writes base (front.any isConst :: flags) (front ++ "*" :: rest)

/-- A base that can be told from what surrounds it. -/
structure IsBase (base : List String) : Prop where
  nonempty : base ≠ []
  words : ∀ word ∈ base, IsWord word
  plain : ∀ word ∈ base, '(' ∉ word.toList

namespace Reading

variable {p : Reading} {behind front : List String}

theorem read_star (p : Reading)
    : p.read "*" = { p with levels := p.levels ++ [p.pending], pending := false } :=
  if_pos rfl

theorem read_isConst {word : String} (const : isConst word = true) (p : Reading)
    : p.read word = { p with pending := true } := by
  rcases isConst_iff.mp const with rfl | rfl <;> rfl

theorem read_qualifier {word : String} (qualifies : word ∈ qualifiers)
    (other : isConst word = false) (p : Reading)
    : p.read word = p := by
  have apart : ¬(word = "const" ∨ word = "CONST") := mt isConst_iff.mpr (by simp [other])
  have star : word ≠ "*" := by
    rintro rfl
    exact absurd qualifies (by decide)
  rw [read, if_neg star, if_neg apart, if_pos (by simp [qualifies])]

theorem read_name {word : String} (name : word ∉ qualifiers) (star : word ≠ "*")
    (outermost : p.levels = [])
    : p.read word = { p with base := p.base ++ [word] } := by
  have other : ¬(word = "const" ∨ word = "CONST") := fun either =>
    name (mem_qualifiers_of_isConst (isConst_iff.mpr either))
  rw [read, if_neg star, if_neg other, if_neg (by simp [name, outermost])]

/-- Of qualifiers only constness is kept. By induction on them. -/
theorem foldl_read_qualifiers (only : ∀ word ∈ behind, word ∈ qualifiers) (p : Reading)
    : behind.foldl read p = { p with pending := p.pending || behind.any isConst } := by
  induction behind generalizing p with
  | nil => simp
  | cons word behind ih =>
      obtain ⟨here, only⟩ := List.forall_mem_cons.mp only
      rw [List.foldl_cons, ih only]
      cases const : isConst word with
      | true => simp [read_isConst const, const]
      | false => simp [read_qualifier here const, const]

/-- Around a base its words are kept, and constness. By induction on the words. -/
theorem foldl_read_front (unstarred : "*" ∉ front) (base : List String) (pending : Bool)
    : front.foldl read { base, pending } = {
        base := base ++ front.filter (!qualifiers.contains ·)
        pending := pending || front.any isConst } := by
  induction front generalizing base pending with
  | nil => simp
  | cons word front ih =>
      obtain ⟨other, unstarred⟩ := List.ne_and_not_mem_of_not_mem_cons unstarred
      rw [List.foldl_cons]
      by_cases qualifies : word ∈ qualifiers
      · cases const : isConst word with
        | true =>
            rw [read_isConst const, ih unstarred]
            simp [qualifies, const]
        | false =>
            rw [read_qualifier qualifies const, ih unstarred]
            simp [qualifies, const]
      · have const : isConst word = false :=
          Bool.eq_false_iff.mpr (mt mem_qualifiers_of_isConst qualifies)
        rw [read_name qualifies other.symm rfl, ih unstarred]
        simp [qualifies, const]

/-- Behind a star one level is read after the other. By induction on the levels. -/
theorem levels_foldl_read {flags : List Bool} {words : List String}
    (writes : WritesLevels flags words) (base : List String) (levels : List Bool)
    : (words.foldl read { base, levels }).base = base
      ∧ (words.foldl read { base, levels }).levels = levels ++ flags := by
  induction writes generalizing levels with
  | last only => simp [foldl_read_qualifiers only]
  | @level behind rest flags only later ih =>
      have read : behind.foldl read { base, levels }
          = { base, levels, pending := behind.any isConst } := by
        rw [foldl_read_qualifiers only, Bool.false_or]
      rw [List.foldl_append, List.foldl_cons, read, read_star]
      simpa using ih (levels ++ [behind.any isConst])

/-- A level is read for each star. By induction on the words. -/
theorem length_levels_foldl_read (words : List String) (p : Reading)
    : (words.foldl read p).levels.length = p.levels.length + words.count "*" := by
  have other (p : Reading) {word : String} (other : word ≠ "*")
      : (p.read word).levels = p.levels := by
    rw [read, if_neg other]
    split
    · rfl
    · split <;> rfl
  induction words generalizing p with
  | nil => rfl
  | cons word words ih =>
      rw [List.foldl_cons, ih]
      by_cases star : word = "*"
      · subst star
        rw [read_star, List.length_append, List.count_cons_self, List.length_singleton]
        omega
      · rw [other p star, List.count_cons_of_ne star]

end Reading

-----------------------------------------------------------------------------------------
-- Types
-----------------------------------------------------------------------------------------

section

variable {base words : List String} {flags : List Bool} {text : List Char}

theorem IsBase.star_not_mem (isBase : IsBase base) {front : List String}
    (named : front.filter (!qualifiers.contains ·) = base)
    : "*" ∉ front := by
  intro member
  have inside : "*" ∈ base := by
    rw [← named]
    exact List.mem_filter.mpr ⟨member, by decide⟩
  exact (isBase.words "*" inside).unstarred (by decide)

/-- No word of a type that is written so has a parenthesis. -/
theorem Writes.not_mem (writes : Writes base flags words) (isBase : IsBase base)
    : ∀ word ∈ words, '(' ∉ word.toList := by
  have plain : ∀ word ∈ qualifiers, '(' ∉ word.toList := by decide
  have front {front : List String} (named : front.filter (!qualifiers.contains ·) = base)
      : ∀ word ∈ front, '(' ∉ word.toList := by
    intro word member
    by_cases qualifies : word ∈ qualifiers
    · exact plain word qualifies
    · refine isBase.plain word ?_
      rw [← named]
      exact List.mem_filter.mpr ⟨member, by simpa using qualifies⟩
  have levels {flags : List Bool} {rest : List String} (writes : WritesLevels flags rest)
      : ∀ word ∈ "*" :: rest, '(' ∉ word.toList := by
    induction writes with
    | last only =>
        exact List.forall_mem_cons.mpr ⟨by decide, fun word member => plain word (only word member)⟩
    | level only later ih =>
        refine List.forall_mem_cons.mpr ⟨by decide, List.forall_mem_append.mpr ⟨?_, ih⟩⟩
        exact fun word member => plain word (only word member)
  cases writes with
  | value named => exact front named
  | pointer named later => exact List.forall_mem_append.mpr ⟨front named, levels later⟩

/-- A type is read as its base and one level for each flag. -/
theorem Writes.parse_eq (writes : Writes base flags words) (isBase : IsBase base)
    (laidOut : LaysOut words text)
    : parse (String.ofList text) = { base, levels := flags, isFunction := false } := by
  have value : text.contains '(' = false := by
    rw [Bool.eq_false_iff]
    intro contains
    rcases laidOut.mem_cases (List.contains_iff_mem.mp contains) with blank | star | inside
    · cases blank
    · cases star
    · obtain ⟨word, among, inside⟩ := inside
      exact writes.not_mem isBase word among inside
  rw [parse, laidOut.wordsOf_eq, String.toList_ofList, value]
  cases writes with
  | value named =>
      have around := Reading.foldl_read_front (isBase.star_not_mem named) [] false
      rw [named] at around
      simp only [around, List.nil_append]
  | @pointer front rest flags named later =>
      have around := Reading.foldl_read_front (isBase.star_not_mem named) [] false
      rw [named, List.nil_append, Bool.false_or] at around
      obtain ⟨kept, behind⟩ := Reading.levels_foldl_read later base [front.any isConst]
      rw [List.foldl_append, List.foldl_cons, around, Reading.read_star]
      simp only [List.nil_append, kept, behind, List.singleton_append]

theorem mem_unwords {words : List (List Char)} {word : List Char} {c : Char} (among : word ∈ words)
    (inside : c ∈ word)
    : c ∈ unwords words := by
  induction words with
  | nil => cases among
  | cons first rest ih =>
      cases rest with
      | nil =>
          obtain rfl := List.mem_singleton.mp among
          simpa [unwords] using inside
      | cons second rest =>
          rw [unwords_cons_cons]
          rcases List.mem_cons.mp among with rfl | among
          · exact List.mem_append_left _ inside
          · exact List.mem_append_right _ (List.mem_cons_of_mem _ (ih among))

/-- There is a level of indirection exactly if there is a star. -/
theorem levels_eq_nil_iff (text : List Char)
    : (parse (String.ofList text)).levels = [] ↔ '*' ∉ text := by
  have count : (parse (String.ofList text)).levels.length =
      (wordsOf (String.ofList text)).count "*" := by
    rw [parse, Reading.length_levels_foldl_read]
    exact Nat.zero_add _
  rw [← List.length_eq_zero_iff, count, List.count_eq_zero, not_iff_not, wordsOf,
    String.toList_ofList]
  constructor
  · intro member
    obtain ⟨word, among, same⟩ := List.mem_map.mp member
    obtain rfl : word = ['*'] := by simpa using congrArg String.toList same
    have inside : '*' ∈ collapse (spaced text) := mem_unwords among List.mem_cons_self
    rcases mem_collapse inside with space | ⟨inside, -⟩
    · cases space
    by_contra unstarred
    rw [spaced_eq_self unstarred] at inside
    exact unstarred inside
  · intro member
    obtain ⟨front, back, rfl⟩ := List.append_of_mem member
    refine List.mem_map.mpr ⟨['*'], ?_, rfl⟩
    change ['*'] ∈ Text.words (spaced (front ++ '*' :: back))
    rw [spaced_append, spaced_star, words_append_cons_of_blank _ _ isBlank_space,
      words_cons_cons_of_blank (by decide) isBlank_space]
    simp

end

-----------------------------------------------------------------------------------------
-- Spelling
-----------------------------------------------------------------------------------------

/-- How a base is spelled, directly or behind stars. -/
def spelledBase (path : String) (base : List String) (behind : Bool) : String :=
  if base = ["void"] then
    if behind then "raw::c_void" else "()"
  else
    match Code.primitives.lookup (" ".intercalate base) with
    | some spelling => spelling
    | none => path ++ base.getLastD ""

section

variable {base words : List String} {flags : List Bool} {text : String}

/-- The words of a base can be read back from its name. By induction on them. -/
theorem words_intercalate (isWord : ∀ word ∈ base, IsWord word)
    : Text.words (" ".intercalate base).toList = base.map String.toList := by
  have parts : (" ".intercalate base).toList = unwords (base.map String.toList) :=
    String.toList_intercalate
  rw [parts]
  induction base with
  | nil => rfl
  | cons first rest ih =>
      obtain ⟨here, later⟩ := List.forall_mem_cons.mp isWord
      have alone := words_of_solid here.nonempty here.solid
      cases rest with
      | nil => simpa [unwords] using alone
      | cons second rest =>
          rw [List.map_cons, List.map_cons, unwords_cons_cons,
            words_append_cons_of_blank _ _ isBlank_space, alone, ← List.map_cons, ih later
              String.toList_intercalate]
          rfl

theorem IsBase.name_eq_void_iff (isBase : IsBase base)
    : " ".intercalate base = "void" ↔ base = ["void"] := by
  constructor
  · intro same
    have read := words_intercalate isBase.words
    rw [same] at read
    have void : Text.words "void".toList = ["void"].map String.toList := by decide
    have injective : Function.Injective String.toList := fun _ _ => String.toList_injective
    exact injective.list_map (read.symm.trans void)
  · rintro rfl
    rfl

theorem IsBase.name_ne_empty (isBase : IsBase base) : " ".intercalate base ≠ "" := by
  intro same
  have read := words_intercalate isBase.words
  rw [same] at read
  exact isBase.nonempty (List.map_eq_nil_iff.mp read.symm)

theorem IsBase.spellBase_eq (isBase : IsBase base) (path : String) (flags : List Bool)
    : Code.spellBase path { base, levels := flags, isFunction := false }
        = spelledBase path base (!flags.isEmpty) := by
  have name (levels : List Bool)
      : ({ base, levels, isFunction := false } : CType).baseName = " ".intercalate base := rfl
  rw [Code.spellBase, spelledBase, name]
  by_cases void : base = ["void"]
  · rw [if_pos (.inl (isBase.name_eq_void_iff.mpr void)), if_pos void]
    cases flags <;> rfl
  · have named : ¬(" ".intercalate base = "void" ∨ " ".intercalate base = "") :=
      not_or.mpr ⟨mt isBase.name_eq_void_iff.mp void, isBase.name_ne_empty⟩
    exact (if_neg named).trans (if_neg void).symm

/-- Each level of indirection is spelled by five characters at least. By induction on the levels. -/
theorem length_foldl_point (levels : List Bool) (spelling : String)
    : spelling.length + 5 * levels.length ≤ (levels.foldl Code.point spelling).length := by
  induction levels generalizing spelling with
  | nil => exact le_rfl
  | cons isConst levels ih =>
      have longer : spelling.length + 5 ≤ (Code.point spelling isConst).length := by
        have sign : 5 ≤ (if isConst then "*const " else "*mut ").length := by
          cases isConst <;> decide
        rw [Code.point, String.length_append]
        omega
      have := ih (Code.point spelling isConst)
      rw [List.foldl_cons, List.length_cons]
      omega

/-- The outermost level is the first that is spelled. -/
theorem const_prefix_iff (levels : List Bool) (outermost : Bool) (spelling : String)
    : "*const ".toList <+: ((levels ++ [outermost]).foldl Code.point spelling).toList
        ↔ outermost = true := by
  rw [List.foldl_concat, Code.point, String.toList_append]
  cases outermost with
  | true => exact iff_of_true (List.prefix_append _ _) rfl
  | false =>
      refine iff_of_false ?_ Bool.false_ne_true
      rintro ⟨rest, same⟩
      exact absurd (List.cons.inj (List.cons.inj same).2).1 (by decide)

theorem spell_eq_mut_void_iff {type : CType} (value : type.isFunction = false)
    (void : type.baseName = "void") (path : String)
    : Code.spell path type = "*mut raw::c_void" ↔ type.levels = [false] := by
  rw [Code.spell, value, if_neg Bool.false_ne_true, Code.spellBase, if_pos (.inl void)]
  rcases type.levels with _ | ⟨isConst, _ | ⟨second, levels⟩⟩
  · decide
  · cases isConst <;> decide
  · refine iff_of_false (fun same => ?_) (by simp)
    have long := length_foldl_point (isConst :: second :: levels) "raw::c_void"
    have short : "*mut raw::c_void".length = "raw::c_void".length + 5 := by decide
    rw [if_neg (by simp)] at same
    rw [same, short, List.length_cons, List.length_cons] at long
    omega

end

-----------------------------------------------------------------------------------------
-- Direction
-----------------------------------------------------------------------------------------

section

variable {type : CType} {inner : List Bool} {outermost : Bool}

theorem passing_eq_value_iff (type : CType)
    : type.passing = .value ↔ type.levels = [] ∨ type.isFunction = true := by
  rcases List.eq_nil_or_concat' type.levels with none | ⟨inner, outermost, shape⟩
  · simp [passing, none]
  · rw [passing, shape, List.getLast?_concat]
    cases value : type.isFunction with
    | true => simp
    | false =>
        refine iff_of_false ?_ (by simp)
        cases outermost with
        | true => simp
        | false =>
            by_cases void : type.baseName = "void" ∧ type.depth = 1
            · simp [void]
            · simp [void]

theorem passing_eq_input_iff (value : type.isFunction = false)
    (shape : type.levels = inner ++ [outermost])
    : type.passing = .input ↔ outermost = true := by
  rw [passing, shape, List.getLast?_concat]
  cases outermost with
  | true => simp [value]
  | false => by_cases void : type.baseName = "void" ∧ type.depth = 1 <;> simp [value, void]

theorem passing_eq_both_iff (value : type.isFunction = false)
    (shape : type.levels = inner ++ [outermost])
    : type.passing = .both ↔ type.baseName = "void" ∧ type.levels = [false] := by
  have depth : type.depth = inner.length + 1 := by simp [CType.depth, shape]
  rw [passing, shape, List.getLast?_concat]
  cases outermost with
  | true =>
      have other : inner ++ [true] ≠ [false] := by
        intro same
        have last := congrArg List.getLast? same
        rw [List.getLast?_concat] at last
        cases last
      simp [value, other]
  | false => by_cases void : type.baseName = "void" <;> simp [value, void, depth]

end

-----------------------------------------------------------------------------------------
-- Reading and spelling
-----------------------------------------------------------------------------------------

/-- A type is read as it is written and spelled as it is read. How a value of any type is passed is
what its spelling says: the direction that a log shows is that of the binding.
-/
theorem reads_as_written (path : String)
    : (∀ {base words : List String} {flags : List Bool} {text : String}, IsBase base →
        Writes base flags words → LaysOut words text.toList →
        (parse text).depth = flags.length
          ∧ (parse text).baseName = " ".intercalate base
          ∧ Code.spell path (parse text)
            = flags.foldl (fun inner isConst => (if isConst then "*const " else "*mut ") ++ inner)
              (spelledBase path base (!flags.isEmpty)))
      ∧ ∀ text : String,
        ((parse text).passing = .value ↔ '*' ∉ text.toList ∨ '(' ∈ text.toList)
          ∧ ('*' ∈ text.toList → '(' ∉ text.toList →
            ((parse text).passing = .input
                ↔ "*const ".toList <+: (Code.spell path (parse text)).toList)
              ∧ ((parse text).passing = .both
                ↔ (parse text).baseName = "void" ∧ (parse text).levels = [false])
              ∧ ((parse text).passing = .both
                ↔ (parse text).baseName = "void"
                  ∧ Code.spell path (parse text) = "*mut raw::c_void")) := by
  refine ⟨fun {base words flags text} isBase writes laidOut => ?_, fun text => ?_⟩
  · have read := writes.parse_eq isBase laidOut
    rw [String.ofList_toList] at read
    rw [read]
    refine ⟨rfl, rfl, ?_⟩
    rw [Code.spell, if_neg Bool.false_ne_true, isBase.spellBase_eq]
    rfl
  have isFunction : (parse text).isFunction = text.toList.contains '(' := rfl
  have none := levels_eq_nil_iff text.toList
  rw [String.ofList_toList] at none
  refine ⟨?_, fun starred plain => ?_⟩
  · rw [passing_eq_value_iff, none, isFunction, List.contains_iff_mem]
  have value : (parse text).isFunction = false := by
    rw [isFunction, Bool.eq_false_iff]
    exact mt List.contains_iff_mem.mp plain
  have some : (parse text).levels ≠ [] := fun empty => none.mp empty starred
  obtain ⟨inner, outermost, shape⟩ := (List.eq_nil_or_concat' _).resolve_left some
  have spelled : Code.spell path (parse text)
      = (inner ++ [outermost]).foldl Code.point (Code.spellBase path (parse text)) := by
    rw [Code.spell, value, if_neg Bool.false_ne_true, shape]
  refine ⟨?_, passing_eq_both_iff value shape, ?_⟩
  · rw [passing_eq_input_iff value shape, spelled, const_prefix_iff]
  · rw [passing_eq_both_iff value shape]
    exact and_congr_right fun void => (spell_eq_mut_void_iff value void path).symm

/-- Two pointers to constant numbers, with blanks and qualifiers wherever they may stand. -/
def restrictedText : String :=
  "const unsigned  int *restrict* const"

def restrictedWords : List String :=
  ["const", "unsigned", "int", "*", "restrict", "*", "const"]

theorem restrictedText_laysOut : LaysOut restrictedWords restrictedText.toList := by
  have solid (word : String) (some : word.toList ≠ [] := by decide)
      (solid : ∀ c ∈ word.toList, isBlank c = false := by decide)
      (unstarred : '*' ∉ word.toList := by decide)
      : IsWord word :=
    ⟨some, solid, unstarred⟩
  have none : ∀ c ∈ [], isBlank c = true := List.forall_mem_nil _
  have one : ∀ c ∈ [' '], isBlank c = true := by decide
  have two : ∀ c ∈ [' ', ' '], isBlank c = true := by decide
  have last := LaysOut.word one (solid "const") (by decide) (.ends none)
  have outer := LaysOut.star none last
  have qualifier := LaysOut.word none (solid "restrict") (by decide) outer
  have inner := LaysOut.star one qualifier
  have int := LaysOut.word two (solid "int") (by decide) inner
  have unsigned := LaysOut.word one (solid "unsigned") (by decide) int
  exact LaysOut.word none (solid "const") (by decide) unsigned

theorem restrictedText_reads
    : IsBase ["unsigned", "int"]
      ∧ Writes ["unsigned", "int"] [true, false] restrictedWords
      ∧ LaysOut restrictedWords restrictedText.toList
      ∧ (parse restrictedText).depth = 2
      ∧ (parse restrictedText).baseName = "unsigned int"
      ∧ Code.spell "types::" (parse restrictedText) = "*mut *const raw::c_uint"
      ∧ '*' ∈ restrictedText.toList
      ∧ '(' ∉ restrictedText.toList
      ∧ (parse restrictedText).passing ≠ .value
      ∧ (parse restrictedText).passing ≠ .input
      ∧ (parse restrictedText).passing ≠ .both := by
  have isBase : IsBase ["unsigned", "int"] := {
    nonempty := by decide
    words := List.forall_mem_cons.mpr ⟨⟨by decide, by decide, by decide⟩,
      List.forall_mem_singleton.mpr ⟨by decide, by decide, by decide⟩⟩
    plain := by decide }
  have levels : WritesLevels [false] ["restrict", "*", "const"] :=
    @WritesLevels.level ["restrict"] _ _ (by decide) (.last (by decide))
  have writes : Writes ["unsigned", "int"] [true, false] restrictedWords :=
    @Writes.pointer _ ["const", "unsigned", "int"] _ _ (by decide) levels
  have starred : '*' ∈ restrictedText.toList := by decide
  have plain : '(' ∉ restrictedText.toList := by decide
  obtain ⟨written, direction⟩ := reads_as_written "types::"
  obtain ⟨depth, name, spelled⟩ := written isBase writes restrictedText_laysOut
  obtain ⟨value, pointer⟩ := direction restrictedText
  obtain ⟨input, -, both⟩ := pointer starred plain
  have spelled : Code.spell "types::" (parse restrictedText) = "*mut *const raw::c_uint" :=
    spelled.trans (by decide)
  refine ⟨isBase, writes, restrictedText_laysOut, depth, name, spelled, starred, plain, ?_, ?_, ?_⟩
  · exact mt value.mp (not_or.mpr ⟨not_not.mpr starred, plain⟩)
  · rw [Ne, input, spelled]
    decide
  · rw [Ne, both, spelled]
    exact fun same => absurd same.2 (by decide)

end CType

end ApiBindings
