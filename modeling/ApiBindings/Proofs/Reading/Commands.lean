import ApiBindings.Proofs.Reading.Headers
import ApiBindings.Proofs.Reading.Prototypes

/-! A header of one marked prototype records its command.
A marker has to be found in the statement as it is read: with its blanks collapsed, and without
the word `extern` in front. The command has the collapsed types of the prototype.
-/

namespace ApiBindings

namespace Text

/-- A text without blanks is one word. By induction on the text. -/
theorem words_of_solid {word : List Char} (nonempty : word ≠ [])
    (solid : ∀ c ∈ word, isBlank c = false)
    : words word = [word] := by
  induction word with
  | nil => exact absurd rfl nonempty
  | cons c rest ih =>
      obtain ⟨here, later⟩ := List.forall_mem_cons.mp solid
      cases rest with
      | nil => exact words_singleton here
      | cons d rest =>
          have next : StartsWord (d :: rest) := ⟨d, rest, rfl, later d List.mem_cons_self⟩
          obtain ⟨first, others, shape, longer⟩ := words_cons_of_startsWord here next
          rw [ih (List.cons_ne_nil d rest) later] at shape
          obtain ⟨rfl, rfl⟩ := List.cons.inj shape
          exact longer

end Text

namespace Header

open ApiBindings.Text

-----------------------------------------------------------------------------------------
-- Statements
-----------------------------------------------------------------------------------------

/-- Texts of the same words have the same signs but for blanks. -/
theorem IsStatement.of_words {front back : List Char} (statement : IsStatement back)
    (same : words front = words back)
    : IsStatement front := by
  intro c member cuts
  have apart : ∀ sign ∈ cuttingSigns, isBlank sign = false ∧ sign ≠ ' ' := by decide
  obtain ⟨solid, other⟩ := apart c cuts
  have kept := mem_collapse_of_mem member solid
  rw [collapse, same, ← collapse] at kept
  rcases mem_collapse kept with blank | ⟨inside, -⟩
  · exact other blank
  · exact statement c inside cuts

theorem Parameter.IsWritten.isStatement {param : Parameter} (written : param.IsWritten)
    : IsStatement param.text := by
  have lengths : IsStatement (brackets param.lengths) := by
    intro c member
    obtain ⟨length, among, member⟩ := List.mem_flatMap.mp member
    have opening : IsStatement ['['] := by decide
    have closing : IsStatement [']'] := by decide
    have inside := isTypeText_of_isWordChar (written.lengths length among)
    exact (opening.append inside.isStatement).append closing c member
  exact written.type.chars.isStatement.append
    ((isStatement_of_isIdentifier written.name).append lengths)

/-- Texts with a separator between them are a part of a statement if each of them and the separator
are. By induction on the texts.
-/
theorem isStatement_intercalate {separator : List Char} (between : IsStatement separator)
    {texts : List (List Char)} (each : ∀ text ∈ texts, IsStatement text)
    : IsStatement (separator.intercalate texts) := by
  induction texts with
  | nil => exact List.forall_mem_nil _
  | cons first rest ih =>
      obtain ⟨here, later⟩ := List.forall_mem_cons.mp each
      cases rest with
      | nil => simpa using here
      | cons second rest =>
          rw [List.intercalate_cons_cons]
          exact (here.append between).append (ih later)

theorem Function.IsWritten.isStatement {function : Function} (written : function.IsWritten)
    : IsStatement function.text := by
  have opening : IsStatement ['('] := by decide
  have closing : IsStatement [')'] := by decide
  have params : IsStatement function.inner :=
    isStatement_intercalate (by decide) (List.forall_mem_map.mpr fun param member =>
      (written.params param member).isStatement)
  exact written.returns.chars.isStatement.append
    ((isStatement_of_isIdentifier written.name).append ((opening.append params).append closing))

-----------------------------------------------------------------------------------------
-- Marked declarations
-----------------------------------------------------------------------------------------

/-- What the markers leave of a text. -/
def unmarked (markers : List Marker) (text : List Char) : List Char :=
  markers.foldl (fun text marker => marker.blank text) text

/-- A declaration in which a marker is found, and of which the markers leave the words of a text. -/
structure Leaves (markers : List Marker) (declaration text : List Char) : Prop where
  statement : IsStatement declaration
  plain : strip? "typedef ".toList (withoutExtern (collapse declaration)) = none
  found : ∃ marker ∈ markers, marker.isIn (withoutExtern (collapse declaration)) = true
  same : words (unmarked markers (withoutExtern (collapse declaration))) = words text

/-- A declaration in which a marker is found, and of which the markers leave a function. -/
structure IsMarked (markers : List Marker) (declaration : List Char) (function : Function)
    : Prop where
  statement : IsStatement declaration
  plain : strip? "typedef ".toList (withoutExtern (collapse declaration)) = none
  found : ∃ marker ∈ markers, marker.isIn (withoutExtern (collapse declaration)) = true
  leaves
    : words (unmarked markers (withoutExtern (collapse declaration))) = words function.text

theorem IsMarked.leaves_text {markers : List Marker} {declaration : List Char} {function : Function}
    (marked : IsMarked markers declaration function)
    : Leaves markers declaration function.text :=
  ⟨marked.statement, marked.plain, marked.found, marked.leaves⟩

/-- The command that a function is read as. -/
def Function.readAs (function : Function) (origin : Origin) (source : String) : Command :=
  .declare (String.ofList function.name) (String.ofList (collapse function.returns))
    (function.params.mapIdx fun index param => param.readAt index) origin source

section

variable {declaration text : List Char} {found : Prototype} {params : List Param}

/-- Without its markers, a declaration is read as the prototype that they leave. -/
theorem Leaves.readPrototype {context : Context}
    (leaves : Leaves context.dialect.markers declaration text)
    (prototype : prototype? (collapse text) = some found) (typed : found.returns.isEmpty = false)
    (read : readParams found.params = .ok params) (line : Nat)
    : readPrototype context line (withoutExtern (collapse declaration)) =
        { commands := [.declare (String.ofList found.name) (String.ofList found.returns) params
            context.origin context.source] } := by
  have left : collapse (unmarked context.dialect.markers (withoutExtern (collapse declaration))) =
      collapse text := by
    rw [collapse, leaves.same, ← collapse]
  rw [Header.readPrototype]
  dsimp only
  rw [← unmarked, left, prototype]
  dsimp only
  rw [typed, read]
  rfl

/-- What the markers leave has been in the declaration. -/
theorem Leaves.exists_mem {markers : List Marker} (leaves : Leaves markers declaration text)
    (starts : StartsWord text)
    : ∃ c ∈ withoutExtern (collapse declaration), isBlank c = false := by
  obtain ⟨c, rest, shape, solid⟩ := starts
  have inside : c ∈ collapse text :=
    mem_collapse_of_mem (Eq.mpr (congrArg (c ∈ ·) shape) List.mem_cons_self) solid
  rw [collapse, ← leaves.same, ← collapse] at inside
  have other : c ≠ ' ' := by
    rintro rfl
    cases solid
  have left := ((mem_collapse inside).resolve_left other).1
  exact ⟨c, (Marker.mem_foldl_blank left).resolve_left other, solid⟩

/-- A marked declaration is read as its prototype, whatever its layout. -/
theorem Leaves.readStatement {context : Context}
    (leaves : Leaves context.dialect.markers declaration text) (starts : StartsWord text)
    (prototype : prototype? (collapse text) = some found) (typed : found.returns.isEmpty = false)
    (read : readParams found.params = .ok params) (line : Nat) (scope : Constant.Scope)
    {raw : List Char} (same : words raw = words declaration)
    : readStatement context line scope raw =
        ({ commands := [.declare (String.ofList found.name) (String.ofList found.returns) params
            context.origin context.source] }, scope) := by
  have whole : collapse raw = collapse declaration := by
    rw [collapse, same, ← collapse]
  have statement : IsStatement (collapse declaration) :=
    leaves.statement.of_words (words_collapse _)
  have unbraced : (withoutExtern (collapse declaration)).contains '\x7b' = false := by
    rw [Bool.eq_false_iff]
    exact fun contains =>
      statement.ne (by decide) (mem_of_mem_withoutExtern (List.contains_iff_mem.mp contains))
  have marked : context.dialect.markers.any
      (fun marker => marker.isIn (withoutExtern (collapse declaration))) = true := by
    simpa using leaves.found
  have full : (withoutExtern (collapse declaration)).isEmpty = false := by
    obtain ⟨c, inside, solid⟩ := leaves.exists_mem starts
    simpa using List.ne_nil_of_mem inside
  have read := leaves.readPrototype prototype typed read line
  rw [withoutExtern] at unbraced marked full read
  have plain := leaves.plain
  rw [withoutExtern] at plain
  simp only [Header.readStatement, whole, plain, unbraced, marked, full, read, Option.isSome_none,
    Bool.and_false, Bool.not_false, Bool.and_true, Bool.false_eq_true, if_false, if_true]

/-- A header of one marked declaration records its command and nothing else. -/
theorem Leaves.read {dialect : Dialect} (leaves : Leaves dialect.markers declaration text)
    (starts : StartsWord text) (prototype : prototype? (collapse text) = some found)
    (typed : found.returns.isEmpty = false) (read : readParams found.params = .ok params)
    {fragment : Fragment} (shape : fragment.text.toList = declaration ++ [';'])
    {α : Type} {part : Findings.Part α} (skips : part.SkipsInterfaces)
    : part.of (Header.read dialect [fragment]).toFindings =
        part.of
          { commands := [.declare (String.ofList found.name) (String.ofList found.returns) params
              (fragment.role.origin dialect.api) fragment.name] } :=
  of_read_statement skips leaves.statement shape fun line scope _ same =>
    leaves.readStatement starts prototype typed read line scope same

/-- A header of one marked function records its command and nothing else. -/
theorem IsMarked.read {dialect : Dialect} {function : Function}
    (marked : IsMarked dialect.markers declaration function)
    (written : function.IsWritten) {fragment : Fragment}
    (shape : fragment.text.toList = declaration ++ [';'])
    {α : Type} {part : Findings.Part α} (skips : part.SkipsInterfaces)
    : part.of (Header.read dialect [fragment]).toFindings =
        part.of
          { commands := [function.readAs (fragment.role.origin dialect.api) fragment.name] } := by
  have prototype : prototype? (collapse function.text) = some {
      returns := trim function.collapsed.returns
      name := function.name
      params := function.collapsed.inner } := by
    rw [written.collapse_text]
    exact Function.prototype?_text written.collapsed
  have returns : trim function.collapsed.returns = collapse function.returns :=
    trim_collapseBefore function.returns
  rw [returns] at prototype
  have typed : (collapse function.returns).isEmpty = false := by
    simpa using written.returns.starts.collapse.ne_nil
  exact marked.leaves_text.read (written.returns.starts.append _) prototype typed
    (Function.readParams_inner written) shape skips

end

-----------------------------------------------------------------------------------------
-- Marks
-----------------------------------------------------------------------------------------

/-- A prototype behind its mark. -/
def marked (mark : List Char) (function : Function) : List Char :=
  mark ++ ' ' :: function.text

/-- A text that marks a prototype. It is spelled as it is found once blanks are collapsed, does not
start with a word by which statements are told apart first, and is in the statement only once.
-/
structure Marks (mark : List Char) (function : Function) : Prop where
  spelled : mark = collapse mark ∨ mark = collapse mark ++ [' ']
  nonempty : words mark ≠ []
  statement : IsStatement mark
  first : ∀ word ∈ (words mark).head?, word ≠ "extern".toList ∧ word ≠ "typedef".toList
  once : ∀ front back, collapse (marked mark function) = front ++ (mark ++ back) → front = []

/-- The command that a function declares. -/
def Function.declared (function : Function) (origin : Origin) (source : String) : Command :=
  .declare (String.ofList function.name) (String.ofList (collapse function.returns))
    (function.params.map Parameter.declared) origin source

section

variable {mark : List Char} {function : Function}

theorem words_marked (mark : List Char) (function : Function)
    : words (marked mark function) = words mark ++ words function.text :=
  words_append_cons_of_blank mark function.text (by decide)

theorem Marks.isStatement (marks : Marks mark function) (written : function.IsWritten)
    : IsStatement (marked mark function) := by
  have blank : IsStatement [' '] := by decide
  exact marks.statement.append (blank.append written.isStatement)

/-- The words of a marked statement are those of the mark and then those of the prototype. -/
theorem Marks.collapse_marked (marks : Marks mark function) (written : function.IsWritten)
    : collapse (marked mark function) = collapse mark ++ ' ' :: function.collapsed.text := by
  have behind : words function.text ≠ [] := (written.returns.starts.append _).words_ne_nil
  rw [marked, collapse_append_cons_of_blank mark function.text (by decide) marks.nonempty behind,
    written.collapse_text]

/-- The mark is in front of the statement, and only a prototype is left without it. -/
theorem Marks.exists_rest (marks : Marks mark function) (written : function.IsWritten)
    : ∃ rest,
        collapse (marked mark function) = mark ++ rest
        ∧ collapse (' ' :: rest) = function.collapsed.text := by
  have blank : isBlank ' ' = true := by decide
  have collapsed : collapse function.collapsed.text = function.collapsed.text := by
    rw [← written.collapse_text, collapse_collapse]
  rw [marks.collapse_marked written]
  rcases marks.spelled with spelled | spelled
  · refine ⟨' ' :: function.collapsed.text, by rw [← spelled], ?_⟩
    rw [collapse_cons_of_blank blank, collapse_cons_of_blank blank, collapsed]
  · refine ⟨function.collapsed.text, ?_, ?_⟩
    · calc
        collapse mark ++ ' ' :: function.collapsed.text
        _ = (collapse mark ++ [' ']) ++ function.collapsed.text := by simp
        _ = mark ++ function.collapsed.text := by rw [← spelled]
    · rw [collapse_cons_of_blank blank, collapsed]

/-- A statement does not start with a word that its mark does not start with. -/
theorem Marks.strip?_eq_none (marks : Marks mark function) (word : List Char)
    (nonempty : word ≠ []) (solid : ∀ c ∈ word, isBlank c = false)
    (other : ∀ first ∈ (words mark).head?, first ≠ word)
    : strip? (word ++ [' ']) (collapse (marked mark function)) = none := by
  cases stripped : strip? (word ++ [' ']) (collapse (marked mark function)) with
  | none => rfl
  | some rest =>
      have same : words mark ++ words function.text = word :: words rest := by
        rw [← words_marked, ← words_collapse, eq_append_of_strip? stripped, List.append_assoc,
          List.singleton_append, words_append_cons_of_blank word rest (by decide),
          words_of_solid nonempty solid]
        rfl
      obtain ⟨first, others, shape⟩ := List.exists_cons_of_ne_nil marks.nonempty
      rw [shape, List.cons_append] at same
      refine absurd (List.cons.inj same).1 (other first ?_)
      rw [shape]
      rfl

/-- A text in front of a function marks it, if the other markers are not found behind it. -/
theorem Marks.isMarked (marks : Marks mark function) (written : function.IsWritten)
    {others : List Marker}
    (absent
      : ∀ other ∈ others,
          other.isIn ((Marker.literal mark).blank (collapse (marked mark function))) = false)
    {declaration : List Char} (layout : words declaration = words (marked mark function))
    : IsMarked (.literal mark :: others) declaration function := by
  obtain ⟨rest, shape, left⟩ := marks.exists_rest written
  have nonempty : mark ≠ [] := by
    rintro rfl
    exact marks.nonempty rfl
  have blanked : (Marker.literal mark).blank (collapse (marked mark function)) = ' ' :: rest := by
    rw [shape]
    exact Marker.blank_literal nonempty fun front back same =>
      marks.once front back (shape.trans same)
  have notExtern : strip? "extern ".toList (collapse (marked mark function)) = none :=
    marks.strip?_eq_none "extern".toList (by decide) (by decide)
      fun first member => (marks.first first member).1
  have notTypedef : strip? "typedef ".toList (collapse (marked mark function)) = none :=
    marks.strip?_eq_none "typedef".toList (by decide) (by decide)
      fun first member => (marks.first first member).2
  have whole : withoutExtern (collapse declaration) = collapse (marked mark function) := by
    rw [collapse, layout, ← collapse, withoutExtern, notExtern]
    rfl
  rw [blanked] at absent
  constructor
  · exact (marks.isStatement written).of_words layout
  · rw [whole, notTypedef]
  · refine ⟨_, List.mem_cons_self, ?_⟩
    rw [whole, shape, Marker.isIn_literal]
  · rw [whole, unmarked, List.foldl_cons, blanked, Marker.foldl_blank_eq_self absent,
      ← words_collapse, left, ← written.collapse_text, words_collapse]

/-- A header of one function behind its mark records the command that the function declares and
nothing else.
-/
theorem read_marked (marks : Marks mark function) (proper : function.IsProper)
    {dialect : Dialect} {others : List Marker} (markers : dialect.markers = .literal mark :: others)
    (absent
      : ∀ other ∈ others,
          other.isIn ((Marker.literal mark).blank (collapse (marked mark function))) = false)
    {fragment : Fragment} {declaration : List Char}
    (written : fragment.text.toList = declaration ++ [';'])
    (layout : words declaration = words (marked mark function))
    : (read dialect [fragment]).enums = []
      ∧ (read dialect [fragment]).commands
        = [function.declared (fragment.role.origin dialect.api) fragment.name] := by
  have isMarked : IsMarked dialect.markers declaration function :=
    markers ▸ marks.isMarked proper.isWritten absent layout
  have declared (origin : Origin) (source : String)
      : function.readAs origin source = function.declared origin source := by
    rw [Function.readAs, Function.declared, proper.readAt]
  have enums : Findings.Part.enums.SkipsInterfaces := fun _ _ => rfl
  have commands : Findings.Part.commands.SkipsInterfaces := fun _ _ => rfl
  refine ⟨isMarked.read proper.isWritten written enums, ?_⟩
  rw [← declared]
  exact isMarked.read proper.isWritten written commands

end

end Header

end ApiBindings
