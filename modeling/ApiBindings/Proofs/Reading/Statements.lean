import ApiBindings.Header.Source
import ApiBindings.Header.Item
import ApiBindings.Proofs.Text.Layout

/-! A header of one statement is cut into that statement.
A statement need not stand on one line. Nothing in it is taken for a comment, a directive, a
continued line or a brace, so all that changes on the way is the layout of its lines, and its words
stay.
-/

namespace ApiBindings

namespace Text

-----------------------------------------------------------------------------------------
-- Lines
-----------------------------------------------------------------------------------------

/-- Lines with a line break between any two of them. -/
def joinedLines (lines : List (List Char)) : List Char :=
  ['\n'].intercalate lines

theorem joinedLines_cons_cons (first second : List Char) (rest : List (List Char))
    : joinedLines (first :: second :: rest) = first ++ '\n' :: joinedLines (second :: rest) := by
  simp [joinedLines, List.intercalate, List.intersperse]

/-- A text is its lines put together again, by induction on the text. -/
theorem joinedLines_cut (cs : List Char) : joinedLines (cut isBreak cs) = cs := by
  induction cs with
  | nil => rfl
  | cons c rest ih =>
      cases cuts : isBreak c with
      | true =>
          obtain rfl : c = '\n' := eq_of_beq cuts
          obtain ⟨piece, pieces, shape⟩ := List.exists_cons_of_ne_nil (cut_ne_nil isBreak rest)
          rw [cut_cons_of_cut cuts, shape, joinedLines_cons_cons, ← shape, ih]
          rfl
      | false =>
          obtain ⟨piece, pieces, shape, whole⟩ := cut_cons_of_not_cut cuts rest
          rw [shape] at ih
          rw [whole]
          cases pieces with
          | nil => simpa [joinedLines] using ih
          | cons next pieces =>
              rw [joinedLines_cons_cons] at ih ⊢
              rw [List.cons_append, ih]

/-- A text without line breaks is one line, whatever line is cut behind it. -/
theorem cut_append_of_solid {line : List Char} (solid : ∀ c ∈ line, isBreak c = false)
    {rest first : List Char} {pieces : List (List Char)}
    (shape : cut isBreak rest = first :: pieces)
    : cut isBreak (line ++ rest) = (line ++ first) :: pieces := by
  induction line with
  | nil => exact shape
  | cons c line ih =>
      obtain ⟨keeps, solid⟩ := List.forall_mem_cons.mp solid
      obtain ⟨piece, later, same, whole⟩ := cut_cons_of_not_cut keeps (line ++ rest)
      rw [ih solid] at same
      obtain ⟨rfl, rfl⟩ := List.cons.inj same
      exact whole

/-- Lines that are put together are cut apart again, by induction on the lines. -/
theorem cut_joinedLines {line : List Char} {rest : List (List Char)}
    (solid : ∀ piece ∈ line :: rest, ∀ c ∈ piece, isBreak c = false)
    : cut isBreak (joinedLines (line :: rest)) = line :: rest := by
  induction rest generalizing line with
  | nil =>
      have shape : cut isBreak [] = [[]] := rfl
      simpa [joinedLines] using cut_append_of_solid (solid line List.mem_cons_self) shape
  | cons next rest ih =>
      obtain ⟨first, others⟩ := List.forall_mem_cons.mp solid
      have shape : cut isBreak ('\n' :: joinedLines (next :: rest)) = [] :: next :: rest := by
        rw [cut_cons_of_cut (by decide), ih others]
      rw [joinedLines_cons_cons, cut_append_of_solid first shape, List.append_nil]

theorem cut_joinedLines_concat {front : List (List Char)} {last : List Char}
    (solid : ∀ piece ∈ front, ∀ c ∈ piece, isBreak c = false)
    (solid_last : ∀ c ∈ last, isBreak c = false)
    : cut isBreak (joinedLines (front ++ [last])) = front ++ [last] := by
  have solid : ∀ piece ∈ front ++ [last], ∀ c ∈ piece, isBreak c = false :=
    List.forall_mem_append.mpr ⟨solid, List.forall_mem_singleton.mpr solid_last⟩
  obtain ⟨first, rest, shape⟩ := List.exists_cons_of_ne_nil (l := front ++ [last]) (by simp)
  rw [shape] at solid ⊢
  exact cut_joinedLines solid

theorem mem_joinedLines {lines : List (List Char)} {c : Char}
    : c ∈ joinedLines lines → c = '\n' ∨ ∃ line ∈ lines, c ∈ line := by
  intro member
  induction lines with
  | nil => cases member
  | cons first rest ih =>
      cases rest with
      | nil =>
          refine .inr ⟨first, List.mem_cons_self, ?_⟩
          simpa [joinedLines] using member
      | cons second rest =>
          rw [joinedLines_cons_cons] at member
          rcases List.mem_append.mp member with inside | member
          · exact .inr ⟨first, List.mem_cons_self, inside⟩
          · rcases List.mem_cons.mp member with rfl | member
            · exact .inl rfl
            · exact (ih member).imp_right fun ⟨line, later, inside⟩ =>
                ⟨line, List.mem_cons_of_mem first later, inside⟩

theorem mem_joinedLines_of_mem {lines : List (List Char)} {line : List Char} {c : Char}
    (member : line ∈ lines) (inside : c ∈ line)
    : c ∈ joinedLines lines := by
  induction lines with
  | nil => cases member
  | cons first rest ih =>
      cases rest with
      | nil =>
          obtain rfl := List.mem_singleton.mp member
          simpa [joinedLines] using inside
      | cons second rest =>
          rw [joinedLines_cons_cons]
          rcases List.mem_cons.mp member with rfl | later
          · exact List.mem_append_left _ inside
          · exact List.mem_append_right _ (List.mem_cons_of_mem _ (ih later))

theorem mem_of_mem_cut {cs piece : List Char} {c : Char} (member : piece ∈ cut isBreak cs)
    (inside : c ∈ piece)
    : c ∈ cs := by
  rw [← joinedLines_cut cs]
  exact mem_joinedLines_of_mem member inside

theorem joinedLines_concat_append (front : List (List Char)) (last tail : List Char)
    : joinedLines (front ++ [last ++ tail]) = joinedLines (front ++ [last]) ++ tail := by
  induction front with
  | nil => simp [joinedLines]
  | cons first rest ih =>
      obtain ⟨next, later, shape⟩ := List.exists_cons_of_ne_nil (l := rest ++ [last]) (by simp)
      obtain ⟨next', later', shape'⟩ :=
        List.exists_cons_of_ne_nil (l := rest ++ [last ++ tail]) (by simp)
      rw [shape, shape'] at ih
      rw [List.cons_append, List.cons_append, shape, shape', joinedLines_cons_cons,
        joinedLines_cons_cons, ih, List.append_assoc, List.cons_append]

/-- A character that breaks no line belongs to the last one. -/
theorem cut_concat {cs : List Char} {front : List (List Char)} {last : List Char}
    (shape : cut isBreak cs = front ++ [last]) {c : Char} (keeps : isBreak c = false)
    : cut isBreak (cs ++ [c]) = front ++ [last ++ [c]] := by
  have solid : ∀ piece ∈ front ++ [last], ∀ c ∈ piece, isBreak c = false := fun piece member =>
    keeps_of_mem_cut (shape ▸ member)
  obtain ⟨solid, solid_last⟩ := List.forall_mem_append.mp solid
  have solid_last := List.forall_mem_singleton.mp solid_last
  have whole : cs ++ [c] = joinedLines (front ++ [last ++ [c]]) := by
    rw [joinedLines_concat_append, ← shape, joinedLines_cut]
  rw [whole]
  exact cut_joinedLines_concat solid
    (List.forall_mem_append.mpr ⟨solid_last, List.forall_mem_singleton.mpr keeps⟩)

theorem words_joinedLines (lines : List (List Char))
    : words (joinedLines lines) = lines.flatMap words := by
  induction lines with
  | nil => rfl
  | cons first rest ih =>
      cases rest with
      | nil => simp [joinedLines]
      | cons second rest =>
          rw [joinedLines_cons_cons, words_append_cons_of_blank _ _ (by decide), ih]
          rfl

/-- Lines that end in a line break each, in front of a text. -/
theorem words_flatMap_lines (lines : List (List Char)) (text : List Char)
    : words ((lines.flatMap fun line => line ++ ['\n']) ++ text) =
        lines.flatMap words ++ words text := by
  induction lines with
  | nil => rfl
  | cons first rest ih =>
      rw [List.flatMap_cons, List.append_assoc, List.append_assoc, List.singleton_append,
        words_append_cons_of_blank _ _ (by decide), ih, List.flatMap_cons, List.append_assoc]

theorem words_dropReturn (line : List Char) : words (dropReturn line) = words line := by
  unfold dropReturn
  split
  · rename_i last
    obtain ⟨front, shape⟩ := List.getLast?_eq_some_iff.mp (eq_of_beq last)
    rw [shape, List.dropLast_concat, words_concat_of_blank (by decide)]
  · rfl

theorem mem_of_mem_dropReturn {line : List Char} {c : Char} (member : c ∈ dropReturn line)
    : c ∈ line := by
  unfold dropReturn at member
  split at member
  · exact (List.dropLast_sublist line).subset member
  · exact member

end Text

namespace Header

open ApiBindings.Text

-----------------------------------------------------------------------------------------
-- Preparing
-----------------------------------------------------------------------------------------

/-- The signs by which a header is cut into its items, or parts of it are left out. -/
def cuttingSigns : List Char :=
  "/\\#\x7b\x7d;".toList

/-- Nothing in a text ends a statement or is left out of it. -/
def IsStatement (cs : List Char) : Prop :=
  ∀ c ∈ cs, c ∉ cuttingSigns

instance (cs : List Char) : Decidable (IsStatement cs) :=
  decidableForallMem _ cs

theorem IsStatement.ne {cs : List Char} (statement : IsStatement cs) {sign : Char}
    (cuts : sign ∈ cuttingSigns)
    : sign ∉ cs :=
  fun member => statement sign member cuts

/-- A text without the word `extern` in front. -/
def withoutExtern (text : List Char) : List Char :=
  (strip? "extern ".toList text).getD text

theorem mem_of_mem_withoutExtern {text : List Char} {c : Char} (member : c ∈ withoutExtern text)
    : c ∈ text := by
  rw [withoutExtern] at member
  cases stripped : strip? "extern ".toList text with
  | none =>
      rw [stripped] at member
      exact member
  | some rest =>
      rw [stripped] at member
      rw [eq_append_of_strip? stripped]
      exact List.mem_append_right _ member

theorem stripInto_eq {cs : List Char} (absent : '/' ∉ cs) (done : List Char)
    : stripInto done cs = done.reverse ++ cs := by
  induction cs generalizing done with
  | nil => simp [stripInto]
  | cons c rest ih =>
      obtain ⟨here, later⟩ := not_or.mp (mt List.mem_cons.mpr absent)
      have other : c ≠ '/' := fun same => here same.symm
      rw [stripInto, ih later]
      · simp
      · exact fun _ same => absurd same other
      · exact fun _ same => absurd same other

theorem linkage?_eq_none {cs : List Char} (absent : '\x7b' ∉ cs) : linkage? cs = none := by
  cases found : linkage? cs with
  | none => rfl
  | some found =>
      unfold linkage? at found
      simp only [Option.bind_eq_bind, Option.bind_eq_some_iff] at found
      obtain ⟨first, named, second, quoted, after, braced, -⟩ := found
      have member : '\x7b' ∈ trimStart second := by
        rw [eq_append_of_strip? braced]
        exact List.mem_cons_self
      have member : '\x7b' ∈ trimStart first := by
        rw [eq_append_of_strip? quoted]
        exact List.mem_append_right _ ((List.dropWhile_sublist _).subset member)
      refine absurd ?_ absent
      rw [eq_append_of_strip? named]
      exact List.mem_append_right _ ((List.dropWhile_sublist _).subset member)

theorem unlinkInto_eq {cs : List Char} (absent : '\x7b' ∉ cs) (done : List Char)
    : unlinkInto done cs = done.reverse ++ cs := by
  induction cs generalizing done with
  | nil => simp [unlinkInto]
  | cons c rest ih =>
      have later : '\x7b' ∉ rest := fun member => absent (List.mem_cons_of_mem c member)
      rw [unlinkInto]
      split
      · rename_i found
        rw [linkage?_eq_none absent] at found
        cases found
      · rw [ih later]
        simp

theorem joinLines_eq {lines : List (List Char)} (absent : ∀ line ∈ lines, '\\' ∉ line)
    : joinLines 0 lines = joinedLines (lines.map dropReturn) := by
  induction lines with
  | nil => rfl
  | cons line rest ih =>
      obtain ⟨here, later⟩ := List.forall_mem_cons.mp absent
      have whole : continued? (dropReturn line) = none := by
        refine if_neg fun last => here (mem_of_mem_dropReturn ?_)
        exact List.mem_of_getLast? last
      rw [joinLines, whole]
      dsimp only
      rw [ih later]
      cases rest with
      | nil => simp [joinedLines, lineBreaks]
      | cons next rest =>
          simp only [List.map_cons, joinedLines_cons_cons]
          simp [lineBreaks]

/-- A text without the signs of comments, continued lines and braces keeps its lines. -/
theorem prepare_eq {cs : List Char} (comments : '/' ∉ cs) (continued : '\\' ∉ cs)
    (braces : '\x7b' ∉ cs)
    : prepare cs = joinedLines ((cut isBreak cs).map dropReturn) := by
  have joined : joinContinued cs = joinedLines ((cut isBreak cs).map dropReturn) :=
    joinLines_eq fun line member inside => continued (mem_of_mem_cut member inside)
  have unbraced : '\x7b' ∉ joinedLines ((cut isBreak cs).map dropReturn) := by
    intro member
    rcases mem_joinedLines member with eq | ⟨line, member, inside⟩
    · cases eq
    · obtain ⟨whole, original, rfl⟩ := List.mem_map.mp member
      exact braces (mem_of_mem_cut original (mem_of_mem_dropReturn inside))
  rw [prepare, stripComments, stripInto_eq comments, List.reverse_nil, List.nil_append, joined,
    unlinkInto_eq unbraced, List.reverse_nil, List.nil_append]

-----------------------------------------------------------------------------------------
-- Cutting
-----------------------------------------------------------------------------------------

namespace Cutter

variable {cutter : Cutter} {text : List Char}

/-- Nothing but one statement has been read, and no brace is open in it. -/
structure Holds (cutter : Cutter) (text : List Char) : Prop where
  statement : cutter.statement.reverse = text
  depth : cutter.depth = 0
  items : cutter.items = []

theorem Holds.read (holds : cutter.Holds text) {c : Char} (plain : c ∉ cuttingSigns) (line : Nat)
    : (Cutter.read line cutter c).Holds (text ++ [c]) := by
  have other {sign : Char} (cuts : sign ∈ cuttingSigns) : c ≠ sign := by
    rintro rfl
    exact plain cuts
  have ending : ¬(c = ';' ∧ cutter.depth = 0) := fun ended => other (by decide) ended.1
  rw [Cutter.read, if_neg (other (by decide)), if_neg (other (by decide)), if_neg ending]
  exact ⟨by simp [take, holds.statement], holds.depth, holds.items⟩

theorem Holds.foldl_read (holds : cutter.Holds text) {cs : List Char} (plain : IsStatement cs)
    (line : Nat)
    : (cs.foldl (Cutter.read line) cutter).Holds (text ++ cs) := by
  induction cs generalizing cutter text with
  | nil => simpa using holds
  | cons c rest ih =>
      obtain ⟨here, later⟩ := List.forall_mem_cons.mp plain
      simpa using ih (holds.read here line) later

/-- A line that has no number sign is no directive. -/
theorem readLine_of_not_mem {line : List Char} (plain : '#' ∉ line) (number : Nat)
    : readLine cutter (number, line) =
        let read := line.foldl (Cutter.read number) cutter
        { read with statement := '\n' :: read.statement } := by
  refine if_neg fun directive => plain ?_
  have inside : '#' ∈ trim line := List.mem_of_head? directive
  simp only [trim, trimEnd, List.mem_reverse] at inside
  have inside := (List.dropWhile_sublist _).subset inside
  exact (List.dropWhile_sublist _).subset (List.mem_reverse.mp inside)

theorem Holds.readLine (holds : cutter.Holds text) {line : List Char} (plain : IsStatement line)
    (number : Nat)
    : (Cutter.readLine cutter (number, line)).Holds (text ++ (line ++ ['\n'])) := by
  rw [readLine_of_not_mem (plain.ne (by decide))]
  have read := holds.foldl_read plain number
  exact ⟨by simp [read.statement], read.depth, read.items⟩

theorem Holds.foldl_readLine (holds : cutter.Holds text) {numbered : List (Nat × List Char)}
    (plain : ∀ line ∈ numbered, IsStatement line.2)
    : (numbered.foldl Cutter.readLine cutter).Holds
        (text ++ numbered.flatMap fun line => line.2 ++ ['\n']) := by
  induction numbered generalizing cutter text with
  | nil => simpa using holds
  | cons line rest ih =>
      obtain ⟨here, later⟩ := List.forall_mem_cons.mp plain
      simpa using ih (holds.readLine here line.1) later

/-- The semicolon behind a statement makes an item of it. -/
theorem Holds.items_readLine (holds : cutter.Holds text) {line : List Char}
    (plain : IsStatement line) (number : Nat)
    : ∃ start, (Cutter.readLine cutter (number, line ++ [';'])).items
        = [.statement (text ++ line) start] := by
  have solid : '#' ∉ line ++ [';'] := by
    simpa using plain.ne (by decide : '#' ∈ cuttingSigns)
  have read := holds.foldl_read plain number
  refine ⟨(line.foldl (Cutter.read number) cutter).line, ?_⟩
  rw [readLine_of_not_mem solid, List.foldl_append]
  simp [Cutter.read, clear, read.depth, read.items, read.statement]

end Cutter

/-- The lines of a text that does not end in an empty line. -/
theorem lines_joinedLines {front : List (List Char)} {last : List Char}
    (solid : ∀ piece ∈ front, ∀ c ∈ piece, isBreak c = false)
    (solid_last : ∀ c ∈ last, isBreak c = false) (full : last ≠ [])
    : lines (joinedLines (front ++ [last])) = front.map dropReturn ++ [last] := by
  simp [lines, cut_joinedLines_concat solid solid_last, full]

/-- Preparing the text of one statement only drops the carriage returns behind its lines. -/
theorem prepare_statement {cs : List Char} (plain : IsStatement cs) {front : List (List Char)}
    {last : List Char} (shape : cut isBreak cs = front ++ [last])
    : prepare (cs ++ [';']) = joinedLines (front.map dropReturn ++ [last ++ [';']]) := by
  have absent (sign : Char) (cuts : sign ∈ cuttingSigns) (other : sign ≠ ';')
      : sign ∉ cs ++ [';'] := by
    simpa [other] using plain.ne cuts
  have kept : dropReturn (last ++ [';']) = last ++ [';'] := by simp [dropReturn]
  rw [prepare_eq (absent '/' (by decide) (by decide)) (absent '\\' (by decide) (by decide))
    (absent '\x7b' (by decide) (by decide)), cut_concat shape (by decide), List.map_append,
    List.map_singleton, kept]

/-- What holds of the characters of some lines holds of them without the carriage returns. -/
theorem forall_mem_map_dropReturn {holds : Char → Prop} {lines : List (List Char)}
    (each : ∀ line ∈ lines, ∀ c ∈ line, holds c)
    : ∀ line ∈ lines.map dropReturn, ∀ c ∈ line, holds c := by
  intro line member c inside
  obtain ⟨whole, original, rfl⟩ := List.mem_map.mp member
  exact each whole original c (mem_of_mem_dropReturn inside)

/-- A text of one statement is still that statement on its lines when it is prepared. -/
theorem lines_prepare {cs : List Char} (statement : IsStatement cs)
    : ∃ front last, lines (prepare (cs ++ [';'])) = front ++ [last ++ [';']]
        ∧ (∀ line ∈ front ++ [last], IsStatement line)
        ∧ front.flatMap words ++ words last = words cs := by
  obtain ⟨front, last, shape⟩ := exists_cut_concat isBreak cs
  have solid : ∀ piece ∈ front ++ [last], ∀ c ∈ piece, isBreak c = false := fun piece member =>
    keeps_of_mem_cut (shape ▸ member)
  have plain : ∀ piece ∈ front ++ [last], IsStatement piece := fun piece member c inside =>
    statement c (mem_of_mem_cut (shape ▸ member) inside)
  obtain ⟨solid, solid_last⟩ := List.forall_mem_append.mp solid
  obtain ⟨plain, plain_last⟩ := List.forall_mem_append.mp plain
  have ended : ∀ c ∈ last ++ [';'], isBreak c = false :=
    List.forall_mem_append.mpr ⟨List.forall_mem_singleton.mp solid_last, by decide⟩
  refine ⟨(front.map dropReturn).map dropReturn, last, ?_, ?_, ?_⟩
  · rw [prepare_statement statement shape, lines_joinedLines (forall_mem_map_dropReturn solid) ended (by simp)]
  · exact List.forall_mem_append.mpr
      ⟨forall_mem_map_dropReturn (forall_mem_map_dropReturn plain), plain_last⟩
  · have same (lines : List (List Char))
        : (lines.map dropReturn).flatMap words = lines.flatMap words := by
      simp [List.flatMap_map, words_dropReturn]
    rw [same, same, ← joinedLines_cut cs, shape, words_joinedLines, List.flatMap_append,
      List.flatMap_singleton]

/-- Lines that are a statement with a semicolon behind it are cut into that statement. -/
theorem items_of_lines {cs last : List Char} {front : List (List Char)}
    (shape : lines cs = front ++ [last ++ [';']])
    (plain : ∀ line ∈ front ++ [last], IsStatement line)
    : ∃ raw line, items cs = [.statement raw line]
        ∧ words raw = front.flatMap words ++ words last := by
  have numbered : numberedLines cs =
      (front.mapIdx fun index line => (index + 1, line)) ++
        [(front.length + 1, last ++ [';'])] := by
    simp [numberedLines, shape, List.mapIdx_append]
  generalize earlier : (front.mapIdx fun index line => (index + 1, line)) = before at numbered
  have texts : before.map Prod.snd = front := by
    rw [← earlier]
    exact List.ext_getElem (by simp) (by simp)
  have start : Cutter.Holds {} [] := ⟨rfl, rfl, rfl⟩
  have earlier : ∀ line ∈ before, IsStatement line.2 := fun line member =>
    plain line.2 (List.mem_append_left _ (texts ▸ List.mem_map_of_mem member))
  have read := start.foldl_readLine earlier
  obtain ⟨line, whole⟩ := read.items_readLine
    (plain last (List.mem_append_right _ List.mem_cons_self)) (front.length + 1)
  refine ⟨(before.flatMap fun line => line.2 ++ ['\n']) ++ last, line, ?_, ?_⟩
  · rw [items, numbered, List.foldl_append, List.foldl_cons, List.foldl_nil, whole]
    rfl
  · rw [← texts, ← words_flatMap_lines, List.flatMap_map]

/-- A header that is one statement yields that statement with its words. -/
theorem items_statement {cs : List Char} (plain : IsStatement cs)
    : ∃ raw line, items (prepare (cs ++ [';'])) = [.statement raw line] ∧ words raw = words cs := by
  obtain ⟨front, last, shape, plain, same⟩ := lines_prepare plain
  rw [← same]
  exact items_of_lines shape plain

end Header

end ApiBindings
