import ApiBindings.Code.TypeItem
import ApiBindings.Proofs.Reading.Commands
import ApiBindings.Proofs.Reading.Declarators
import ApiBindings.Proofs.Reading.Sections
import ApiBindings.Proofs.Reading.Typedefs

/-! The items for type definitions of headers and of documents.
A definition is told by the semicolon behind it. The records of a document have it, those of a
header do not, so the same definition has an item in one case and none in the other.
-/

namespace ApiBindings

open ApiBindings.Text
open ApiBindings.Header

-----------------------------------------------------------------------------------------
-- Records
-----------------------------------------------------------------------------------------

namespace Header

variable {name text : List Char}

theorem Declares.words_ne_nil (declares : Declares name text)
    (identifier : isIdentifier name = true)
    : words text ≠ [] := by
  obtain ⟨front, last, rfl, word⟩ := declares.exists_concat identifier
  exact words_append_ne_nil front ⟨last, [], rfl, word⟩

theorem collapse_typedef (nonempty : words text ≠ [])
    : Text.collapse ("typedef ".toList ++ text) = "typedef ".toList ++ Text.collapse text :=
  collapse_append_cons_of_blank "typedef".toList text (by decide) (by decide) nonempty

/-- A statement that defines a type is recorded without its semicolon, under the name that the
definition introduces.
-/
theorem readStatement_typedef (context : Context) (line : Nat) (scope : Constant.Scope)
    {raw : List Char} {defined : String} (statement : IsStatement text) (nonempty : words text ≠ [])
    (names : definedName? ("typedef ".toList ++ Text.collapse text) = some defined)
    (same : words raw = words ("typedef ".toList ++ text))
    : readStatement context line scope raw =
        ({ types := [{
            name := defined
            c := String.ofList ("typedef ".toList ++ Text.collapse text)
            source := context.source
          }] }, scope) := by
  have plain : IsStatement (Text.collapse text) := statement.of_words (words_collapse text)
  have whole : Text.collapse raw = "typedef ".toList ++ Text.collapse text := by
    rw [← collapse_typedef nonempty, Text.collapse, same, Text.collapse]
  have foreign (rest : List Char) : strip? "extern ".toList ("typedef ".toList ++ rest) = none :=
    strip?_cons_of_ne (by decide)
  have open? : braces? ("typedef ".toList ++ Text.collapse text) = none := by
    refine if_neg fun inside => ?_
    have inside : '\x7d' ∈ ("typedef ".toList ++ Text.collapse text).dropWhile (· != '\x7b') :=
      List.mem_of_mem_drop (List.contains_iff_mem.mp inside)
    have inside := (List.dropWhile_sublist _).subset inside
    rcases List.mem_append.mp inside with inside | inside
    · exact absurd inside (by decide)
    · exact plain.ne (by decide) inside
  rw [readStatement, whole, foreign, Option.getD_none, strip?_append, if_pos Option.isSome_some,
    readTypedef, open?, names]
  rfl

/-- A header of one type definition records that definition and nothing else. -/
theorem of_read_typedef (dialect : Dialect) (fragment : Fragment) {defined : String}
    (statement : IsStatement text) (nonempty : words text ≠ [])
    (names : definedName? ("typedef ".toList ++ Text.collapse text) = some defined)
    (shape : fragment.text.toList = "typedef ".toList ++ text ++ [';'])
    {α : Type} {part : Findings.Part α} (skips : part.SkipsInterfaces)
    : part.of (read dialect [fragment]).toFindings =
        part.of { types := [{
            name := defined
            c := String.ofList ("typedef ".toList ++ Text.collapse text)
            source := fragment.name
          }] } := by
  have plain : IsStatement ("typedef ".toList ++ text) := IsStatement.append (by decide) statement
  exact of_read_statement skips plain shape fun line scope raw same =>
    readStatement_typedef _ line scope statement nonempty names same

/-- A header of one declarator records its definition. -/
theorem types_read_typedef (dialect : Dialect) (fragment : Fragment)
    (declares : Declares name text) (identifier : isIdentifier name = true)
    (shape : fragment.text.toList = "typedef ".toList ++ text ++ [';'])
    : (read dialect [fragment]).types =
        [{
          name := String.ofList name
          c := String.ofList ("typedef ".toList ++ Text.collapse text)
          source := fragment.name
        }] := by
  have skips : Findings.Part.types.SkipsInterfaces := fun _ _ => rfl
  exact of_read_typedef dialect fragment (declares.isStatement identifier)
    (declares.words_ne_nil identifier) ((declares.collapse identifier).definedName? identifier) shape
    skips

end Header

namespace Document

open ApiBindings.Markup

/-- An element that defines a type is recorded with the semicolon. -/
theorem readType_typedef {source : Source} {element : Element} {name text : List Char}
    (declares : Declares name text) (identifier : isIdentifier name = true)
    (allowed : source.allows element = true)
    (named : element.attribute? "name" = some (String.ofList name))
    (shape : textOfNodes none element.children = "typedef ".toList ++ text ++ [';'])
    : readType source element =
        { types := [{
            name := String.ofList name
            c := String.ofList ("typedef ".toList ++ (collapse text ++ [';']))
            source := source.name
          }] } := by
  have nonempty := ofList_ne_empty (ne_nil_of_isIdentifier identifier)
  have label : typeName? element = some (String.ofList name) := by
    rw [typeName?, named]
    simp [nonempty]
  have whole : element.text =
      String.ofList ("typedef ".toList ++ (collapse text ++ [';'])) := by
    obtain ⟨front, last, same, word⟩ := declares.exists_concat identifier
    have ended : collapseBefore ("typedef ".toList ++ text) =
        "typedef ".toList ++ collapse text := by
      rw [← collapse_typedef (declares.words_ne_nil identifier), same, ← List.append_assoc,
        collapseBefore_eq_collapse word]
    rw [Element.text, Element.textOutside, shape, collapse_append ⟨';', [], rfl, by decide⟩, ended,
      collapse_singleton (by decide), List.append_assoc]
  rw [readType, allowed, label, whole]

end Document

-----------------------------------------------------------------------------------------
-- Items
-----------------------------------------------------------------------------------------

namespace Code

theorem afterKeyword?_eq_none {keyword : List Char} {k c : Char} (differs : k ≠ c)
    (rest : List Char)
    : afterKeyword? (String.ofList (k :: keyword)) (c :: rest) = none := by
  rw [afterKeyword?, String.toList_ofList, strip?_cons_of_ne differs]

theorem afterKeyword?_typedef {gap body : List Char} (parted : gap ≠ [])
    (blank : ∀ c ∈ gap, isBlank c = true) (starts : StartsWord body)
    : afterKeyword? "typedef" ("typedef".toList ++ (gap ++ body)) = some body := by
  have stripped : strip? "typedef".toList ("typedef".toList ++ (gap ++ body))
      = some (gap ++ body) :=
    strip?_append "typedef".toList (gap ++ body)
  have trimmed := trimStart_blanks_append blank starts
  rw [afterKeyword?, stripped]
  cases gap with
  | nil => exact absurd rfl parted
  | cons c gap =>
      have first := blank c List.mem_cons_self
      rw [List.cons_append, trimStart, List.dropWhile_cons_of_pos first] at trimmed
      simp [first, trimStart, trimmed]

/-- The first definition of a text ends at the next semicolon. -/
theorem typedefBodies_append {gap body : List Char} (parted : gap ≠ [])
    (blank : ∀ c ∈ gap, isBlank c = true) (starts : StartsWord body) (unended : ';' ∉ body)
    (behind : List Char)
    : typedefBodies ("typedef".toList ++ (gap ++ (body ++ ';' :: behind)))
        = body :: typedefBodies behind := by
  have keyword := afterKeyword?_typedef parted blank (starts.append (';' :: behind))
  have ended : (body ++ ';' :: behind).contains ';' = true := by simp
  have passed := bne_of_not_mem unended
  have before : (body ++ ';' :: behind).takeWhile (· != ';') = body := by
    rw [List.takeWhile_append_of_pos passed]
    simp
  have later : ((body ++ ';' :: behind).dropWhile (· != ';')).drop 1 = behind := by
    rw [List.dropWhile_append_of_pos passed]
    simp
  rw [show "typedef".toList = 't' :: "ypedef".toList from rfl, List.cons_append] at keyword ⊢
  rw [typedefBodies]
  split
  · rename_i other found
    rw [keyword] at found
    cases found
    rw [if_pos ended, before, later]
  · rename_i missing
    rw [keyword] at missing
    cases missing

theorem exists_of_afterKeyword? {keyword : String} {cs body : List Char}
    (found : afterKeyword? keyword cs = some body)
    : ∃ c rest, cs = keyword.toList ++ c :: rest ∧ isBlank c = true ∧ body = trimStart rest := by
  unfold afterKeyword? at found
  split at found
  · rename_i c rest stripped
    split at found
    · rename_i blank
      cases found
      exact ⟨c, rest, eq_append_of_strip? stripped, blank, rfl⟩
    · cases found
  · cases found

theorem mem_of_mem_afterKeyword? {keyword : String} {cs body : List Char} {c : Char}
    (found : afterKeyword? keyword cs = some body) (member : c ∈ body)
    : c ∈ cs := by
  obtain ⟨d, rest, rfl, -, rfl⟩ := exists_of_afterKeyword? found
  exact List.mem_append_right _
    (List.mem_cons_of_mem d ((List.dropWhile_sublist isBlank).subset member))

/-- A text without semicolons has no bodies of definitions. -/
theorem typedefBodies_eq_nil {cs : List Char} (unended : ';' ∉ cs) : typedefBodies cs = [] := by
  fun_induction typedefBodies cs with
  | case1 => rfl
  | case2 c rest body found ends _ =>
      exact absurd (mem_of_mem_afterKeyword? found (List.contains_iff_mem.mp ends)) unended
  | case3 => rfl
  | case4 c rest _ ih => exact ih fun member => unended (List.mem_cons_of_mem c member)

/-- A type definition announces no tag. -/
theorem announcedTag?_typedef {cs : List Char} (starts : (strip? "typedef ".toList cs).isSome)
    : announcedTag? (trim cs) = none := by
  obtain ⟨rest, shape⟩ := Option.isSome_iff_exists.mp starts
  have first : trimStart cs = 't' :: ("ypedef ".toList ++ rest) := by
    rw [eq_append_of_strip? shape]
    exact trimStart_cons (by decide)
  have front : trim cs <+: 't' :: ("ypedef ".toList ++ rest) := by
    rw [← first, trim, trimEnd, ← List.reverse_suffix, List.reverse_reverse]
    exact List.dropWhile_suffix isBlank
  have named (keyword : List Char) (k : Char) (differs : k ≠ 't')
      : afterKeyword? (String.ofList (k :: keyword)) (trim cs) = none := by
    rcases List.prefix_cons_iff.mp front with empty | ⟨later, shape, -⟩
    · rw [empty, afterKeyword?, String.toList_ofList]
      rfl
    · rw [shape]
      exact afterKeyword?_eq_none differs later
  rw [announcedTag?, show "struct" = String.ofList ('s' :: "truct".toList) from rfl,
    show "union" = String.ofList ('u' :: "nion".toList) from rfl, named _ _ (by decide),
    named _ _ (by decide)]
  rfl

/-- No type that headers declare has an item unless there are braces in its definition. -/
theorem typeItem?_eq_none_of_mem_read {dialect : Dialect} {fragments : List Fragment}
    {decl : TypeDecl} (declared : decl ∈ (Header.read dialect fragments).types)
    (unbraced : '\x7b' ∉ decl.c.toList)
    : typeItem? decl = none := by
  have typedef := isTypedef_of_mem_read declared
  have unended : ';' ∉ decl.c.toList := mt typedef.braced unbraced
  rw [typeItem?, typedefBodies_eq_nil unended]
  dsimp only [List.getLast?_nil]
  rw [announcedTag?_typedef typedef.starts]
  rfl

theorem lengthAtEnd?_cons_of_ne {c : Char} (other : c ≠ '[') (rest : List Char)
    : lengthAtEnd? (c :: rest) = none := by
  unfold lengthAtEnd?
  split
  · rename_i shape
    cases shape
  · rename_i shape
    exact absurd (List.cons.inj shape).1 other
  · rfl

theorem nameAtEnd?_of_isIdentifier {name : List Char} (identifier : isIdentifier name = true)
    {before : Option Char} (ends : ∀ c ∈ before, isWordChar c = false)
    : nameAtEnd? before name = some (name, none) := by
  have alone : identifier? name = some (name, []) := by
    have last : EndsName [] := fun c first => by cases first
    simpa using identifier?_append identifier last
  have boundary := isBoundary_of_isIdentifier identifier ends []
  rw [List.append_nil] at boundary
  have ended : lengthAtEnd? (trimStart []) = some none := rfl
  simp [nameAtEnd?, alone, boundary, ended]

/-- The declared name is the first one that ends its declarator. -/
theorem find?_nameAtEnd? {base name : List Char} (type : IsTypeText base)
    (ends : EndsBefore base) (identifier : isIdentifier name = true)
    : find? nameAtEnd? none (base ++ name) = some (base, name, none) := by
  rw [find?_append, Option.or_none, find?_of_some (nameAtEnd?_of_isIdentifier identifier ends)]
  · simp
  · intro first c later shape
    have inside := identifier?_in_type type ends identifier shape []
    rw [List.append_nil] at inside
    rcases inside with missing | ⟨word, rest, d, others, found, behind, -, other⟩
    · rw [nameAtEnd?, missing]
      rfl
    · rw [nameAtEnd?, found]
      simp [behind, lengthAtEnd?_cons_of_ne other]

/-- The name of a pointer to a function is found. -/
theorem isSome_find?_pointerName? {front name : List Char} (absent : '(' ∉ front)
    (identifier : isIdentifier name = true) (back : List Char)
    : (find? (fun _ rest => pointerName? rest) none
        (front ++ ("(*".toList ++ name ++ [')'] ++ back))).isSome := by
  have pointer : pointerName? ("(*".toList ++ name ++ [')'] ++ back) = some (name, back) := by
    have star (rest : List Char) : trimStart ('*' :: rest) = '*' :: rest :=
      trimStart_cons (by decide)
    simp [pointerName?, strip?, star, starredName?_append identifier]
  rw [find?_append, find?_of_some pointer]
  · rfl
  · intro first c later shape
    have other : '(' ≠ c := by
      rintro rfl
      exact absent (shape ▸ List.mem_append_right _ List.mem_cons_self)
    rw [List.cons_append, pointerName?, strip?_cons_of_ne other]
    rfl

/-- Every declarator has an item under its name. -/
theorem isSome_definitionItem? {name body : List Char} (declares : Declares name body)
    (identifier : isIdentifier name = true)
    : (definitionItem? (String.ofList name) body).isSome := by
  unfold definitionItem?
  split
  · split
    · rfl
    · split <;> rfl
  · cases declares with
    | plain type ends =>
        rw [find?_nameAtEnd? type ends identifier]
        split
        · rfl
        · simp
    | function type statement =>
        rw [if_pos (isSome_find?_pointerName?
          (type.not_mem (by decide) (by decide) (by decide)) identifier _)]
        rfl

/-- With a semicolon behind it, every definition has an item. -/
theorem isSome_typeItem?_ended {name text : List Char} (declares : Declares name text)
    (identifier : isIdentifier name = true) (source : String)
    : (typeItem? {
        name := String.ofList name
        c := String.ofList ("typedef ".toList ++ (Text.collapse text ++ [';']))
        source
      }).isSome := by
  have collapsed := declares.collapse identifier
  have plain := collapsed.isStatement identifier
  have starts : StartsWord (Text.collapse text) := by
    obtain ⟨front, last, rfl, word⟩ := declares.exists_concat identifier
    exact startsWord_collapse word
  have blank : ∀ c ∈ [' '], isBlank c = true := by decide
  have bodies := typedefBodies_append (List.cons_ne_nil _ _) blank starts (plain.ne (by decide)) []
  rw [typedefBodies] at bodies
  rw [typeItem?, String.toList_ofList, show "typedef ".toList = "typedef".toList ++ [' '] from rfl,
    List.append_assoc, bodies]
  dsimp only [List.getLast?_singleton]
  rw [collapse_collapse]
  exact isSome_definitionItem? collapsed identifier

/-- The same definition of a type has no item when it is recorded of a header, as its semicolon is
not recorded, and has one when it is recorded of a document.
-/
theorem typedef_itemless_in_header {name text : List Char} (declares : Declares name text)
    (identifier : isIdentifier name = true) (dialect : Dialect) (fragment : Fragment)
    (inHeader : fragment.text.toList = "typedef ".toList ++ text ++ [';'])
    {source : Document.Source} {document element : Markup.Element}
    (holds : Document.Holds document "types" "type" element) (allowed : source.allows element = true)
    (named : element.attribute? "name" = some (String.ofList name))
    (inDocument
      : Markup.textOfNodes none element.children = "typedef ".toList ++ text ++ [';'])
    (fault : Option Nat)
    : ∃ ofHeader ofDocument,
        (Header.read dialect [fragment]).types = [ofHeader]
        ∧ Document.readType source element = { types := [ofDocument] }
        ∧ ofDocument ∈ (Document.records source fault document).types
        ∧ ofHeader.name = String.ofList name
        ∧ ofDocument.name = String.ofList name
        ∧ ofDocument.c = ofHeader.c ++ ";"
        ∧ typeItem? ofHeader = none
        ∧ (typeItem? ofDocument).isSome := by
  have inHeader := types_read_typedef dialect fragment declares identifier inHeader
  have read := Document.readType_typedef declares identifier allowed named inDocument
  refine ⟨_, _, inHeader, read, ?_, rfl, rfl, ?_, ?_,
    isSome_typeItem?_ended declares identifier source.name⟩
  · exact Document.mem_types_of_holds holds (read ▸ List.mem_singleton_self _) fault
  · rw [← List.append_assoc, String.ofList_append]
  · refine typeItem?_eq_none_of_mem_read (inHeader ▸ List.mem_singleton_self _) ?_
    have plain := (declares.collapse identifier).isStatement identifier
    rw [String.toList_ofList]
    simp only [List.mem_append, not_or]
    exact ⟨by decide, plain.ne (by decide)⟩

/-- A header of one type definition. -/
def statusHeader : Fragment where
  name := "vx_types.h"
  role := .feature { major := 1, minor := 0 }
  text := "typedef int vx_status;"

/-- The same definition as an element. -/
def statusType : Markup.Element where
  tag := { name := "type", attributes := [("name", "vx_status")], line := 1 }
  children := [.text "typedef int vx_status;"]

/-- The document of the element. -/
def statusDocument : Markup.Element where
  tag := { name := "#document", attributes := [], line := 0 }
  children := [
    .element { name := "registry", attributes := [], line := 1 } [
      .element { name := "types", attributes := [], line := 1 } [
        .element statusType.tag statusType.children
      ]
    ]
  ]

theorem declares_status : Declares "vx_status".toList "int vx_status".toList :=
  have type : IsTypeText "int ".toList := by decide
  have ends : EndsBefore "int ".toList := by decide
  .plain type ends

theorem holds_status : Document.Holds statusDocument "types" "type" statusType :=
  ⟨_, _, rfl, List.mem_singleton_self _, rfl, List.mem_singleton_self _⟩

theorem status_itemless_in_header
    : ∃ ofHeader ofDocument,
        (Header.read { api := .vx, markers := [] } [statusHeader]).types = [ofHeader]
        ∧ Document.readType { name := "vx.xml", api := none } statusType
          = { types := [ofDocument] }
        ∧ ofDocument
          ∈ (Document.records { name := "vx.xml", api := none } none statusDocument).types
        ∧ ofHeader.name = "vx_status"
        ∧ ofDocument.name = "vx_status"
        ∧ ofDocument.c = ofHeader.c ++ ";"
        ∧ typeItem? ofHeader = none
        ∧ (typeItem? ofDocument).isSome :=
  typedef_itemless_in_header declares_status (by decide) { api := .vx, markers := [] }
    statusHeader (by decide) holds_status rfl rfl (by decide) none

/-- The items that the two readers lead to for one definition are not the same. -/
theorem status_items_differ
    : ∃ ofHeader ofDocument,
        (Header.read { api := .vx, markers := [] } [statusHeader]).types = [ofHeader]
        ∧ (Document.records { name := "vx.xml", api := none } none statusDocument).types
          = [ofDocument]
        ∧ typeItem? ofHeader ≠ typeItem? ofDocument := by
  have inHeader := types_read_typedef { api := .vx, markers := [] } statusHeader declares_status
    (by decide) (by decide)
  have itemless := typeItem?_eq_none_of_mem_read (inHeader ▸ List.mem_singleton_self _) (by decide)
  have ended := isSome_typeItem?_ended declares_status (by decide) "vx.xml"
  refine ⟨_, _, inHeader, rfl, ?_⟩
  rw [itemless]
  exact fun same => Option.some_ne_none _ ((Option.some_get ended).trans same.symm)

end Code

end ApiBindings
