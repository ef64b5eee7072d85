import ApiBindings.Artifact.Commands
import ApiBindings.Proofs.Code.SingleLines
import ApiBindings.Proofs.Text.Layout
import ApiBindings.Proofs.Text.Search

/-! Where a generated text has the identifiers of its definitions, read line by line.
A line has at most one, between a fixed text at its start and one behind it. What a text has is put
together from what its parts have, as long as every part ends with a line.
-/

namespace ApiBindings.Artifact

open ApiBindings.Code
open ApiBindings.Text

-----------------------------------------------------------------------------------------
-- Reading lines
-----------------------------------------------------------------------------------------

/-- What a line has an identifier for. All but the last three are about commands. -/
inductive Role where
  /-- The place for the pointer is declared. -/
  | static
  /-- The function that calls the pointer is declared. -/
  | function
  /-- The pointer is called. -/
  | call
  /-- The module that loads the pointer is declared. -/
  | module
  /-- The pointer is asked whether it is loaded. -/
  | check
  /-- The pointer is stored. -/
  | store
  /-- The module is told to load the pointer. -/
  | load
  /-- The constant of an enumerant is declared. -/
  | constant
  /-- The type of a group is declared. -/
  | type
  /-- The constant of a member of a group is declared. -/
  | member
  deriving DecidableEq

/-- A fixed text with its characters. -/
structure Fixed where
  text : String
  chars : List Char
  spelled : text = String.ofList chars

/-- What stands before and behind the identifier in a line. -/
structure Form where
  role : Role
  opening : Fixed
  closing : Fixed

/-- The word behind an opening at the start of a line, if a closing follows it. -/
def Form.read? (form : Form) (line : List Char) : Option (Role × String) :=
  match strip? form.opening.chars line with
  | some rest =>
      if (strip? form.closing.chars (rest.dropWhile isWordChar)).isSome then
        some (form.role, String.ofList (rest.takeWhile isWordChar))
      else
        none
  | none => none

def functionForm : Form :=
  ⟨.function, ⟨"pub unsafe fn ", _, rfl⟩, ⟨"(", _, rfl⟩⟩

def moduleForm : Form :=
  ⟨.module, ⟨"pub mod ", _, rfl⟩, ⟨" \x7b", _, rfl⟩⟩

def staticForm : Form :=
  ⟨.static, ⟨"    pub static mut ", _, rfl⟩, ⟨": FnPtr = ", _, rfl⟩⟩

def checkForm : Form :=
  ⟨.check, ⟨"        unsafe \x7b storage::", _, rfl⟩, ⟨".is_loaded \x7d", _, rfl⟩⟩

def storeForm : Form :=
  ⟨.store, ⟨"            storage::", _, rfl⟩, ⟨" = FnPtr::new(", _, rfl⟩⟩

def constantForm : Form :=
  ⟨.constant, ⟨"pub const ", _, rfl⟩, ⟨": ", _, rfl⟩⟩

def typeForm : Form :=
  ⟨.type, ⟨"pub struct ", _, rfl⟩, ⟨"(pub ", _, rfl⟩⟩

def memberForm : Form :=
  ⟨.member, ⟨"    pub const ", _, rfl⟩, ⟨": ", _, rfl⟩⟩

/-- The forms of all lines but those that load or call a pointer. -/
def longForms : List Form :=
  [functionForm, moduleForm, staticForm, checkForm, storeForm, constantForm, typeForm, memberForm]

def loadForm : Form :=
  ⟨.load, ⟨"    ", _, rfl⟩, ⟨"::load_with(&mut loadfn);", _, rfl⟩⟩

/-- What stands before the types of a call. -/
def callOpening : Fixed :=
  ⟨"    __khronos_imports::mem::transmute::<_, extern \"system\" fn(", _, rfl⟩

/-- What stands behind the types of a call. -/
def callForm : Form :=
  ⟨.call, ⟨"(storage::", _, rfl⟩, ⟨".f)(", _, rfl⟩⟩

/-- What follows the last one of a character, or the whole text if there is none. -/
def behindLast (c : Char) (text : List Char) : List Char :=
  (text.reverse.takeWhile (· != c)).reverse

/-- Reads a call, in which the identifier stands behind all types. -/
def readCall? (line : List Char) : Option (Role × String) :=
  match strip? callOpening.chars line with
  | some rest => callForm.read? (behindLast '>' rest)
  | none => none

def readLine? (line : List Char) : Option (Role × String) :=
  ((longForms.findSome? fun form => form.read? line).or (loadForm.read? line)).or (readCall? line)

/-- What the lines of a text have identifiers for, in their order. -/
def roles (text : String) : List (Role × String) :=
  (cut isBreak text.toList).filterMap readLine?

/-- The identifiers for one purpose. -/
def namesFor (role : Role) (found : List (Role × String)) : List String :=
  found.filterMap fun (other, name) => if other = role then some name else none

/-- The identifiers that a text has for one purpose. -/
def named (role : Role) (text : String) : List String :=
  namesFor role (roles text)

-----------------------------------------------------------------------------------------
-- Starts of lines
-----------------------------------------------------------------------------------------

/-- Whether two texts differ somewhere before the end of both. -/
def clashes : List Char → List Char → Bool
  | a :: as, b :: bs => a != b || clashes as bs
  | _, _ => false

/-- Whether a line with a given start is not of a form, whatever it goes on with. -/
def Form.shuns (form : Form) (start : List Char) : Bool :=
  match strip? form.opening.chars start with
  | some more => clashes form.closing.chars (more.dropWhile isWordChar)
  | none => clashes form.opening.chars start

theorem strip?_of_clashes {start front : List Char} (clash : clashes start front = true)
    (rest : List Char)
    : strip? start (front ++ rest) = none := by
  fun_induction clashes start front with
  | case1 a as b bs ih =>
      rw [List.cons_append, strip?]
      split
      · rename_i same
        rw [same, bne_self_eq_false, Bool.false_or] at clash
        exact ih clash
      · rfl
  | case2 => cases clash

theorem ne_nil_of_clashes {start front : List Char} (clash : clashes start front = true)
    : start ≠ [] ∧ front ≠ [] := by
  cases start with
  | nil => cases clash
  | cons a as =>
      cases front with
      | nil => cases clash
      | cons b bs => simp

theorem dropWhile_append_of_ne_nil {front : List Char} {part : Char → Bool}
    (nonempty : front.dropWhile part ≠ []) (rest : List Char)
    : (front ++ rest).dropWhile part = front.dropWhile part ++ rest := by
  rw [List.dropWhile_append, if_neg fun empty => nonempty (List.isEmpty_iff.mp empty)]

theorem strip?_append_of_strip? {opening start more : List Char}
    (stripped : strip? opening start = some more) (rest : List Char)
    : strip? opening (start ++ rest) = some (more ++ rest) := by
  rw [eq_append_of_strip? stripped, List.append_assoc, strip?_append]

theorem Form.read?_of_shuns {form : Form} {start : List Char} (shunned : form.shuns start = true)
    (rest : List Char)
    : form.read? (start ++ rest) = none := by
  unfold shuns at shunned
  unfold read?
  split at shunned
  · rename_i more stripped
    rw [strip?_append_of_strip? stripped]
    dsimp only
    rw [dropWhile_append_of_ne_nil (ne_nil_of_clashes shunned).2, strip?_of_clashes shunned]
    rfl
  · rw [strip?_of_clashes shunned]

/-- Whether nothing is read of a line with a given start, whatever it goes on with. -/
def isSilentStart (start : List Char) : Bool :=
  (longForms.all fun form => form.shuns start)
  && loadForm.shuns start
  && clashes callOpening.chars start

theorem readCall?_of_clashes {start : List Char} (clash : clashes callOpening.chars start = true)
    (rest : List Char)
    : readCall? (start ++ rest) = none := by
  rw [readCall?, strip?_of_clashes clash]

theorem findSome?_of_shuns {forms : List Form} {start : List Char}
    (shunned : ∀ form ∈ forms, form.shuns start = true) (rest : List Char)
    : (forms.findSome? fun form => form.read? (start ++ rest)) = none :=
  List.findSome?_eq_none_iff.mpr fun form member => Form.read?_of_shuns (shunned form member) rest

theorem readLine?_of_isSilentStart {start : List Char} (silent : isSilentStart start = true)
    (rest : List Char)
    : readLine? (start ++ rest) = none := by
  simp only [isSilentStart, Bool.and_eq_true, List.all_eq_true] at silent
  obtain ⟨⟨noLong, noLoad⟩, noCall⟩ := silent
  rw [readLine?, findSome?_of_shuns noLong, Form.read?_of_shuns noLoad,
    readCall?_of_clashes noCall]
  rfl

-----------------------------------------------------------------------------------------
-- Identifiers in lines
-----------------------------------------------------------------------------------------

theorem endsName_append {start : List Char}
    (stops : (start.head?.any fun c => !isWordChar c) = true) (rest : List Char)
    : EndsName (start ++ rest) := by
  cases start with
  | nil => cases stops
  | cons first later =>
      intro c head
      cases head
      simpa using stops

theorem forms_stop
    : ∀ form ∈ callForm :: loadForm :: longForms,
        (form.closing.chars.head?.any fun c => !isWordChar c) = true
        ∧ '\n' ∉ form.opening.chars
        ∧ '\n' ∉ form.closing.chars := by
  decide

theorem Form.read?_append {form : Form} (isForm : form ∈ callForm :: loadForm :: longForms)
    {name : List Char} (words : ∀ c ∈ name, isWordChar c = true) (rest : List Char)
    : form.read? (form.opening.chars ++ (name ++ (form.closing.chars ++ rest)))
      = some (form.role, String.ofList name) := by
  have ends := endsName_append (forms_stop form isForm).1 rest
  rw [read?, strip?_append]
  dsimp only
  rw [dropWhile_isWordChar words ends, takeWhile_isWordChar words ends, strip?_append,
    Option.isSome_some, if_pos rfl]

/-- No line with one of the longer openings is of a form before that one. -/
theorem pairwise_shuns
    : longForms.Pairwise fun earlier later => earlier.shuns later.opening.chars = true := by
  decide

theorem readLine?_long {form : Form} (isLong : form ∈ longForms) {name : List Char}
    (words : ∀ c ∈ name, isWordChar c = true) (rest : List Char)
    : readLine? (form.opening.chars ++ (name ++ (form.closing.chars ++ rest)))
      = some (form.role, String.ofList name) := by
  have own := Form.read?_append (.tail _ (.tail _ isLong)) words rest
  have apart := pairwise_shuns
  -- The forms in front of this one read nothing of its lines, so that it is the first that does.
  obtain ⟨front, back, split⟩ := List.append_of_mem isLong
  rw [split, List.pairwise_append] at apart
  have earlier : ∀ other ∈ front, other.shuns form.opening.chars = true :=
    fun other member => apart.2.2 other member form List.mem_cons_self
  rw [readLine?, split, List.findSome?_append, findSome?_of_shuns earlier, List.findSome?_cons, own]
  rfl

theorem strip?_append_append (front start rest : List Char)
    : strip? (front ++ start) (front ++ rest) = strip? start rest := by
  induction front with
  | nil => rfl
  | cons c front ih => simpa [strip?] using ih

/-- Whether a line with a given start and closing around a word cannot have an opening. -/
def misses (opening start closing : List Char) : Bool :=
  match strip? start opening with
  | some more => clashes (more.dropWhile isWordChar) closing
  | none => clashes opening start

/-- The word in the line may start like the opening, but what follows it does not go on like that.
-/
theorem strip?_of_misses {opening start closing name : List Char}
    (missed : misses opening start closing = true) (words : ∀ c ∈ name, isWordChar c = true)
    (stops : (closing.head?.any fun c => !isWordChar c) = true) (rest : List Char)
    : strip? opening (start ++ (name ++ (closing ++ rest))) = none := by
  unfold misses at missed
  split at missed
  · rename_i more stripped
    rw [eq_append_of_strip? stripped, strip?_append_append]
    have ends := endsName_append stops rest
    have apart := strip?_of_clashes missed rest
    cases found : strip? more (name ++ (closing ++ rest)) with
    | none => rfl
    | some behind =>
        have same := congrArg (List.dropWhile isWordChar) (eq_append_of_strip? found)
        rw [dropWhile_isWordChar words ends,
          dropWhile_append_of_ne_nil (ne_nil_of_clashes missed).1] at same
        rw [same, strip?_append] at apart
        cases apart
  · exact strip?_of_clashes missed _

/-- Lines that load a pointer have none of the longer openings. -/
theorem misses_load
    : ∀ form ∈ longForms,
        misses form.opening.chars loadForm.opening.chars loadForm.closing.chars = true := by
  decide

theorem Form.read?_of_strip? {form : Form} {line : List Char}
    (missing : strip? form.opening.chars line = none)
    : form.read? line = none := by
  rw [read?, missing]

theorem readLine?_load {name : List Char} (words : ∀ c ∈ name, isWordChar c = true)
    (rest : List Char)
    : readLine? (loadForm.opening.chars ++ (name ++ (loadForm.closing.chars ++ rest)))
      = some (.load, String.ofList name) := by
  have noLong
      : (longForms.findSome? fun form =>
            form.read? (loadForm.opening.chars ++ (name ++ (loadForm.closing.chars ++ rest))))
        = none :=
    List.findSome?_eq_none_iff.mpr fun form member =>
      Form.read?_of_strip?
        (strip?_of_misses (misses_load form member) words
          (forms_stop loadForm (.tail _ (.head _))).1 rest)
  rw [readLine?, noLong, Form.read?_append (.tail _ (.head _)) words]
  rfl

/-- Whether nothing is read of a line with a given start and closing around a word. -/
def isSilentAround (start closing : List Char) : Bool :=
  (longForms.all fun form => form.shuns start || misses form.opening.chars start closing)
  && (loadForm.shuns start && clashes callOpening.chars start)
  && closing.head?.any fun c => !isWordChar c

theorem readLine?_of_isSilentAround {start closing name : List Char}
    (silent : isSilentAround start closing = true) (words : ∀ c ∈ name, isWordChar c = true)
    : readLine? (start ++ (name ++ closing)) = none := by
  simp only [isSilentAround, Bool.and_eq_true, List.all_eq_true, Bool.or_eq_true] at silent
  obtain ⟨⟨noLong, noLoad, noCall⟩, stops⟩ := silent
  have none : (longForms.findSome? fun form => form.read? (start ++ (name ++ closing))) = none := by
    refine List.findSome?_eq_none_iff.mpr fun form member => ?_
    rcases noLong form member with shunned | missed
    · exact Form.read?_of_shuns shunned _
    · have missing := strip?_of_misses missed words stops []
      rw [List.append_nil] at missing
      exact Form.read?_of_strip? missing
  rw [readLine?, none, Form.read?_of_shuns noLoad, readCall?_of_clashes noCall]
  rfl

theorem behindLast_append {c : Char} {back : List Char} (absent : c ∉ back) (front : List Char)
    : behindLast c (front ++ c :: back) = back := by
  have others : ∀ d ∈ back.reverse, (d != c) = true := fun d member =>
    bne_of_not_mem absent d (List.mem_reverse.mp member)
  rw [behindLast, List.reverse_append, List.reverse_cons, List.append_assoc,
    List.takeWhile_append_of_pos others]
  simp

theorem shuns_callOpening
    : ∀ form ∈ loadForm :: longForms, form.shuns callOpening.chars = true := by
  decide

theorem callForm_marks : '>' ∉ callForm.opening.chars ++ callForm.closing.chars := by
  decide

/-- The types of a call may be anything. -/
theorem readLine?_call {name idents : List Char} (words : ∀ c ∈ name, isWordChar c = true)
    (absent : '>' ∉ idents) (types : List Char)
    : readLine? (callOpening.chars
          ++ (types ++ '>' :: (callForm.opening.chars
            ++ (name ++ (callForm.closing.chars ++ idents)))))
      = some (.call, String.ofList name) := by
  have noName : '>' ∉ name := fun member => by
    have word := words '>' member
    revert word
    decide
  have noMark
      : '>' ∉ callForm.opening.chars ++ (name ++ (callForm.closing.chars ++ idents)) := by
    have marks := callForm_marks
    simp only [List.mem_append, not_or] at marks ⊢
    exact ⟨marks.1, noName, marks.2, absent⟩
  have noLong := findSome?_of_shuns fun form member =>
    shuns_callOpening form (List.mem_cons_of_mem loadForm member)
  rw [readLine?, noLong, Form.read?_of_shuns (shuns_callOpening loadForm List.mem_cons_self),
    readCall?, strip?_append]
  dsimp only
  rw [behindLast_append noMark, Form.read?_append (.head _) words]
  rfl

-----------------------------------------------------------------------------------------
-- Lines
-----------------------------------------------------------------------------------------

/-- What a text that is one line has an identifier for. -/
structure Reads (line : String) (found : Option (Role × String)) : Prop where
  unbroken : IsUnbroken line
  read : readLine? line.toList = found

/-- A line of which nothing is read. -/
abbrev IsSilent (line : String) : Prop :=
  Reads line none

/-- A line is silent for its first characters, which are written out. -/
theorem isSilent_append {start : List Char} (silent : isSilentStart start = true ∧ '\n' ∉ start)
    {rest : String} (unbroken : IsUnbroken rest)
    : IsSilent (String.ofList start ++ rest) := by
  constructor
  · exact isUnbroken_append.mpr ⟨isUnbroken_ofList silent.2, unbroken⟩
  · rw [String.toList_append, String.toList_ofList]
    exact readLine?_of_isSilentStart silent.1 _

theorem isSilent_ofList {chars : List Char} (silent : '\n' ∉ chars ∧ readLine? chars = none)
    : IsSilent (String.ofList chars) := by
  constructor
  · exact isUnbroken_ofList silent.1
  · rw [String.toList_ofList]
    exact silent.2

/-- Lines with their characters. Those of a written line are found by comparing it with
`String.ofList`, which takes less than to compute them.
-/
inductive Spelled : List String → List (List Char) → Prop where
  | nil : Spelled [] []
  | cons {lines : List String} {spelled : List (List Char)} {chars : List Char}
      (later : Spelled lines spelled)
    : Spelled (String.ofList chars :: lines) (chars :: spelled)

theorem isSilent_of_spelled {lines : List String} {spelled : List (List Char)}
    (same : Spelled lines spelled)
    (silent : ∀ chars ∈ spelled, '\n' ∉ chars ∧ readLine? chars = none)
    : ∀ line ∈ lines, IsSilent line := by
  induction same with
  | nil => exact List.forall_mem_nil _
  | cons _ ih =>
      obtain ⟨first, others⟩ := List.forall_mem_cons.mp silent
      exact List.forall_mem_cons.mpr ⟨isSilent_ofList first, ih others⟩

@[simp]
theorem Fixed.toList_text (fixed : Fixed) : fixed.text.toList = fixed.chars := by
  rw [fixed.spelled, String.toList_ofList]

theorem Fixed.isUnbroken_text {fixed : Fixed} (solid : '\n' ∉ fixed.chars)
    : IsUnbroken fixed.text := by
  rwa [IsUnbroken, fixed.toList_text]

theorem Form.isUnbroken_texts {form : Form} (isForm : form ∈ callForm :: loadForm :: longForms)
    : IsUnbroken form.opening.text ∧ IsUnbroken form.closing.text := by
  obtain ⟨-, opening, closing⟩ := forms_stop form isForm
  exact ⟨Fixed.isUnbroken_text opening, Fixed.isUnbroken_text closing⟩

section

variable {name : String} (words : ∀ c ∈ name.toList, isWordChar c = true)

include words

/-- A line is silent for what stands around a word in it. -/
theorem isSilent_around (start closing : Fixed)
    (silent
      : isSilentAround start.chars closing.chars = true ∧ '\n' ∉ start.chars ++ closing.chars)
    : IsSilent (start.text ++ name ++ closing.text) := by
  obtain ⟨around, solid⟩ := silent
  rw [List.mem_append, not_or] at solid
  constructor
  · simp [Fixed.isUnbroken_text solid.1, isUnbroken_of_words words, Fixed.isUnbroken_text solid.2]
  · rw [String.toList_append, String.toList_append, Fixed.toList_text, Fixed.toList_text,
      List.append_assoc]
    exact readLine?_of_isSilentAround around words

theorem reads_long {form : Form} (isLong : form ∈ longForms) {rest : String}
    (unbroken : IsUnbroken rest)
    : Reads (form.opening.text ++ (name ++ (form.closing.text ++ rest)))
        (some (form.role, name)) := by
  obtain ⟨opening, closing⟩ := Form.isUnbroken_texts (.tail _ (.tail _ isLong))
  constructor
  · simp [opening, isUnbroken_of_words words, closing, unbroken]
  · simp only [String.toList_append, Fixed.toList_text, readLine?_long isLong words,
      String.ofList_toList]

theorem reads_whole {form : Form} (isLong : form ∈ longForms)
    : Reads (form.opening.text ++ name ++ form.closing.text) (some (form.role, name)) := by
  have none : IsUnbroken "" := isUnbroken_ofList (by decide)
  have reads := reads_long words isLong none
  rwa [String.append_empty, ← String.append_assoc] at reads

theorem reads_load
    : Reads (loadForm.opening.text ++ name ++ loadForm.closing.text) (some (.load, name)) := by
  obtain ⟨opening, closing⟩ := Form.isUnbroken_texts (.tail _ (.head _))
  have read := readLine?_load words []
  constructor
  · simp [opening, isUnbroken_of_words words, closing]
  · rw [List.append_nil, String.ofList_toList] at read
    simp only [String.toList_append, Fixed.toList_text, List.append_assoc, read]

theorem reads_call {types idents : String} (unbroken : IsUnbroken types)
    (solid : IsUnbroken idents) (absent : '>' ∉ idents.toList)
    : Reads
        (callOpening.text
          ++ (types ++ (">" ++ (callForm.opening.text
            ++ (name ++ (callForm.closing.text ++ idents))))))
        (some (.call, name)) := by
  have start : IsUnbroken callOpening.text := Fixed.isUnbroken_text (by decide)
  have mark : IsUnbroken ">" := isUnbroken_ofList (by decide)
  obtain ⟨opening, closing⟩ := Form.isUnbroken_texts (.head _)
  have read := readLine?_call words absent types.toList
  constructor
  · simp [start, mark, unbroken, opening, isUnbroken_of_words words, closing, solid]
  · have sign : ">".toList = ['>'] := String.toList_ofList
    rw [String.ofList_toList] at read
    simpa only [String.toList_append, Fixed.toList_text, sign, List.singleton_append] using read

end

-----------------------------------------------------------------------------------------
-- Texts of lines
-----------------------------------------------------------------------------------------

/-- What a text has identifiers for that ends with a line, whatever comes behind it. -/
def Gives (text : String) (found : List (Role × String)) : Prop :=
  ∀ rest, roles (text ++ rest) = found ++ roles rest

theorem gives_line {line : String} {found : Option (Role × String)} (reads : Reads line found)
    : Gives (line.push '\n') found.toList := by
  intro rest
  have solid : ∀ c ∈ line.toList, isBreak c = false := by
    intro c member
    refine beq_eq_false_iff_ne.mpr ?_
    rintro rfl
    exact reads.unbroken member
  have shape : (line.push '\n' ++ rest).toList = line.toList ++ '\n' :: rest.toList := by simp
  rw [roles, shape, cut_append_of_cut (by decide), cut_of_solid solid, List.filterMap_append,
    List.filterMap_cons, reads.read]
  cases found <;> rfl

theorem readLine?_nil : readLine? [] = none := by
  decide

theorem roles_empty : roles "" = [] := by
  simp [roles, cut, readLine?_nil]

theorem Gives.roles_eq {text : String} {found : List (Role × String)} (gives : Gives text found)
    : roles text = found := by
  have whole := gives ""
  rw [String.append_empty, roles_empty, List.append_nil] at whole
  exact whole

theorem Gives.append {front back : String} {first second : List (Role × String)}
    (one : Gives front first) (other : Gives back second)
    : Gives (front ++ back) (first ++ second) := by
  intro rest
  rw [String.append_assoc, one, other, List.append_assoc]

theorem gives_empty : Gives "" [] := by
  intro rest
  simp

theorem gives_nil : Gives (unlines []) [] :=
  gives_empty

theorem Gives.cons {line : String} {found : Option (Role × String)} {lines : List String}
    {more : List (Role × String)} (reads : Reads line found) (later : Gives (unlines lines) more)
    : Gives (unlines (line :: lines)) (found.toList ++ more) := by
  have joined : unlines (line :: lines) = line.push '\n' ++ unlines lines := by
    simp [unlines]
  rw [joined]
  exact (gives_line reads).append later

theorem gives_silent {lines : List String} (silent : ∀ line ∈ lines, IsSilent line)
    : Gives (unlines lines) [] := by
  induction lines with
  | nil => exact gives_nil
  | cons line lines ih =>
      obtain ⟨first, others⟩ := List.forall_mem_cons.mp silent
      exact Gives.cons first (ih others)

theorem gives_join {α : Type} {things : List α} {text : α → String}
    {found : α → List (Role × String)}
    (gives : ∀ thing ∈ things, Gives (text thing) (found thing))
    : Gives (String.join (things.map text)) (things.flatMap found) := by
  induction things with
  | nil => exact gives_empty
  | cons thing things ih =>
      obtain ⟨first, others⟩ := List.forall_mem_cons.mp gives
      rw [List.map_cons, String.join_cons, List.flatMap_cons]
      exact first.append (ih others)

end ApiBindings.Artifact
