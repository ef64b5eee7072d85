import ApiBindings.Proofs.Reading.Parameters
import ApiBindings.Proofs.Reading.Pointers

/-! Pointers to functions as types and as parameters of prototypes.
One that has a calling convention is still one definition or one parameter, but under the name of
something behind it, or under a made one.
-/

namespace ApiBindings.Header

open ApiBindings.Text

-----------------------------------------------------------------------------------------
-- Function pointers
-----------------------------------------------------------------------------------------

/-- A pointer to a function: its return type, the named pointer, and the parameters of the function.
-/
structure FunctionPointer where
  returns : List Char
  pointer : List Char
  params : List Char

namespace FunctionPointer

/-- The parameters in parentheses. -/
def list (declared : FunctionPointer) : List Char :=
  '(' :: declared.params ++ [')']

def text (declared : FunctionPointer) : List Char :=
  declared.returns ++ (declared.pointer ++ declared.list)

/-- A type, a name in parentheses, and parameters whose brackets are in balance and that are not cut
into several statements.
-/
structure IsWritten (declared : FunctionPointer) (name : List Char) (called : Bool) : Prop where
  chars : IsTypeText declared.returns
  starts : StartsWord declared.returns
  points : PointsTo name called declared.pointer
  name : isIdentifier name = true
  statement : IsStatement declared.params
  /-- There are no commas outside of the parentheses. -/
  uncut : IsUncut ',' 1 declared.params
  /-- Nothing but the parentheses is open behind the parameters. -/
  closed : depthAfter 1 declared.params = 1

variable {declared : FunctionPointer} {name : List Char} {called : Bool}

-----------------------------------------------------------------------------------------
-- Layout
-----------------------------------------------------------------------------------------

theorem startsWord_list (declared : FunctionPointer) : StartsWord declared.list :=
  ⟨'(', _, rfl, by decide⟩

theorem exists_collapse_list (declared : FunctionPointer)
    : ∃ later, collapse declared.list = '(' :: (later ++ [')']) := by
  have closing : StartsWord [')'] := ⟨')', [], rfl, by decide⟩
  obtain ⟨later, shape⟩ := exists_collapseBefore_cons (c := '(') (by decide) declared.params
  refine ⟨later, ?_⟩
  rw [list, collapse_append closing, shape, collapse_singleton (by decide), List.cons_append]

namespace IsWritten

theorem startsWord_pointer (written : declared.IsWritten name called) (back : List Char)
    : StartsWord (declared.pointer ++ back) := by
  obtain ⟨inner, shape, -⟩ := written.points.exists_cons written.name
  exact ⟨'(', inner ++ [')'] ++ back, by rw [shape]; rfl, by decide⟩

theorem startsWord (written : declared.IsWritten name called) : StartsWord declared.text :=
  written.starts.append _

/-- The layout of a pointer to a function does not matter. -/
theorem collapse_text (written : declared.IsWritten name called)
    : collapse declared.text =
        collapseBefore declared.returns ++ (collapse declared.pointer ++ collapse declared.list) := by
  obtain ⟨inner, shape, -⟩ := written.points.exists_cons written.name
  have pointer : collapseBefore declared.pointer = collapse declared.pointer := by
    rw [shape, ← List.cons_append]
    exact collapseBefore_eq_collapse (by decide)
  rw [text, collapse_append (written.startsWord_pointer _),
    collapse_append declared.startsWord_list, pointer]

theorem isStatement (written : declared.IsWritten name called) : IsStatement declared.text := by
  have list : IsStatement declared.list :=
    IsStatement.append (List.forall_mem_cons.mpr ⟨by decide, written.statement⟩) (by decide)
  have pointer : IsStatement declared.pointer := by
    intro c member cuts
    have apart : ∀ sign ∈ cuttingSigns,
        isWordChar sign = false ∧ isBlank sign = false ∧ sign ∉ "*()".toList := by decide
    obtain ⟨word, blank, other⟩ := apart c cuts
    exact written.points.not_mem written.name word blank other member
  exact written.chars.isStatement.append (pointer.append list)

/-- What is in front of the parameters has nothing that opens, closes or separates but the
parentheses of the pointer.
-/
theorem depthAfter_front (written : declared.IsWritten name called)
    : depthAfter 0 (declared.returns ++ declared.pointer) = 0 := by
  have apart : ∀ sign ∈ "()[]".toList,
      isWordChar sign = false ∧ isBlank sign = false ∧ sign ≠ '*' := by decide
  have returns : ∀ c ∈ declared.returns, c ∉ "()[]".toList := by
    intro c member bracket
    obtain ⟨word, blank, star⟩ := apart c bracket
    exact written.chars.not_mem word blank star member
  obtain ⟨inner, shape, chars⟩ := written.points.exists_cons written.name
  have inner : ∀ c ∈ inner, c ∉ "()[]".toList := by
    intro c member bracket
    obtain ⟨word, blank, star⟩ := apart c bracket
    rcases chars c member with is | is | is
    · rw [blank] at is
      cases is
    · rw [word] at is
      cases is
    · exact star is
  rw [depthAfter_append, depthAfter_of_plain returns, shape, ← List.singleton_append,
    depthAfter_append, depthAfter_append, depthAfter_of_plain inner]
  rfl

/-- A comma does not cut a pointer to a function. -/
theorem isUncut_text (written : declared.IsWritten name called)
    : IsUncut ',' 0 declared.text ∧ depthAfter 0 declared.text = 0 := by
  have front : ',' ∉ declared.returns ++ declared.pointer := by
    simp only [List.mem_append, not_or]
    exact ⟨written.chars.not_mem (by decide) (by decide) (by decide),
      written.points.not_mem written.name (by decide) (by decide) (by decide)⟩
  have list : IsUncut ',' 0 declared.list ∧ depthAfter 0 declared.list = 0 := by
    have opened : depthBehind 0 '(' = 1 := rfl
    have closed : depthAfter 0 ('(' :: declared.params) = 1 := written.closed
    refine ⟨isUncut_append_iff.mpr ⟨isUncut_cons_iff.mpr ⟨by decide, opened ▸ written.uncut⟩,
      isUncut_of_not_mem (by decide)⟩, ?_⟩
    rw [FunctionPointer.list, depthAfter_append, closed]
    rfl
  rw [text, ← List.append_assoc]
  refine ⟨isUncut_append_iff.mpr ⟨isUncut_of_not_mem front, ?_⟩, ?_⟩
  · rw [written.depthAfter_front]
    exact list.1
  · rw [depthAfter_append, written.depthAfter_front]
    exact list.2

theorem exists_concat (declared : FunctionPointer) : ∃ front, declared.text = front ++ [')'] :=
  ⟨declared.returns ++ (declared.pointer ++ ('(' :: declared.params)), by simp [text, list]⟩

/-- A comma does not cut a pointer to a function once it is collapsed. -/
theorem isPiece_collapse (written : declared.IsWritten name called)
    : IsPiece ',' 0 (collapse declared.text) := by
  obtain ⟨uncut, closed⟩ := written.isUncut_text
  obtain ⟨front, shape⟩ := exists_concat declared
  have same : collapseBefore declared.text = collapse declared.text := by
    rw [shape]
    exact collapseBefore_eq_collapse (by decide)
  rw [← same]
  exact (uncut.collapseBefore (by decide)).isPiece ((depthAfter_collapseBefore 0 _).trans closed)

end IsWritten

-----------------------------------------------------------------------------------------
-- Names
-----------------------------------------------------------------------------------------

/-- The name under which a pointer to a function is recorded as a type. -/
def typeName (declared : FunctionPointer) (name : List Char) (called : Bool) : String :=
  if called then
    (definedName? (collapse declared.list)).getD (String.ofList name)
  else
    String.ofList name

/-- The name under which a pointer to a function is recorded as the parameter at a position. -/
def paramName (declared : FunctionPointer) (name : List Char) (called : Bool) (position : Nat)
    : String :=
  if called then
    match findFunctionPointer? (collapse declared.list) with
    | some (_, inner, _) => String.ofList inner
    | none => "arg" ++ toString position
  else
    String.ofList name

theorem IsWritten.not_mem_returns (written : declared.IsWritten name called) {sign : Char}
    (word : isWordChar sign = false) (blank : isBlank sign = false) (star : sign ≠ '*')
    : sign ∉ collapseBefore declared.returns :=
  written.chars.collapseBefore.not_mem word blank star

theorem IsWritten.definedName? (written : declared.IsWritten name called)
    : Header.definedName? ("typedef ".toList ++ collapse declared.text) =
        some (declared.typeName name called) := by
  have front {sign : Char} (word : isWordChar sign = false) (blank : isBlank sign = false)
      (star : sign ≠ '*') (other : sign ∉ "typedef ".toList)
      : sign ∉ "typedef ".toList ++ collapseBefore declared.returns :=
    mt List.mem_append.mp (not_or.mpr ⟨other, written.not_mem_returns word blank star⟩)
  have points := written.points.collapse written.name
  obtain ⟨later, shape⟩ := exists_collapse_list declared
  rw [written.collapse_text, typeName, ← List.append_assoc, shape,
    points.definedName? written.name (front (by decide) (by decide) (by decide) (by decide))
      (front (by decide) (by decide) (by decide) (by decide))]
  cases called with
  | false => rfl
  | true =>
      cases Header.definedName? ('(' :: (later ++ [')'])) with
      | none => rfl
      | some defined => rfl

/-- What ends in a parenthesis is no array lengths. -/
theorem arrays?_eq_none {cs : List Char} (last : cs.getLast? = some ')') : arrays? cs = none := by
  fun_induction arrays? cs with
  | case1 => cases last
  | case2 rest d after stops ih =>
      have whole : rest = rest.takeWhile (· != ']') ++ d :: after := by
        rw [← stops, List.takeWhile_append_dropWhile]
      have closing : d = ']' := by
        have first := List.head?_dropWhile_not (· != ']') rest
        rw [stops] at first
        simpa using first
      have behind : after.getLast? = some ')' := by
        rw [whole, closing] at last
        rcases List.eq_nil_or_concat' after with rfl | ⟨front, c, rfl⟩
        · rw [← List.cons_append, List.getLast?_concat] at last
          cases last
        · have ended : '[' :: (rest.takeWhile (· != ']') ++ ']' :: (front ++ [c])) =
              '[' :: (rest.takeWhile (· != ']') ++ ']' :: front) ++ [c] := by
            simp
          rw [ended, List.getLast?_concat] at last
          rw [List.getLast?_concat, last]
      rw [ih (getLast?_dropWhile (by decide) behind)]
      rfl
  | case3 => rfl
  | case4 => rfl

/-- No name is in front of array lengths alone in a text that ends in a parenthesis. -/
theorem findName_eq_none (front : List Char)
    : find? (fun _ rest => nameBeforeArrays? rest) none (front ++ [')']) = none := by
  refine find?_eq_none_iff.mpr fun first later shape => ?_
  cases later with
  | nil => rfl
  | cons c later =>
      have last : (c :: later).getLast? = some ')' := by
        have whole : (first ++ c :: later).getLast? = some ')' := by
          rw [← shape, List.getLast?_concat]
        rwa [List.getLast?_append_of_ne_nil _ (List.cons_ne_nil _ _)] at whole
      cases starts : isNameStart c with
      | false => simp [nameBeforeArrays?, identifier?, starts]
      | true =>
          have behind : later.getLast? = some ')' := by
            cases later with
            | nil =>
                cases last
                cases starts
            | cons d later => exact last
          have word : isWordChar ')' = false := by decide
          have blank : isBlank ')' = false := by decide
          have trimmed := getLast?_dropWhile blank (getLast?_dropWhile word behind)
          have missing := arrays?_eq_none trimmed
          rw [← trimStart] at missing
          simp [nameBeforeArrays?, identifier?, starts, missing]

/-- A pointer to a function is read as one parameter, which passes a value. -/
theorem IsWritten.readParam (written : declared.IsWritten name called) (position : Nat)
    : ∃ param,
        Header.readParam position (collapse declared.text) = .ok param
        ∧ param.name = declared.paramName name called position
        ∧ param.passing = .value := by
  have declare (named : String) {type : List Char} (function : '(' ∈ type)
      : (Param.declare named (String.ofList type)).passing = .value := by
    refine (CType.passing_eq_value_iff _).mpr (.inr ?_)
    rw [CType.parse, String.toList_ofList]
    exact List.contains_iff_mem.mpr function
  have points := written.points.collapse written.name
  have found := points.findFunctionPointer? written.name
    (written.not_mem_returns (by decide) (by decide) (by decide)) (collapse declared.list)
  obtain ⟨later, shape⟩ := exists_collapse_list declared
  have opening : '(' ∈ collapse declared.text := by
    rw [written.collapse_text, shape]
    exact List.mem_append_right _ (List.mem_append_right _ List.mem_cons_self)
  have full : (collapse declared.text).isEmpty = false := by
    simpa using List.ne_nil_of_mem opening
  have named : collapse declared.text ≠ "...".toList := by
    intro same
    rw [same] at opening
    exact absurd opening (by decide)
  rw [← written.collapse_text] at found
  have typed {before after : List Char} : '(' ∈ collapse (before ++ "(*)".toList ++ after) :=
    mem_collapse_of_mem (by simp) (by decide)
  rw [Header.readParam, full, if_neg Bool.false_ne_true, if_neg named, found, paramName]
  cases called with
  | false => exact ⟨_, rfl, rfl, declare _ typed⟩
  | true =>
      rw [if_pos rfl, if_pos rfl]
      cases findFunctionPointer? (collapse declared.list) with
      | some inner => exact ⟨_, rfl, rfl, declare _ typed⟩
      | none =>
          have unnamed : find? (fun _ rest => nameBeforeArrays? rest) none (collapse declared.text)
              = none := by
            rw [written.collapse_text, shape]
            have ends := findName_eq_none (collapseBefore declared.returns
              ++ (collapse declared.pointer ++ '(' :: later))
            simpa using ends
          rw [Option.map_none, unnamed]
          exact ⟨_, rfl, rfl, declare _ opening⟩

end FunctionPointer

-----------------------------------------------------------------------------------------
-- Parameters
-----------------------------------------------------------------------------------------

/-- A parameter as it is written: a type with a name behind it, or a pointer to a function. -/
inductive IsParam : List Char → Prop where
  | plain {param : Parameter} (written : param.IsWritten) : IsParam param.text
  | pointer {declared : FunctionPointer} {name : List Char} {called : Bool}
    (written : declared.IsWritten name called)
    : IsParam declared.text

/-- A text that is one parameter wherever it stands among others. -/
structure ReadsAlone (text : List Char) : Prop where
  starts : StartsWord text
  ends : ∃ front last, text = front ++ [last] ∧ isBlank last = false
  piece : IsPiece ',' 0 (collapse text)
  parted : ∃ c ∈ collapse text, isWordChar c = false
  reads : ∀ position, ∃ param, readParam position (collapse text) = .ok param

theorem Parameter.IsWritten.readsAlone {param : Parameter} (written : param.IsWritten)
    : ReadsAlone param.text := by
  obtain ⟨front, last, shape, solid⟩ := written.exists_concat
  have collapsed : collapse param.text = param.collapsed.text := by
    rw [← written.collapseBefore_text, shape, collapseBefore_eq_collapse solid]
  constructor
  · exact written.startsWord
  · exact ⟨front, last, shape, solid⟩
  · rw [collapsed]
    exact written.collapsed.isPiece_text
  · obtain ⟨c, last⟩ : ∃ c, param.collapsed.type.getLast? = some c :=
      ⟨_, List.getLast?_eq_some_getLast written.collapsed.type.starts.ne_nil⟩
    refine ⟨c, ?_, written.collapsed.type.ends c last⟩
    rw [collapsed]
    exact List.mem_append_left _ (List.mem_of_getLast? last)
  · intro position
    rw [collapsed]
    exact ⟨_, Parameter.readParam_text written position⟩

theorem FunctionPointer.IsWritten.readsAlone {declared : FunctionPointer} {name : List Char}
    {called : Bool} (written : declared.IsWritten name called)
    : ReadsAlone declared.text := by
  obtain ⟨front, shape⟩ := exists_concat declared
  constructor
  · exact written.startsWord
  · exact ⟨front, ')', shape, by decide⟩
  · exact written.isPiece_collapse
  · refine ⟨')', mem_collapse_of_mem ?_ (by decide), by decide⟩
    rw [shape]
    exact List.mem_concat_self
  · intro position
    obtain ⟨param, read, -⟩ := written.readParam position
    exact ⟨param, read⟩

theorem IsParam.readsAlone {text : List Char} (isParam : IsParam text) : ReadsAlone text := by
  cases isParam with
  | plain written => exact written.readsAlone
  | pointer written => exact written.readsAlone

theorem startsWord_intercalate {first : List Char} {rest : List (List Char)}
    (each : ∀ text ∈ first :: rest, ReadsAlone text)
    : StartsWord (", ".toList.intercalate (first :: rest)) := by
  have front := (each first List.mem_cons_self).starts
  cases rest with
  | nil => simpa using front
  | cons second rest =>
      rw [List.intercalate_cons_cons, List.append_assoc]
      exact front.append _

/-- Texts between commas are collapsed one by one. By induction on the texts. -/
theorem collapse_intercalate {texts : List (List Char)} (each : ∀ text ∈ texts, ReadsAlone text)
    : collapse (", ".toList.intercalate texts) = ", ".toList.intercalate (texts.map collapse) := by
  induction texts with
  | nil => rfl
  | cons first rest ih =>
      obtain ⟨here, later⟩ := List.forall_mem_cons.mp each
      cases rest with
      | nil => simp
      | cons second rest =>
          obtain ⟨front, last, shape, solid⟩ := here.ends
          have comma (cs : List Char) : StartsWord (", ".toList ++ cs) :=
            ⟨',', ' ' :: cs, rfl, by decide⟩
          have single : collapseBefore first = collapse first := by
            rw [shape, collapseBefore_eq_collapse solid]
          have more : words (", ".toList.intercalate (second :: rest)) ≠ [] :=
            (startsWord_intercalate later).words_ne_nil
          have step : collapse (", ".toList ++ ", ".toList.intercalate (second :: rest)) =
              ", ".toList ++ collapse (", ".toList.intercalate (second :: rest)) := by
            have spaced : words (' ' :: ", ".toList.intercalate (second :: rest)) ≠ [] := by
              rwa [words_cons_of_blank isBlank_space]
            have cut := collapse_cons_cons_of_blank (c := ',') (by decide) isBlank_space spaced
            rwa [collapse_cons_of_blank isBlank_space] at cut
          rw [List.intercalate_cons_cons, List.append_assoc, collapse_append (comma _), single, step,
            ih later]
          simp only [List.map_cons]
          rw [List.intercalate_cons_cons, List.append_assoc]

/-- Each of several texts is read as the parameter at its place. By induction on the texts. -/
theorem exists_readParamsFrom {texts : List (List Char)}
    (each : ∀ text ∈ texts, ∀ position, ∃ param, readParam position (trim text) = .ok param)
    (position : Nat)
    : ∃ params,
        readParamsFrom position texts = .ok params
        ∧ params.length = texts.length
        ∧ ∀ (index : Nat) (text : List Char), texts[index]? = some text →
          ∃ param, params[index]? = some param
            ∧ readParam (position + index) (trim text) = .ok param := by
  induction texts generalizing position with
  | nil => exact ⟨[], rfl, rfl, fun index text found => by simp at found⟩
  | cons first rest ih =>
      obtain ⟨here, later⟩ := List.forall_mem_cons.mp each
      obtain ⟨param, read⟩ := here position
      obtain ⟨params, others, size, found⟩ := ih later (position + 1)
      refine ⟨param :: params, ?_, by simp [size], fun index text among => ?_⟩
      · rw [readParamsFrom, read, others]
        rfl
      · cases index with
        | zero =>
            cases among
            exact ⟨param, rfl, read⟩
        | succ index =>
            obtain ⟨param, among, read⟩ := found index text among
            refine ⟨param, among, ?_⟩
            rwa [show position + (index + 1) = position + 1 + index by omega]

-----------------------------------------------------------------------------------------
-- Prototypes
-----------------------------------------------------------------------------------------

/-- A prototype by the texts of its parameters. -/
structure Signature where
  returns : List Char
  name : List Char
  params : List (List Char)

namespace Signature

def inner (signature : Signature) : List Char :=
  ", ".toList.intercalate signature.params

def text (signature : Signature) : List Char :=
  signature.returns ++ (signature.name ++ ('(' :: signature.inner ++ [')']))

structure IsWritten (signature : Signature) : Prop where
  returns : FrontsName signature.returns
  name : isIdentifier signature.name = true
  params : ∀ text ∈ signature.params, IsParam text

namespace IsWritten

variable {signature : Signature}

theorem readsAlone (written : signature.IsWritten) : ∀ text ∈ signature.params, ReadsAlone text :=
  fun text member => (written.params text member).readsAlone

theorem startsWord (written : signature.IsWritten) : StartsWord signature.text :=
  written.returns.starts.append _

/-- The prototype of a signature. -/
theorem prototype? (written : signature.IsWritten)
    : ∃ inner,
        Header.prototype? (collapse signature.text) = some {
          returns := collapse signature.returns
          name := signature.name
          params := inner
        }
        ∧ trim inner = collapse signature.inner := by
  have returns : trim (collapseBefore signature.returns) = collapse signature.returns :=
    trim_collapseBefore signature.returns
  have shape := @collapse_call signature.returns signature.name written.name signature.inner
  cases none : signature.params with
  | nil =>
      have empty : signature.inner = [] := by
        rw [inner, none]
        rfl
      rw [empty, collapseBefore_singleton (by decide)] at shape
      refine ⟨[], ?_, by rw [empty]; rfl⟩
      rw [← returns, text, empty, shape]
      exact prototype?_call written.returns.collapsed written.name []
  | cons first rest =>
      have starts : StartsWord signature.inner := by
        rw [inner, none]
        exact startsWord_intercalate (none ▸ written.readsAlone)
      rw [collapseBefore_cons_of_startsWord (by decide) starts] at shape
      refine ⟨_, ?_, trim_collapseBefore signature.inner⟩
      rw [← returns, text, shape]
      exact prototype?_call written.returns.collapsed written.name _

/-- The parameters of a signature are read one by one. -/
theorem exists_readParams (written : signature.IsWritten) {inner : List Char}
    (trimmed : trim inner = collapse signature.inner)
    : ∃ params,
        readParams inner = .ok params
        ∧ params.length = signature.params.length
        ∧ ∀ (index : Nat) (text : List Char), signature.params[index]? = some text →
          ∃ param, params[index]? = some param ∧ readParam index (collapse text) = .ok param := by
  rw [readParams, trimmed]
  cases shape : signature.params with
  | nil =>
      have empty : signature.inner = [] := by
        rw [Signature.inner, shape]
        rfl
      rw [empty]
      exact ⟨[], rfl, rfl, fun index text found => by simp at found⟩
  | cons first rest =>
      have each : ∀ text ∈ first :: rest, ReadsAlone text := shape ▸ written.readsAlone
      have whole : collapse signature.inner =
          ", ".toList.intercalate (collapse first :: rest.map collapse) := by
        rw [Signature.inner, shape, collapse_intercalate each, List.map_cons]
      have some? : ((collapse signature.inner).isEmpty
          || collapse signature.inner == "void".toList) = false := by
        obtain ⟨c, inside, parted⟩ := (each first List.mem_cons_self).parted
        have member : c ∈ collapse signature.inner := by
          rw [whole]
          exact mem_intercalate_cons inside
        have void : collapse signature.inner ≠ "void".toList := by
          intro same
          have word : ∀ c ∈ "void".toList, isWordChar c = true := by decide
          rw [word c (same ▸ member)] at parted
          cases parted
        rw [List.isEmpty_eq_false_iff.mpr (List.ne_nil_of_mem member), Bool.false_or]
        exact beq_eq_false_iff_ne.mpr void
      have pieces : ∀ piece ∈ collapse first :: rest.map collapse, IsPiece ',' 0 piece := by
        rw [← List.map_cons]
        exact List.forall_mem_map.mpr fun text member => (each text member).piece
      have spaced (text : List Char) : trim (' ' :: collapse text) = collapse text := by
        rw [trim, trimStart_cons_of_blank isBlank_space, ← trim, trim_collapse]
      rw [some?, if_neg Bool.false_ne_true, whole, cutOutside_intercalate pieces, List.map_map]
      have reads : ∀ text ∈ collapse first :: rest.map ((' ' :: ·) ∘ collapse),
          ∀ position, ∃ param, readParam position (trim text) = .ok param := by
        refine List.forall_mem_cons.mpr ⟨?_, List.forall_mem_map.mpr fun text member => ?_⟩
        · rw [trim_collapse]
          exact (each first List.mem_cons_self).reads
        · rw [Function.comp_apply, spaced]
          exact (each text (List.mem_cons_of_mem first member)).reads
      obtain ⟨params, read, size, found⟩ := exists_readParamsFrom reads 0
      refine ⟨params, read, by simpa using size, fun index text among => ?_⟩
      cases index with
      | zero =>
          cases among
          obtain ⟨param, there, read⟩ := found 0 (collapse first) rfl
          exact ⟨param, there, by rwa [trim_collapse] at read⟩
      | succ index =>
          have among : (rest.map ((' ' :: ·) ∘ collapse))[index]? = some (' ' :: collapse text) := by
            rw [List.getElem?_cons_succ] at among
            rw [List.getElem?_map, among]
            rfl
          obtain ⟨param, there, read⟩ := found (index + 1) (' ' :: collapse text) among
          rw [spaced, Nat.zero_add] at read
          exact ⟨param, there, read⟩

end IsWritten

end Signature

-----------------------------------------------------------------------------------------
-- Recorded names
-----------------------------------------------------------------------------------------

/-- The generator finds the name of a pointer to a function. -/
theorem FunctionPointer.IsWritten.find?_pointerName? {declared : FunctionPointer}
    {name : List Char} {called : Bool} (written : declared.IsWritten name called)
    : find? (fun _ rest => Code.pointerName? rest) none declared.text =
        some (declared.returns, name, declared.list) := by
  have absent : '(' ∉ declared.returns :=
    written.chars.not_mem (by decide) (by decide) (by decide)
  rw [text, find?_append, find?_of_some (written.points.pointerName? written.name declared.list)]
  · simp
  · intro first c later shape
    have other : '(' ≠ c := by
      rintro rfl
      exact absent (shape ▸ List.mem_append_right _ List.mem_cons_self)
    rw [List.cons_append, Code.pointerName?, strip?_cons_of_ne other]
    rfl

/-- A header that defines a pointer to a function records its type under one name. -/
theorem FunctionPointer.IsWritten.names_read {declared : FunctionPointer} {name : List Char}
    {called : Bool} (written : declared.IsWritten name called) {dialect : Dialect}
    {fragment : Fragment} (shape : fragment.text.toList = "typedef ".toList ++ declared.text ++ [';'])
    : (read dialect [fragment]).types.map TypeDecl.name = [declared.typeName name called] := by
  have types : Findings.Part.types.SkipsInterfaces := fun _ _ => rfl
  exact congrArg (List.map TypeDecl.name) (of_read_typedef dialect fragment written.isStatement
    written.startsWord.words_ne_nil written.definedName? shape types)

/-- A pointer to a function is one type, as a definition, or one parameter, which passes a value.
The generator finds its name. The reader of headers records it under this name if it has no calling
convention, and otherwise only if what it takes for the name is the same by chance.
-/
theorem functionPointer_named_iff {declared : FunctionPointer} {name : List Char} {called : Bool}
    (written : declared.IsWritten name called)
    : find? (fun _ rest => Code.pointerName? rest) none declared.text
        = some (declared.returns, name, declared.list)
      ∧ (∀ {dialect : Dialect} {fragment : Fragment},
          fragment.text.toList = "typedef ".toList ++ declared.text ++ [';'] →
          ∃ type,
            (read dialect [fragment]).types = [type]
            ∧ (read dialect [fragment]).commands = []
            ∧ (read dialect [fragment]).enums = []
            ∧ (read dialect [fragment]).faults = []
            ∧ (type.name = String.ofList name
              ↔ called = false
                ∨ (definedName? (collapse declared.list)).getD (String.ofList name)
                  = String.ofList name))
      ∧ ∀ {dialect : Dialect} {fragment : Fragment} {declaration : List Char}
          {signature : Signature} {index : Nat},
          signature.IsWritten →
          signature.params[index]? = some declared.text →
          Leaves dialect.markers declaration signature.text →
          fragment.text.toList = declaration ++ [';'] →
          ∃ command param,
            (read dialect [fragment]).commands = [command]
            ∧ (read dialect [fragment]).types = []
            ∧ (read dialect [fragment]).enums = []
            ∧ (read dialect [fragment]).faults = []
            ∧ command.name = String.ofList signature.name
            ∧ command.params.length = signature.params.length
            ∧ command.params[index]? = some param
            ∧ param.passing = .value
            ∧ (param.name = String.ofList name
              ↔ called = false
                ∨ ((findFunctionPointer? (collapse declared.list)).map
                    fun found => String.ofList found.2.1).getD ("arg" ++ toString index)
                  = String.ofList name) := by
  have commands : Findings.Part.commands.SkipsInterfaces := fun _ _ => rfl
  have enums : Findings.Part.enums.SkipsInterfaces := fun _ _ => rfl
  have types : Findings.Part.types.SkipsInterfaces := fun _ _ => rfl
  have faults : Findings.Part.faults.SkipsInterfaces := fun _ _ => rfl
  refine ⟨written.find?_pointerName?, fun {dialect fragment} shape => ?_,
    fun {dialect fragment declaration signature index} whole among leaves shape => ?_⟩
  · have read {α : Type} {part : Findings.Part α} (skips : part.SkipsInterfaces) :=
      of_read_typedef dialect fragment written.isStatement written.startsWord.words_ne_nil
        written.definedName? shape skips
    refine ⟨_, read types, read commands, read enums, read faults, ?_⟩
    cases called with
    | false => exact iff_of_true rfl (.inl rfl)
    | true => simp [FunctionPointer.typeName]
  · obtain ⟨inner, prototype, trimmed⟩ := whole.prototype?
    obtain ⟨params, read, size, found⟩ := whole.exists_readParams trimmed
    obtain ⟨param, there, same⟩ := found index declared.text among
    obtain ⟨_, parsed, named, value⟩ := written.readParam index
    obtain rfl := Except.ok.inj (same.symm.trans parsed)
    have typed : (collapse signature.returns).isEmpty = false := by
      simpa using whole.returns.starts.collapse.ne_nil
    have read {α : Type} {part : Findings.Part α} (skips : part.SkipsInterfaces) :=
      leaves.read whole.startsWord prototype typed read shape skips
    refine ⟨_, param, read commands, read types, read enums, read faults, rfl, size, there, value, ?_⟩
    rw [named, FunctionPointer.paramName]
    cases called with
    | false => exact iff_of_true rfl (.inl rfl)
    | true =>
        cases findFunctionPointer? (collapse declared.list) with
        | some found => simp
        | none => simp

/-- `void (*vx_log_f)(int level)` -/
def logFunction : FunctionPointer where
  returns := "void ".toList
  pointer := "(*vx_log_f)".toList
  params := "int level".toList

/-- A prototype with the pointer among its parameters. -/
def setLog : Signature where
  returns := "vx_status ".toList
  name := "vxSetLog".toList
  params := ["int size".toList, logFunction.text]

def logHeader : Fragment where
  name := "vx.h"
  role := .feature { major := 1, minor := 0 }
  text := "typedef void (*vx_log_f)(int level);"

def setLogHeader : Fragment where
  name := "vx.h"
  role := .feature { major := 1, minor := 0 }
  text := "VX_API_ENTRY vx_status VX_API_CALL vxSetLog(int size, void (*vx_log_f)(int level));"

theorem logFunction_isWritten : logFunction.IsWritten "vx_log_f".toList false where
  chars := by decide
  starts := ⟨_, _, rfl, by decide⟩
  points := @PointsTo.intro _ _ ['('] [] [] (.plain (by decide)) (by decide)
  name := by decide
  statement := by decide
  uncut := isUncut_of_not_mem (by decide)
  closed := by decide

theorem setLog_isWritten : setLog.IsWritten where
  returns := ⟨by decide, ⟨_, _, rfl, by decide⟩, by decide⟩
  name := by decide
  params := by
    have size : Parameter.IsWritten
        { type := "int ".toList, name := "size".toList, lengths := [] } :=
      ⟨⟨by decide, ⟨_, _, rfl, by decide⟩, by decide⟩, by decide, by decide⟩
    exact List.forall_mem_cons.mpr
      ⟨.plain size, List.forall_mem_singleton.mpr (.pointer logFunction_isWritten)⟩

theorem setLogHeader_leaves
    : Leaves entryMarkers setLogHeader.text.toList.dropLast setLog.text := by
  -- The signs of a literal, which would be decoded in each of the facts otherwise.
  have text : setLogHeader.text.toList = _ := String.toList_ofList
  rw [text]
  exact {
    statement := by decide
    plain := by decide
    found := ⟨_, List.mem_cons_self, by decide⟩
    same := by decide }

theorem logFunction_named
    : logFunction.IsWritten "vx_log_f".toList false
      ∧ setLog.IsWritten
      ∧ setLog.params[1]? = some logFunction.text
      ∧ Leaves entryMarkers setLogHeader.text.toList.dropLast setLog.text
      ∧ (∃ type,
          (read { api := .vx, markers := entryMarkers } [logHeader]).types = [type]
          ∧ type.name = "vx_log_f")
      ∧ ∃ command param,
          (read { api := .vx, markers := entryMarkers } [setLogHeader]).commands = [command]
          ∧ command.params[1]? = some param
          ∧ param.passing = .value
          ∧ param.name = "vx_log_f" := by
  obtain ⟨-, typedef, prototype⟩ := functionPointer_named_iff logFunction_isWritten
  refine ⟨logFunction_isWritten, setLog_isWritten, rfl, setLogHeader_leaves, ?_, ?_⟩
  · have text : logHeader.text.toList = _ := String.toList_ofList
    have shape : logHeader.text.toList = "typedef ".toList ++ logFunction.text ++ [';'] := by
      rw [text]
      decide
    obtain ⟨type, types, -, -, -, named⟩ := @typedef { api := .vx, markers := entryMarkers } _ shape
    exact ⟨type, types, named.mpr (.inl rfl)⟩
  · have text : setLogHeader.text.toList = _ := String.toList_ofList
    have shape
        : setLogHeader.text.toList = setLogHeader.text.toList.dropLast ++ [';'] := by
      rw [text]
      decide
    obtain ⟨command, param, commands, -, -, -, -, -, there, value, named⟩ :=
      @prototype { api := .vx, markers := entryMarkers } setLogHeader _ _ 1 setLog_isWritten rfl
        setLogHeader_leaves shape
    exact ⟨command, param, commands, there, value, named.mpr (.inl rfl)⟩

/-- `void (VX_CALLBACK *vx_log_callback_f)(vx_context context, vx_status status)` -/
def logCallback : FunctionPointer where
  returns := "void ".toList
  pointer := "(VX_CALLBACK *vx_log_callback_f)".toList
  params := "vx_context context, vx_status status".toList

def logCallbackHeader : Fragment where
  name := "vx.h"
  role := .feature { major := 1, minor := 0 }
  text := "typedef void (VX_CALLBACK *vx_log_callback_f)(vx_context context, vx_status status);"

theorem logCallback_isWritten : logCallback.IsWritten "vx_log_callback_f".toList true := by
  have params : logCallback.params = _ := String.toList_ofList
  exact {
    chars := by decide
    starts := ⟨_, _, rfl, by decide⟩
    points := @PointsTo.intro _ _ "(VX_CALLBACK ".toList [] []
      (@Opens.called [] "VX_CALLBACK".toList [' '] (by decide +kernel) (by decide) (by decide))
      (by decide +kernel)
    name := by decide
    statement := by
      rw [params]
      decide +kernel
    uncut := by
      rw [params]
      exact isUncut_of_plain (by decide +kernel) (by decide +kernel)
    closed := by
      rw [params]
      decide +kernel }

/-- A pointer with a calling convention is defined under the name of a parameter. -/
theorem logCallback_misnamed
    : logCallback.IsWritten "vx_log_callback_f".toList true
      ∧ logCallbackHeader.text.toList = "typedef ".toList ++ logCallback.text ++ [';']
      ∧ (read { api := .vx, markers := entryMarkers } [logCallbackHeader]).types.map TypeDecl.name
        = ["status"] := by
  have text : logCallbackHeader.text.toList = _ := String.toList_ofList
  have params : logCallback.params = _ := String.toList_ofList
  have shape : logCallbackHeader.text.toList = "typedef ".toList ++ logCallback.text ++ [';'] := by
    rw [text, FunctionPointer.text, FunctionPointer.list, params]
    decide
  refine ⟨logCallback_isWritten, shape, (logCallback_isWritten.names_read shape).trans ?_⟩
  rw [FunctionPointer.typeName, FunctionPointer.list, params]
  decide +kernel

end ApiBindings.Header
