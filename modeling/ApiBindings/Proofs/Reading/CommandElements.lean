import ApiBindings.Proofs.Reading.Prototypes
import ApiBindings.Proofs.Reading.Sections

/-! What a document makes of a prototype whose names are marked up.
The text of a prototype or a parameter without its name is its type, with the array lengths behind
it. So the command is that of the prototype, and only an element says more of a parameter.
-/

namespace ApiBindings.Document

open ApiBindings.Header
open ApiBindings.Markup
open ApiBindings.Text

/-- The name of an element, and its text apart from that name. -/
structure Spells (element : Element) (name outside : List Char) : Prop where
  name : (element.child? "name").map Element.text = some (String.ofList name)
  outside : textOfNodes (some "name") element.children = outside

/-- An element for a command that has the same text as a function, with the names marked up. -/
structure SpellsFunction (source : Source) (element : Element) (function : Function) : Prop where
  allowed : source.allows element = true
  proto : ∃ proto, element.child? "proto" = some proto
    ∧ Spells proto function.name function.returns
  params
    : List.Forall₂ (fun child param =>
        Spells child param.name (param.type ++ Parameter.brackets param.lengths))
      ((element.named "param").filter source.allows) function.params

variable {source : Source} {element : Element}

-----------------------------------------------------------------------------------------
-- Parameters
-----------------------------------------------------------------------------------------

/-- There is one opening bracket for each length. By induction on the lengths. -/
theorem count_brackets {lengths : List (List Char)}
    (words : ∀ length ∈ lengths, ∀ c ∈ length, isWordChar c = true)
    : (Parameter.brackets lengths).count '[' = lengths.length := by
  induction lengths with
  | nil => rfl
  | cons first rest ih =>
      obtain ⟨here, later⟩ := List.forall_mem_cons.mp words
      have plain : first.count '[' = 0 := by
        refine List.count_eq_zero.mpr fun member => ?_
        exact absurd (here _ member) (by decide)
      have ih := ih later
      simp only [Parameter.brackets, List.flatMap_cons, List.count_append] at ih ⊢
      rw [ih, List.count_cons, plain]
      simp
      omega

/-- Nothing of the lengths is in front of the first bracket. -/
theorem takeWhile_brackets {type : List Char} (absent : '[' ∉ type) (lengths : List (List Char))
    : (type ++ Parameter.brackets lengths).takeWhile (· != '[') = type := by
  rw [List.takeWhile_append_of_pos (bne_of_not_mem absent)]
  rcases Parameter.brackets_cases lengths with empty | ⟨rest, shape⟩
  · rw [empty, List.takeWhile_nil, List.append_nil]
  · rw [shape]
    simp

theorem paramType_spelled {param : Parameter} (proper : param.IsProper)
    (spells : Spells element param.name (param.type ++ Parameter.brackets param.lengths))
    : paramType element
      = String.ofList (collapse param.type ++ Parameter.stars param.lengths.length) := by
  have absent : '[' ∉ param.type :=
    proper.type.chars.not_mem (by decide) (by decide) (by decide)
  have plain : param.type.count '[' = 0 := List.count_eq_zero.mpr absent
  rw [paramType, spells.outside, takeWhile_brackets absent, List.count_append,
    count_brackets proper.lengths, plain, Nat.zero_add]
  rfl

/-- A parameter is read as it is declared, with the group and the length that its element gives. -/
theorem readParam_spelled {param : Parameter} (proper : param.IsProper)
    (spells : Spells element param.name (param.type ++ Parameter.brackets param.lengths))
    (position : Nat)
    : readParam position element
      = .ok { param.declared with
          group := element.attribute? "group"
          length := element.attribute? "len"
        } := by
  have named : String.ofList param.name ≠ "" :=
    ofList_ne_empty (ne_nil_of_isIdentifier proper.name)
  have typed (stars : List Char) : String.ofList (collapse param.type ++ stars) ≠ "" :=
    ofList_ne_empty (List.append_ne_nil_of_left_ne_nil proper.type.starts.collapse.ne_nil stars)
  rw [readParam, spells.name, paramType_spelled proper spells, Option.getD_some]
  dsimp only
  rw [if_neg named, if_neg (typed _)]
  rfl

/-- What two parameters have in common if only their elements differ. -/
def SameParam (one other : Param) : Prop :=
  one.name = other.name ∧ one.type = other.type ∧ one.passing = other.passing

theorem sameParam_of_groups (param : Param) (group length : Option String)
    : SameParam param { param with group, length } :=
  ⟨rfl, rfl, rfl⟩

/-- Every parameter is read, whatever positions they have. By induction on the parameters. -/
theorem readParam_each {elements : List Element} {params : List Parameter}
    (proper : ∀ param ∈ params, param.IsProper)
    (spells
      : List.Forall₂ (fun child param =>
          Spells child param.name (param.type ++ Parameter.brackets param.lengths))
        elements params)
    (position : Nat → Nat)
    : List.Forall₂ (fun read param => ∃ found, read.2 = .ok found ∧ SameParam param.declared found)
        (elements.mapIdx fun index child => (child, readParam (position index) child)) params := by
  induction spells generalizing position with
  | nil => exact .nil
  | cons here later ih =>
      obtain ⟨first, others⟩ := List.forall_mem_cons.mp proper
      rw [List.mapIdx_cons]
      refine .cons ⟨_, readParam_spelled first here (position 0), sameParam_of_groups _ _ _⟩ ?_
      exact ih others fun index => position (index + 1)

theorem map_numbered {α : Type} (change : Nat × Element → α) (elements : List Element)
    : (numbered elements).map change
      = elements.mapIdx fun index child => change (index + 1, child) :=
  List.ext_getElem (by simp [numbered]) (by simp [numbered])

/-- All parameters of a command are read, and none of them is at fault. -/
theorem readParams_spelled {elements : List Element} {params : List Parameter}
    (proper : ∀ param ∈ params, param.IsProper)
    (spells
      : List.Forall₂ (fun child param =>
          Spells child param.name (param.type ++ Parameter.brackets param.lengths))
        elements params)
    (source : Source) (label : String)
    : (readParams source label elements).1.faults = []
      ∧ List.Forall₂ SameParam (params.map Parameter.declared)
          (readParams source label elements).2 := by
  have each := readParam_each proper spells fun index => index + 1
  unfold readParams
  rw [map_numbered]
  dsimp only
  generalize elements.mapIdx _ = read at each
  clear spells
  rw [show ∀ found : Findings, found.faults = Findings.Part.faults.of found from fun _ => rfl,
    Findings.Part.of_join, List.flatMap_map]
  induction each with
  | nil => exact ⟨rfl, .nil⟩
  | cons here later ih =>
      obtain ⟨found, outcome, agrees⟩ := here
      obtain ⟨faultless, rest⟩ := ih (List.forall_mem_cons.mp proper).2
      rw [List.flatMap_cons, faultless, List.filterMap_cons, outcome, List.map_cons]
      exact ⟨rfl, .cons agrees rest⟩

/-- The command that an element spells is recorded, and nothing else. -/
theorem readCommand_spelled {function : Function} (proper : function.IsProper)
    (spells : SpellsFunction source element function)
    : ∃ command,
        readCommand source element = { commands := [command] }
        ∧ command.name = String.ofList function.name
        ∧ command.returns = String.ofList (collapse function.returns)
        ∧ List.Forall₂ SameParam (function.params.map Parameter.declared) command.params := by
  obtain ⟨proto, inside, named⟩ := spells.proto
  obtain ⟨faultless, params⟩ := readParams_spelled proper.params spells.params source
    ("command " ++ String.ofList function.name)
  have full : String.ofList function.name ≠ "" :=
    ofList_ne_empty (ne_nil_of_isIdentifier proper.name)
  have typed : String.ofList (collapse function.returns) ≠ "" :=
    ofList_ne_empty proper.returns.starts.collapse.ne_nil
  have prototype : readPrototype proto =
      .ok (String.ofList function.name, String.ofList (collapse function.returns)) := by
    rw [readPrototype, named.name, Element.textOutside, named.outside]
    rw [Option.filter_some_pos (by simpa using full)]
  generalize read : readParams source ("command " ++ String.ofList function.name)
    ((element.named "param").filter source.allows) = outcome at faultless params
  obtain ⟨faults, found⟩ := outcome
  let declared := Command.declare (String.ofList function.name)
    (String.ofList (collapse function.returns)) found .unattributed source.name
  refine ⟨{ declared with
    returnGroup := proto.attribute? "group"
    aliasOf := (element.child? "alias").bind fun other => other.attribute? "name" }, ?_, rfl, rfl,
    params⟩
  dsimp only at faultless
  rw [readCommand, spells.allowed, inside]
  dsimp only
  rw [prototype]
  dsimp only
  rw [if_neg typed, read]
  dsimp only
  rw [faultless]
  rfl

end ApiBindings.Document
