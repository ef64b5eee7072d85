import ApiBindings.Proofs.Markup.Truncation
import ApiBindings.Proofs.Reading.Documents

/-! What is found in a document that is cut short.
An enumerant is told by a tag alone, so those of the cut document are the first of the whole one. A
command is told by all that is in its element, so the one that is open at the cut may be another one
in the end. All commands before it are the first of the whole document.
-/

namespace ApiBindings

open ApiBindings.Markup

-----------------------------------------------------------------------------------------
-- Items of a cut document
-----------------------------------------------------------------------------------------

/-- Items that are the first of a whole, but for the latest ones. -/
def Settles {α : Type} (latest cut whole : List α) : Prop :=
  ∃ settled, cut = settled ++ latest ∧ settled <+: whole

namespace Settles

variable {α β : Type} {latest cut whole : List α}

theorem self (items : List α) : Settles [] items items :=
  ⟨items, (List.append_nil items).symm, List.prefix_rfl⟩

theorem of_nil (whole : List α) : Settles [] [] whole :=
  ⟨[], rfl, List.nil_prefix⟩

theorem isPrefix (settles : Settles [] cut whole) : cut <+: whole := by
  obtain ⟨settled, rfl, isPrefix⟩ := settles
  rwa [List.append_nil]

/-- What is settled is in the whole, so all items are if the latest ones are. -/
theorem forall_mem_iff (settles : Settles latest cut whole)
    : (∀ item ∈ cut, item ∈ whole) ↔ ∀ item ∈ latest, item ∈ whole := by
  obtain ⟨settled, rfl, isPrefix⟩ := settles
  constructor
  · intro each item member
    exact each item (List.mem_append_right settled member)
  · intro each item member
    rcases List.mem_append.mp member with member | member
    · exact isPrefix.subset member
    · exact each item member

theorem append_left (settles : Settles latest cut whole) (front : List α)
    : Settles latest (front ++ cut) (front ++ whole) := by
  obtain ⟨settled, rfl, isPrefix⟩ := settles
  exact ⟨front ++ settled, (List.append_assoc _ _ _).symm,
    (List.prefix_append_right_inj front).mpr isPrefix⟩

theorem append_right (settles : Settles latest cut whole) (later : List α)
    : Settles latest cut (whole ++ later) := by
  obtain ⟨settled, rfl, isPrefix⟩ := settles
  exact ⟨settled, rfl, isPrefix.trans (List.prefix_append whole later)⟩

theorem append_nil (settles : Settles latest cut whole)
    : Settles latest (cut ++ []) (whole ++ []) := by
  rwa [List.append_nil, List.append_nil]

theorem map (settles : Settles latest cut whole) (change : α → β)
    : Settles (latest.map change) (cut.map change) (whole.map change) := by
  obtain ⟨settled, rfl, isPrefix⟩ := settles
  exact ⟨settled.map change, List.map_append, isPrefix.map change⟩

end Settles

namespace Document

open Findings

variable {α σ : Type} {opened cut whole : List Element}

/-- What elements are read into settles if that of the open one does. -/
theorem settles_collect (part : Findings.Part α) {read : σ → Element → Findings × σ}
    {latest : List α} (truncates : TruncatesElements opened cut whole) (complete : opened = [] → latest = [])
    (inside
      : ∀ short long inner, opened = short :: inner → long.tag = short.tag
        → Truncates inner short.children long.children
        → ∀ state, Settles latest (part.of (read state short).1) (part.of (read state long).1))
    (state : σ)
    : Settles latest (part.of (collect read state cut).1)
        (part.of (collect read state whole).1) := by
  cases truncates with
  | complete elements later =>
      rw [complete rfl, part.of_collect_append]
      exact (Settles.self _).append_right _
  | inside front short long later same truncates =>
      have here := inside short long _ rfl same truncates (collect read state front).2
      rw [part.of_collect_append, part.of_collect_append, collect_cons, collect_cons, collect,
        part.of_append, part.of_empty, List.append_nil, part.of_append]
      exact (here.append_right _).append_left _

-----------------------------------------------------------------------------------------
-- Elements of one tag
-----------------------------------------------------------------------------------------

section

variable {source : Source} {short long : Element}

theorem attribute?_congr (same : long.tag = short.tag) (name : String)
    : long.attribute? name = short.attribute? name := by
  rw [Element.attribute?, same, Element.attribute?]

theorem name_congr (same : long.tag = short.tag) : long.name = short.name := by
  rw [Element.name, same, Element.name]

theorem allows_congr (source : Source) (same : long.tag = short.tag)
    : source.allows long = source.allows short := by
  rw [Source.allows, attribute?_congr same, Source.allows]

theorem nonempty?_congr (same : long.tag = short.tag) (name : String)
    : nonempty? long name = nonempty? short name := by
  rw [nonempty?, attribute?_congr same, nonempty?]

theorem fault_congr (source : Source) (same : long.tag = short.tag) (label : String)
    (problem : Problem)
    : source.fault long label problem = source.fault short label problem := by
  rw [Source.fault, same, Source.fault]

/-- An enumerant is told by its tag. -/
theorem readEnumerant_congr (same : long.tag = short.tag) (blockGroup : Option String)
    (origin : Origin) (scope : Constant.Scope)
    : readEnumerant source blockGroup origin scope long
      = readEnumerant source blockGroup origin scope short := by
  obtain ⟨tag, cut⟩ := short
  obtain ⟨_, whole⟩ := long
  cases same
  rfl

theorem readItem_congr (same : long.tag = short.tag) (origin : Origin) (scope : Constant.Scope)
    : readItem source origin scope long = readItem source origin scope short := by
  obtain ⟨tag, cut⟩ := short
  obtain ⟨_, whole⟩ := long
  cases same
  rfl

/-- The elements of a name in an open element are cut short where it is. -/
theorem truncatesElements_named (truncates : Truncates opened short.children long.children)
    (name : String)
    : TruncatesElements (if opened.head?.any (fun child => child.name == name) then opened else [])
        (short.named name) (long.named name) :=
  truncates.elements.filter (fun child => child.name == name) fun one other same => by
    rw [name_congr same]

-----------------------------------------------------------------------------------------
-- Enumerants
-----------------------------------------------------------------------------------------

/-- Elements that are told by their tags are settled when they are open. -/
theorem settles_collect_of_tags (part : Findings.Part α) {read : σ → Element → Findings × σ}
    (truncates : TruncatesElements opened cut whole)
    (byTag
      : ∀ short long : Element, long.tag = short.tag → ∀ state, read state long = read state short)
    (state : σ)
    : Settles [] (part.of (collect read state cut).1) (part.of (collect read state whole).1) := by
  refine settles_collect part truncates (fun _ => rfl) (fun short long _ _ same _ state => ?_) state
  rw [byTag short long same]
  exact .self _

theorem settles_readEnums (same : long.tag = short.tag)
    (truncates : Truncates opened short.children long.children) (scope : Constant.Scope)
    : Settles [] (readEnums source scope short).1.enums (readEnums source scope long).1.enums := by
  unfold readEnums
  rw [nonempty?_congr same]
  exact settles_collect_of_tags Part.enums (truncatesElements_named truncates "enum")
    (fun short long same scope => readEnumerant_congr same _ _ scope) scope

theorem settles_readItems (truncates : Truncates opened short.children long.children)
    (origin : Origin) (scope : Constant.Scope)
    : Settles [] (readItems source origin scope short).1.enums
        (readItems source origin scope long).1.enums := by
  have items : TruncatesElements _ (blockItems source short) (blockItems source long) :=
    truncates.elements.filter _ fun one other same => by
      rw [name_congr same, allows_congr source same]
  exact settles_collect_of_tags Part.enums items
    (fun short long same scope => readItem_congr same origin scope) scope

theorem settles_blocks (truncates : Truncates opened short.children long.children) (origin : Origin)
    (kinds : List String) (scope : Constant.Scope)
    : Settles []
        (Findings.collect (readItems source origin) scope (blocks source short kinds)).1.enums
        (Findings.collect (readItems source origin) scope (blocks source long kinds)).1.enums := by
  have blocks : TruncatesElements _ (blocks source short kinds) (blocks source long kinds) :=
    truncates.elements.filter _ fun one other same => by
      rw [name_congr same, allows_congr source same]
  exact settles_collect Part.enums blocks (fun _ => rfl)
    (fun short long inner _ same truncates scope => settles_readItems truncates origin scope) scope

theorem settles_readFeature (same : long.tag = short.tag)
    (truncates : Truncates opened short.children long.children) (scope : Constant.Scope)
    : Settles [] (readFeature source scope short).1.enums
        (readFeature source scope long).1.enums := by
  unfold readFeature
  simp only [allows_congr source same, attribute?_congr same, fault_congr source same]
  split
  · exact .self _
  · split
    · split
      · exact .self _
      · exact (settles_blocks truncates _ ["require", "remove"] scope).append_nil
    · exact .self _

theorem settles_readExtension (same : long.tag = short.tag)
    (truncates : Truncates opened short.children long.children) (scope : Constant.Scope)
    : Settles [] (readExtension source scope short).1.enums
        (readExtension source scope long).1.enums := by
  unfold readExtension
  simp only [nonempty?_congr same, attribute?_congr same, fault_congr source same]
  split
  · exact .self _
  · exact (settles_blocks truncates _ ["require"] scope).append_nil

/-- The enumerants of a section that is open are the first of the whole section. -/
theorem enums_readSection_settles (same : long.tag = short.tag)
    (truncates : Truncates opened short.children long.children) (scope : Constant.Scope)
    : Settles [] (readSection source scope short).1.enums
        (readSection source scope long).1.enums := by
  have skips := Part.enums_skipsDefinitions
  have none {read : Element → Findings} (silent : ∀ element, Part.enums.of (read element) = [])
      (cut whole : List Element)
      : Settles [] (join (cut.map read)).enums (join (whole.map read)).enums := by
    have ofCut : (join (cut.map read)).enums = [] := Part.enums.of_join_map_eq_nil silent cut
    rw [ofCut]
    exact .of_nil _
  unfold readSection
  rw [name_congr same]
  split
  · exact none (of_readType skips source) _ _
  · split
    · exact settles_readEnums same truncates scope
    · split
      · exact none (of_readGroup skips source) _ _
      · split
        · exact none (of_readCommand skips source) _ _
        · split
          · exact settles_readFeature same truncates scope
          · split
            · refine settles_collect Part.enums (truncatesElements_named truncates "extension")
                (fun _ => rfl) (fun _ _ _ _ same truncates scope => ?_) scope
              exact settles_readExtension same truncates scope
            · exact .self _

-----------------------------------------------------------------------------------------
-- Commands
-----------------------------------------------------------------------------------------

/-- The element at the end of a way of names through the open elements. -/
def openedAt? : List String → List Element → Option Element
  | [name], element :: _ => if element.name = name then some element else none
  | name :: names, element :: inner =>
      if element.name = name then openedAt? names inner else none
  | _, _ => none

/-- The commands that an element is read into, if there is one. -/
def commandsOf (source : Source) (element : Option Element) : List Command :=
  (element.map fun element => (readCommand source element).commands).getD []

theorem commands_readFeature (source : Source) (scope : Constant.Scope) (element : Element)
    : (readFeature source scope element).1.commands = [] :=
  of_readFeature Part.commands_skipsEnumerants (fun _ => rfl) source scope element

theorem commands_readExtension (source : Source) (scope : Constant.Scope) (element : Element)
    : (readExtension source scope element).1.commands = [] := by
  unfold readExtension
  split
  · rfl
  · exact (List.append_nil _).trans
      (of_collect_readItems Part.commands_skipsEnumerants source _ scope _)

/-- Commands are found in their own sections only. -/
theorem commands_readSection {element : Element} (other : element.name ≠ "commands")
    (source : Source) (scope : Constant.Scope)
    : (readSection source scope element).1.commands = [] := by
  unfold readSection
  split
  · refine Part.commands.of_join_map_eq_nil (fun child => ?_) _
    unfold readType
    split <;> rfl
  · split
    · exact of_readEnums Part.commands_skipsEnumerants source scope element
    · split
      · refine Part.commands.of_join_map_eq_nil (fun child => ?_) _
        unfold readGroup
        split <;> rfl
      · split
        · exact commands_readFeature source scope element
        · split
          · exact Part.commands.of_collect_eq_nil (commands_readExtension source) scope _
          · rfl

/-- The commands of a section that is open are settled but for the one that is open in it. -/
theorem commands_readSection_settles (same : long.tag = short.tag)
    (truncates : Truncates opened short.children long.children) (scope : Constant.Scope)
    : Settles (commandsOf source (openedAt? ["commands", "command"] (short :: opened)))
        (readSection source scope short).1.commands (readSection source scope long).1.commands := by
  by_cases isCommands : short.name = "commands"
  · have read (element : Element) (named : element.name = "commands")
        : (readSection source scope element).1
          = (collect (fun (_ : Unit) child => (readCommand source child, ())) ()
              (element.named "command")).1 := by
      rw [← join_map_eq_collect]
      simp [readSection, named]
    have named := truncatesElements_named truncates "command"
    have latest
        : openedAt? ["commands", "command"] (short :: opened)
          = (if opened.head?.any fun child => child.name == "command" then opened else []).head? := by
      refine (if_pos isCommands).trans ?_
      cases opened with
      | nil => rfl
      | cons child inner => by_cases named : child.name = "command" <;> simp [openedAt?, named]
    rw [read short isCommands, read long ((name_congr same).trans isCommands), latest]
    refine settles_collect Part.commands named (fun none => ?_)
      (fun short long inner some same _ _ => ?_) ()
    · rw [none]
      rfl
    · rw [some]
      exact ⟨[], rfl, List.nil_prefix⟩
  · have none : openedAt? ["commands", "command"] (short :: opened) = none := if_neg isCommands
    rw [none, commands_readSection isCommands]
    exact .of_nil _

-----------------------------------------------------------------------------------------
-- Documents
-----------------------------------------------------------------------------------------

/-- A registry that is open has the first enumerants of the whole, and its commands are settled but
for the one that is open in it.
-/
theorem settles_readRegistry (truncates : Truncates opened short.children long.children)
    : Settles [] (readRegistry source short).enums (readRegistry source long).enums
      ∧ Settles (commandsOf source (openedAt? ["commands", "command"] opened))
          (readRegistry source short).commands (readRegistry source long).commands := by
  constructor
  · exact settles_collect Part.enums truncates.elements (fun _ => rfl)
      (fun _ _ _ _ same truncates scope => enums_readSection_settles same truncates scope)
      Constant.Scope.initial
  · refine settles_collect Part.commands truncates.elements (fun none => ?_)
      (fun _ _ _ some same truncates scope => ?_) Constant.Scope.initial
    · rw [none]
      rfl
    · rw [some]
      exact commands_readSection_settles same truncates scope

end

/-- The command that is open where a document is cut, if the cut is in one. -/
def openedCommand? (opened : List Element) : Option Element :=
  openedAt? ["registry", "commands", "command"] opened

/-- A document is read as its registry. -/
theorem readTree_of_elements {source : Source} {document root : Element}
    (single : document.elements = [root])
    : readTree source document
      = if root.name = "registry" then readRegistry source root
        else source.fault document "document" .noRegistry := by
  rw [readTree, Element.child?, single]
  by_cases named : root.name = "registry" <;> simp [named]

/-- What is found in a cut document of one root settles but for the command that is open. By cases
on whether the root is there, and whether it is open.
-/
theorem settles_readTree (source : Source) {short long root : Element}
    (truncates : Truncates opened short.children long.children) (single : long.elements = [root])
    : Settles [] (readTree source short).enums (readTree source long).enums
      ∧ Settles (commandsOf source (openedCommand? opened)) (readTree source short).commands
          (readTree source long).commands := by
  have elements := truncates.elements
  generalize ofShort : short.elements = cut, ofLong : long.elements = whole at elements
  rw [single] at ofLong
  cases elements with
  | complete elements later =>
      rcases List.append_eq_singleton_iff.mp ofLong.symm with ⟨rfl, rfl⟩ | ⟨rfl, rfl⟩
      · have nothing : readTree source short = source.fault short "document" .noRegistry := by
          rw [readTree, Element.child?, ofShort]
          rfl
        rw [nothing]
        exact ⟨.of_nil _, .of_nil _⟩
      · rw [readTree_of_elements ofShort, readTree_of_elements single]
        split
        · exact ⟨.self _, .self _⟩
        · exact ⟨.of_nil _, .of_nil _⟩
  | @inside within front first root' later alike inner =>
      obtain ⟨rfl, rfl⟩ : front = [] ∧ root' = root := by
        cases front with
        | nil => exact ⟨rfl, (List.cons.inj ofLong).1.symm⟩
        | cons _ front => simp at ofLong
      rw [readTree_of_elements ofShort, readTree_of_elements single, name_congr alike]
      by_cases named : first.name = "registry"
      · have here : openedCommand? (first :: within) = openedAt? ["commands", "command"] within :=
          if_pos named
        rw [if_pos named, if_pos named, here]
        exact settles_readRegistry inner
      · have none : openedCommand? (first :: within) = none := if_neg named
        rw [if_neg named, if_neg named, none]
        exact ⟨.of_nil _, .of_nil _⟩

end Document

end ApiBindings
