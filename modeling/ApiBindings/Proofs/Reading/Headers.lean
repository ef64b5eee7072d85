import ApiBindings.Header.Reader
import ApiBindings.Proofs.Reading.Shares
import ApiBindings.Proofs.Reading.Statements
import ApiBindings.Resolution

/-! What a header stands for requires exactly the symbols that are found in it.
The items of a header are read into symbols, types and faults only. The version or extension that
the header stands for is declared behind them, once, with one block that names all the symbols.
-/

namespace ApiBindings

namespace Findings.Part

variable {α : Type} (part : Findings.Part α)

/-- Enumerants and faults do not show in the part. -/
def SkipsConstants : Prop :=
  ∀ enums faults, part.of { enums, faults } = []

/-- Commands and faults do not show in the part. -/
def SkipsPrototypes : Prop :=
  ∀ commands faults, part.of { commands, faults } = []

/-- Features and extensions do not show in the part. -/
def SkipsInterfaces : Prop :=
  ∀ features extensions, part.of { features, extensions } = []

/-- Enumerants, commands, types and faults do not show in the part. -/
def SkipsItems : Prop :=
  ∀ enums commands types faults, part.of { enums, commands, types, faults } = []

variable {part}

theorem SkipsItems.constants (skips : part.SkipsItems) : part.SkipsConstants :=
  fun enums faults => skips enums [] [] faults

theorem SkipsItems.prototypes (skips : part.SkipsItems) : part.SkipsPrototypes :=
  fun commands faults => skips [] commands [] faults

end Findings.Part

namespace Header

open Findings

/-- Who requires the symbols of a header. -/
def Role.requirer (api : Api) : Role → Requirer
  | .feature number => .feature (featureName api number) number
  | .extension name => .extension name

-----------------------------------------------------------------------------------------
-- Items
-----------------------------------------------------------------------------------------

section

variable {α : Type} {part : Findings.Part α}

theorem of_readDirective (skips : part.SkipsConstants) (context : Context)
    (scope : Constant.Scope) (text : List Char)
    : part.of (readDirective context scope text).1 = [] := by
  unfold readDirective
  split
  · exact part.of_empty
  · dsimp only
    split
    · exact part.of_empty
    · split
      · exact skips _ []
      · exact part.of_empty

/-- Each enumerator is an enumerant or a fault, by induction on the enumerators. -/
theorem of_readEnumerators (skips : part.SkipsConstants) (context : Context) (group : Option String)
    (line : Nat) (next : Option (BitVec 64)) (scope : Constant.Scope) (list : List Enumerator)
    : part.of (readEnumerators context group line next scope list).1 = [] := by
  induction list generalizing next scope with
  | nil => exact part.of_empty
  | cons item rest ih =>
      have refused (element : String) (problem : Problem)
          : part.of (context.fault element problem line
              ++ (readEnumerators context group line none scope rest).1) = [] := by
        rw [part.of_append, ih, List.append_nil]
        exact skips [] _
      have accepted (name : String) (value : Value)
          : part.of (context.enumerant name value group
              ++ (readEnumerators context group line (some (value.bits + 1))
                (scope.define name value) rest).1) = [] := by
        rw [part.of_append, ih, List.append_nil]
        exact skips _ []
      unfold readEnumerators
      dsimp only
      split
      · exact refused _ _
      · split
        · split
          · exact accepted _ _
          · exact refused _ _
        · split
          · exact accepted _ _
          · exact refused _ _

theorem of_readEnum (skips : part.SkipsConstants) (context : Context) (group : Option String)
    (line : Nat) (scope : Constant.Scope) (text : List Char)
    : part.of (readEnum context group line scope text).1 = [] := by
  unfold readEnum
  split
  · exact of_readEnumerators skips context group line _ scope _
  · exact skips [] _

theorem of_readTypedef (skips : part.SkipsItems) (context : Context) (line : Nat)
    (scope : Constant.Scope) (text : List Char)
    : part.of (readTypedef context line scope text).1 = [] := by
  have declared (name : Option String) : part.of (declareType context name text) = [] :=
    skips [] [] _ []
  unfold readTypedef
  split
  · dsimp only
    split
    · rw [part.of_append, of_readEnum skips.constants, declared]
      rfl
    · exact declared _
  · exact declared _

theorem of_readPrototype (skips : part.SkipsPrototypes) (context : Context) (line : Nat)
    (text : List Char)
    : part.of (readPrototype context line text) = [] := by
  have faulty (element : String) (problem : Problem)
      : part.of (context.fault element problem line) = [] :=
    skips [] _
  unfold readPrototype
  dsimp only
  split
  · exact faulty _ _
  · split
    · exact faulty _ _
    · split
      · exact faulty _ _
      · exact skips _ []

theorem of_readItem (skips : part.SkipsItems) (context : Context) (scope : Constant.Scope)
    (item : Item)
    : part.of (readItem context scope item).1 = [] := by
  cases item with
  | directive text => exact of_readDirective skips.constants context scope text
  | statement text line =>
      unfold readItem readStatement
      dsimp only
      split
      · exact of_readTypedef skips context line scope _
      · split
        · exact of_readEnum skips.constants context _ line scope _
        · split
          · exact of_readPrototype skips.prototypes context line _
          · exact part.of_empty

end

-----------------------------------------------------------------------------------------
-- Headers
-----------------------------------------------------------------------------------------

/-- Behind symbols there is what a header stands for, and it requires all of the symbols. -/
structure StandsFor (api : Api) (role : Role) (found : Findings) : Prop where
  features : found.features = (standFor api role found).features
  extensions : found.extensions = (standFor api role found).extensions

/-- What a header stands for adds no symbols, so its block names all that are found behind it too.
-/
theorem standFor_append_standFor (api : Api) (role : Role) (found : Findings)
    : standFor api role (found ++ standFor api role found) = standFor api role found := by
  have enums : (found ++ standFor api role found).enums = found.enums := by
    cases role <;> exact List.append_nil _
  have commands : (found ++ standFor api role found).commands = found.commands := by
    cases role <;> exact List.append_nil _
  have same : required (found ++ standFor api role found) = required found := by
    rw [required, enums, commands]
    rfl
  cases role <;> simp only [standFor] at same ⊢ <;> rw [same]

theorem standsFor_readFragment (dialect : Dialect) (scope : Constant.Scope) (fragment : Fragment)
    : StandsFor dialect.api fragment.role (readFragment dialect scope fragment).1 := by
  unfold readFragment
  dsimp only
  generalize same : (collect (readItem _) scope _).1 = found
  have features : found.features = [] := by
    rw [← same]
    exact Part.features.of_collect_eq_nil (of_readItem (fun _ _ _ _ => rfl) _) scope _
  have extensions : found.extensions = [] := by
    rw [← same]
    exact Part.extensions.of_collect_eq_nil (of_readItem (fun _ _ _ _ => rfl) _) scope _
  constructor
  · rw [standFor_append_standFor]
    exact (congrArg (· ++ _) features).trans (List.nil_append _)
  · rw [standFor_append_standFor]
    exact (congrArg (· ++ _) extensions).trans (List.nil_append _)

/-- Standing for a version or an extension adds no symbols to those of the items. -/
theorem of_readFragment {α : Type} {part : Findings.Part α} (skips : part.SkipsInterfaces)
    (dialect : Dialect) (scope : Constant.Scope) (fragment : Fragment)
    : let context : Context :=
        { dialect, source := fragment.name, origin := fragment.role.origin dialect.api }
      part.of (readFragment dialect scope fragment).1
      = part.of (collect (readItem context) scope (items (prepare fragment.text.toList))).1 := by
  have stands (found : Findings) : part.of (standFor dialect.api fragment.role found) = [] := by
    cases fragment.role with
    | feature number => exact skips _ []
    | extension name => exact skips [] _
  rw [readFragment]
  dsimp only
  rw [part.of_append, stands, List.append_nil]

/-- A header of one statement has the symbols of that statement, whatever its layout. -/
theorem of_read_statement {α : Type} {part : Findings.Part α} (skips : part.SkipsInterfaces)
    {dialect : Dialect} {fragment : Fragment} {statement : List Char}
    (plain : IsStatement statement) (shape : fragment.text.toList = statement ++ [';'])
    {found : Findings}
    (reads
      : ∀ line scope raw, Text.words raw = Text.words statement
        → readStatement
            { dialect, source := fragment.name, origin := fragment.role.origin dialect.api } line scope
            raw
          = (found, scope))
    : part.of (read dialect [fragment]).toFindings = part.of found := by
  obtain ⟨raw, line, whole, same⟩ := items_statement plain
  rw [read, collect_cons, part.of_append, collect, part.of_empty, List.append_nil,
    of_readFragment skips, shape, whole, collect_cons, collect]
  dsimp only
  rw [part.of_append, part.of_empty, List.append_nil, readItem, reads line _ raw same]

/-- The headers of an interface as sources, each read with markers of its own. -/
def sources (api : Api) (headers : List (List Marker × List Fragment)) : List Records :=
  headers.map fun header => read { api, markers := header.1 } header.2

/-- The fragments of all headers, each with what it is read into behind those before it. -/
def declarations (api : Api) (headers : List (List Marker × List Fragment))
    : List (Fragment × Findings) :=
  headers.flatMap fun header =>
    shares (readFragment { api, markers := header.1 }) Constant.Scope.initial header.2

variable {api : Api} {headers : List (List Marker × List Fragment)}

/-- What headers declare is declared by one of their fragments. -/
theorem mem_sources_iff {α : Type} (part : Findings.Part α) {value : α}
    : value ∈ (sources api headers).flatMap (fun source => part.of source.toFindings)
      ↔ ∃ share ∈ declarations api headers, value ∈ part.of share.2 := by
  have ofHeader (header : List Marker × List Fragment)
      : value ∈ part.of (read { api, markers := header.1 } header.2).toFindings
        ↔ ∃ share ∈ shares (readFragment { api, markers := header.1 }) Constant.Scope.initial
              header.2,
            value ∈ part.of share.2 :=
    part.mem_collect_iff
  rw [sources, List.flatMap_map, List.mem_flatMap]
  simp only [ofHeader, declarations, List.mem_flatMap]
  constructor
  · rintro ⟨header, member, share, among, declared⟩
    exact ⟨share, ⟨header, member, among⟩, declared⟩
  · rintro ⟨share, ⟨header, member, among⟩, declared⟩
    exact ⟨header, member, share, among, declared⟩

theorem standsFor_of_mem_declarations {share : Fragment × Findings}
    (member : share ∈ declarations api headers)
    : StandsFor api share.1.role share.2 := by
  obtain ⟨header, -, among⟩ := List.mem_flatMap.mp member
  exact forall_shares (standsFor_readFragment { api, markers := header.1 }) _ _ share among

end Header

end ApiBindings
