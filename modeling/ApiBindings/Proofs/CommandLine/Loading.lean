import ApiBindings.CommandLine.Run
import ApiBindings.Proofs.Files.Trees

/-! Loading what generation starts from.
Specifications and reference pages are read without a change to the tree. Of a file, loading sees
only its text, or that it is a directory; why there is no text makes no difference.
-/

namespace ApiBindings

variable {tree other : FileTree} {path root : Path} {α β : Type}

-----------------------------------------------------------------------------------------
-- Actions that only read
-----------------------------------------------------------------------------------------

/-- An action comes to the same in two trees and changes neither. -/
def ReadsAlike (tree other : FileTree) (action : StateM FileTree α) : Prop :=
  ∃ value, action.run tree = (value, tree) ∧ action.run other = (value, other)

theorem readsAlike_pure (value : α) : ReadsAlike tree other (pure value) :=
  ⟨value, rfl, rfl⟩

theorem ReadsAlike.bind {action : StateM FileTree α} {next : α → StateM FileTree β}
    (first : ReadsAlike tree other action) (second : ∀ value, ReadsAlike tree other (next value))
    : ReadsAlike tree other (action >>= next) := by
  obtain ⟨value, here, there⟩ := first
  obtain ⟨result, here', there'⟩ := second value
  refine ⟨result, ?_, ?_⟩
  · rw [StateT.run_bind, here]
    exact here'
  · rw [StateT.run_bind, there]
    exact there'

/-- An action that only reads leaves the tree as it is. -/
theorem ReadsAlike.run_eq {action : StateM FileTree α} (reads : ReadsAlike tree tree action)
    : action.run tree = ((action.run tree).1, tree) := by
  obtain ⟨value, here, -⟩ := reads
  rw [here]

/-- What loading sees of a file: its text, or that it is a directory. -/
def FileTree.sight (tree : FileTree) (path : Path) : Option (Option String) :=
  match tree.read path with
  | .ok text => some (some text)
  | .error .isDirectory => some none
  | .error _ => none

namespace Files

theorem run_read (path : Path) (tree : FileTree)
    : (FileSystem.read path : StateM FileTree _).run tree = (tree.read path, tree) :=
  rfl

theorem run_text (path : Path) (tree : FileTree)
    : (text path : StateM FileTree _).run tree
      = (match tree.sight path with
        | some (some text) => .ok text
        | _ => .error { path }, tree) := by
  unfold text
  rw [StateT.run_bind, run_read, FileTree.sight]
  cases tree.read path with
  | ok text => rfl
  | error fault => cases fault <;> rfl

theorem run_stream (path : Path) (tree : FileTree)
    : (stream path : StateM FileTree _).run tree
      = (match tree.sight path with
        | some text => .ok (text.getD "")
        | none => .error { path }, tree) := by
  unfold stream
  rw [StateT.run_bind, run_read, FileTree.sight]
  cases tree.read path with
  | ok text => rfl
  | error fault => cases fault <;> rfl

theorem readsAlike_text (same : tree.sight path = other.sight path)
    : ReadsAlike tree other (text path) :=
  ⟨_, run_text path tree, same ▸ run_text path other⟩

theorem readsAlike_stream (same : tree.sight path = other.sight path)
    : ReadsAlike tree other (stream path) :=
  ⟨_, run_stream path tree, same ▸ run_stream path other⟩

end Files

-----------------------------------------------------------------------------------------
-- Specifications
-----------------------------------------------------------------------------------------

/-- The file of an input, unless its text is at hand. -/
def Input.file? : Input → Option Path
  | .inline _ _ => none
  | .file path => some path

namespace Specification

/-- The files that a specification is in. -/
def files : Specification → List Path
  | .document input _ => input.file?.toList
  | .headers _ inputs => inputs.filterMap fun (input, _) => input.file?

theorem readsAlike_fragments {inputs : List (Input × Header.Role)}
    (same
      : ∀ path ∈ inputs.filterMap (fun (input, _) => input.file?),
          tree.sight path = other.sight path)
    : ReadsAlike tree other (fragments inputs) := by
  induction inputs with
  | nil => exact readsAlike_pure _
  | cons first rest ih =>
      obtain ⟨input, role⟩ := first
      have rest' : ReadsAlike tree other (fragments rest) := ih fun path member => same path (by
        rw [List.filterMap_cons]
        split
        · exact member
        · exact List.mem_cons_of_mem _ member)
      unfold fragments
      cases input
      case' inline => refine (readsAlike_pure _).bind fun text => ?_
      case' file path =>
        refine (Files.readsAlike_text (same path (by simp [Input.file?]))).bind fun text => ?_
      all_goals
        cases text with
        | error fault => exact readsAlike_pure _
        | ok text => exact rest'.bind fun result => by cases result <;> exact readsAlike_pure _

theorem readsAlike_read [Markup.Library] {specification : Specification}
    (same : ∀ path ∈ specification.files, tree.sight path = other.sight path)
    : ReadsAlike tree other specification.read := by
  cases specification with
  | document input api =>
      cases input with
      | inline name text => exact (readsAlike_pure _).bind fun _ => readsAlike_pure _
      | file path =>
          exact (Files.readsAlike_stream (same path (by simp [files, Input.file?]))).bind
            fun _ => readsAlike_pure _
  | headers dialect inputs =>
      exact (readsAlike_fragments same).bind fun _ => readsAlike_pure _

theorem readsAlike_readAll [Markup.Library] {specifications : List Specification}
    (same : ∀ path ∈ specifications.flatMap files, tree.sight path = other.sight path)
    : ReadsAlike tree other (readAll specifications) := by
  induction specifications with
  | nil => exact readsAlike_pure _
  | cons first rest ih =>
      obtain ⟨here, later⟩ := List.forall_mem_append.mp (List.flatMap_cons ▸ same)
      unfold readAll
      refine (readsAlike_read here).bind fun records => ?_
      cases records with
      | error fault => exact readsAlike_pure _
      | ok records =>
          refine (ih later).bind fun result => ?_
          cases result <;> exact readsAlike_pure _

/-- A registry depends on what loading sees of the files of its specifications. -/
theorem readsAlike_registry [Markup.Library] {specifications : List Specification}
    (same : ∀ path ∈ specifications.flatMap files, tree.sight path = other.sight path)
    (api : Api)
    : ReadsAlike tree other (registry api specifications) :=
  (readsAlike_readAll same).bind fun _ => readsAlike_pure _

end Specification

-----------------------------------------------------------------------------------------
-- Reference pages
-----------------------------------------------------------------------------------------

namespace Files

/-- Pages are of the family that they are read for, by induction on their names. -/
theorem run_pages (directory : Path) (documentation : Documentation) (names : List String)
    (tree : FileTree)
    : ∃ result,
        (pages directory documentation names : StateM FileTree _).run tree = (result, tree)
        ∧ ∀ read, result = .ok read → read.family = documentation.family := by
  induction names generalizing documentation with
  | nil => exact ⟨.ok documentation, rfl, fun read same => Except.ok.inj same ▸ rfl⟩
  | cons name rest ih =>
      obtain ⟨page, run, -⟩ := @readsAlike_text tree tree (directory.join { text := name }) rfl
      unfold pages
      rw [StateT.run_bind, run]
      cases page with
      | error fault => exact ⟨.error fault, rfl, fun read failed => by cases failed⟩
      | ok page => exact ih (documentation.insert _ _)

theorem run_documentation (family : String) (directory : Path) (tree : FileTree)
    : ∃ result,
        (documentation family directory : StateM FileTree _).run tree = (result, tree)
        ∧ ∀ read, result = .ok read → read.family = family := by
  have names
      : (FileSystem.names directory : StateM FileTree _).run tree = (tree.names directory, tree) :=
    rfl
  unfold documentation
  rw [StateT.run_bind, names]
  cases tree.names directory with
  | none => exact ⟨.error { path := directory }, rfl, fun read failed => by cases failed⟩
  | some names => exact run_pages directory _ _ tree

end Files

namespace CommandLine

/-- What a directory of reference pages reads to. -/
def pagesIn (tree : FileTree) (root : Path) (family : String) : Except LoadFault Documentation :=
  ((Files.documentation family (below root family) : StateM FileTree _).run tree).1

/-- What the directories of some families read to; there are no pages where there is none. -/
def allPagesIn (tree : FileTree) (root : Path)
    : List String → Except LoadFault (List Documentation)
  | [] => .ok []
  | family :: rest =>
      if tree.isDirectory (below root family) then
        match pagesIn tree root family with
        | .error fault => .error fault
        | .ok documentation => (allPagesIn tree root rest).map (documentation :: ·)
      else allPagesIn tree root rest

/-- Loading pages only reads. -/
theorem run_loadPages (root : Path) (families : List String) (tree : FileTree)
    : (loadPages root families : StateM FileTree _).run tree
      = (allPagesIn tree root families, tree) := by
  induction families with
  | nil => rfl
  | cons family rest ih =>
      have start
          : (loadPages root (family :: rest) : StateM FileTree _).run tree
            = (if tree.isDirectory (below root family) then do
                match ← Files.documentation family (below root family) with
                | .error fault => return .error fault
                | .ok documentation =>
                    return (← loadPages root rest).map fun later => documentation :: later
              else loadPages root rest : StateM FileTree _).run tree :=
        rfl
      rw [start, allPagesIn]
      split_ifs
      · obtain ⟨result, run, -⟩ := Files.run_documentation family (below root family) tree
        rw [StateT.run_bind, run, pagesIn, run]
        cases result with
        | error fault => rfl
        | ok documentation =>
            have later
                : (do return (← loadPages root rest).map fun later => documentation :: later
                    : StateM FileTree _).run tree
                  = ((allPagesIn tree root rest).map (documentation :: ·), tree) := by
              rw [StateT.run_bind, ih]
              rfl
            exact later
      · exact ih

/-- Of the pages of some families, those of one are found that its directory reads to. -/
theorem find?_allPagesIn {families : List String} {pages : List Documentation}
    (loaded : allPagesIn tree root families = .ok pages) (family : String)
    : (pages.find? fun documentation => documentation.family == family)
      = if family ∈ families ∧ tree.isDirectory (below root family) = true then
          (pagesIn tree root family).toOption
        else none := by
  induction families generalizing pages with
  | nil =>
      obtain rfl := Except.ok.inj loaded
      simp
  | cons first rest ih =>
      rw [allPagesIn] at loaded
      split_ifs at loaded with isDirectory
      · cases read : pagesIn tree root first with
        | error fault => simp [read] at loaded
        | ok documentation =>
            cases others : allPagesIn tree root rest with
            | error fault => simp [read, others, Except.map] at loaded
            | ok later =>
                obtain rfl : documentation :: later = pages := by
                  simpa [read, others, Except.map] using loaded
                have named : documentation.family = first := by
                  obtain ⟨result, run, kept⟩ :=
                    Files.run_documentation first (below root first) tree
                  rw [pagesIn, run] at read
                  exact kept documentation read
                rw [List.find?_cons, named, ih others]
                by_cases same : first = family
                · subst same
                  simp [isDirectory, read, Except.toOption]
                · simp [beq_eq_false_iff_ne.mpr same, Ne.symm same]
      · rw [ih loaded]
        by_cases same : first = family
        · subst same
          simp [isDirectory]
        · simp [Ne.symm same]

/-- The pages of a family can be read unless there are none. -/
def PagesLoad (tree : FileTree) (root : Path) (family : String) : Prop :=
  tree.isDirectory (below root family) = true →
    ∃ documentation, pagesIn tree root family = .ok documentation

theorem exists_allPagesIn_iff {families : List String}
    : (∃ pages, allPagesIn tree root families = .ok pages)
      ↔ ∀ family ∈ families, PagesLoad tree root family := by
  induction families with
  | nil => exact iff_of_true ⟨[], rfl⟩ (List.forall_mem_nil _)
  | cons first rest ih =>
      rw [List.forall_mem_cons, ← ih, allPagesIn, PagesLoad]
      split_ifs with isDirectory
      · cases read : pagesIn tree root first with
        | error fault => simp [isDirectory]
        | ok documentation =>
            cases allPagesIn tree root rest <;> simp [Except.map]
      · simp [isDirectory]

end CommandLine

end ApiBindings
