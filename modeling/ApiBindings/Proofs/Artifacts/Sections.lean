import ApiBindings.Proofs.Artifacts.Roles
import ApiBindings.Proofs.Reading.Statements

/-! What each section of generated bindings has identifiers of commands for.
Apart from what the names of requirers bring with them, comments have none.
-/

namespace ApiBindings.Artifact

open ApiBindings.Code
open ApiBindings.Text

-----------------------------------------------------------------------------------------
-- Comments
-----------------------------------------------------------------------------------------

theorem not_mem_of_mem_lines {cs line : List Char} (member : line ∈ lines cs)
    : '\n' ∉ line := by
  have ofPiece {piece : List Char} (among : piece ∈ cut isBreak cs) : '\n' ∉ piece := by
    intro inside
    have kept := keeps_of_mem_cut among '\n' inside
    revert kept
    decide
  rcases List.mem_append.mp member with earlier | last
  · obtain ⟨piece, among, rfl⟩ := List.mem_map.mp earlier
    exact fun inside =>
      ofPiece (List.dropLast_subset _ among) (mem_of_mem_dropReturn inside)
  · have among := Option.mem_toList.mp (List.mem_filter.mp last).1
    exact ofPiece (List.mem_of_getLast? among)

theorem mem_of_mem_trimEnd {cs : List Char} {c : Char} (member : c ∈ trimEnd cs) : c ∈ cs := by
  have inside := (List.dropWhile_sublist _).subset (List.mem_reverse.mp member)
  exact List.mem_reverse.mp inside

theorem append_break (line : String) : line ++ "\n" = line.push '\n' := by
  simp [← String.toList_inj]

/-- A line with its line feed. -/
theorem gives_text {line : String} (silent : IsSilent line) : Gives (line ++ "\n") [] := by
  rw [append_break]
  exact gives_line silent

theorem gives_item {line : String} {found : Role × String} (reads : Reads line (some found))
    : Gives (line ++ "\n") [found] := by
  rw [append_break]
  exact gives_line reads

theorem gives_slashes : Gives "///\n" [] := by
  have ends : "///\n" = "///" ++ "\n" := ofList_eq_append rfl
  rw [ends]
  exact gives_text (isSilent_ofList (by decide))

/-- No line of a documentation comment has an identifier, whatever the documentation says. -/
theorem gives_docComment {indent : List Char}
    (silent
      : isSilentStart (indent ++ ['/', '/', '/']) = true ∧ '\n' ∉ indent ++ ['/', '/', '/'])
    (text : String)
    : Gives (docComment (String.ofList indent) text) [] := by
  have opening (rest : String)
      : String.ofList indent ++ ("///" ++ rest)
        = String.ofList (indent ++ ['/', '/', '/']) ++ rest := by
    rw [String.ofList_append, String.append_assoc]
  have each : ∀ line ∈ lines text.toList, Gives (docLine (String.ofList indent) line) [] := by
    intro line member
    have solid : '\n' ∉ trimEnd line := fun inside =>
      not_mem_of_mem_lines member (mem_of_mem_trimEnd inside)
    unfold docLine
    split
    · have ends : "///\n" = "///" ++ ("" ++ "\n") := ofList_eq_append rfl
      rw [ends, opening, ← String.append_assoc]
      exact gives_text (isSilent_append silent (isUnbroken_ofList (by decide)))
    · have slashes : "/// " = "///" ++ " " := ofList_eq_append rfl
      have line : IsUnbroken (" " ++ String.ofList (trimEnd line)) :=
        isUnbroken_append.mpr ⟨isUnbroken_ofList (by decide), isUnbroken_ofList solid⟩
      have whole := gives_text (isSilent_append silent line)
      rw [← opening] at whole
      rw [slashes]
      simpa only [String.append_assoc] using whole
  have joined := gives_join each
  rw [List.flatMap_eq_nil_iff.mpr fun _ _ => rfl] at joined
  exact joined

/-- The documentation of a definition that is in no other one. -/
theorem gives_outerComment (text : String) : Gives (docComment "" text) [] :=
  gives_docComment (by decide) text

/-- A text that is a number of lines. Names in it may have made more of them. -/
def EndsLine (text : String) : Prop :=
  text = "" ∨ ∃ front, text = front ++ "\n"

/-- Such a text has its own identifiers, whatever is in front of and behind it. -/
theorem EndsLine.gives {text : String} (ends : EndsLine text) : Gives text (roles text) := by
  rcases ends with rfl | ⟨front, rfl⟩
  · rw [roles_empty]
    exact gives_empty
  · intro rest
    have sign : "\n".toList = ['\n'] := String.toList_ofList
    have last : (cut isBreak []).filterMap readLine? = [] := by simp [cut, readLine?_nil]
    simp only [roles, String.toList_append, sign, List.append_assoc, List.singleton_append]
    rw [cut_append_of_cut (by decide), cut_append_of_cut (by decide), List.filterMap_append,
      List.filterMap_append, last, List.append_nil]

/-- What the lines about requirers have identifiers for: nothing, as long as the names of the
requirers are on these lines.
-/
def spilled (mentions : Mentions) : List (Role × String) :=
  roles (requirersLine "Required by" mentions.requiredBy)
    ++ roles (requirersLine "Removed by" mentions.removedBy)

theorem endsLine_requirersLine (label : String) (requirers : List Requirer)
    : EndsLine (requirersLine label requirers) := by
  unfold requirersLine
  split
  · exact .inl rfl
  · exact .inr ⟨_, rfl⟩

theorem roles_requirersLine {label : String} (solid : IsUnbroken label)
    {requirers : List Requirer} (names : ∀ requirer ∈ requirers, IsUnbroken requirer.name)
    : roles (requirersLine label requirers) = [] := by
  have listed : ∀ name ∈ requirers.map Requirer.name, IsUnbroken name := by
    simpa using names
  have comma : IsUnbroken ", " := isUnbroken_ofList (by decide)
  have joined := isUnbroken_intercalate comma listed
  unfold requirersLine
  split
  · exact roles_empty
  · refine Gives.roles_eq (gives_text ?_)
    rw [String.append_assoc, String.append_assoc]
    refine isSilent_append (by decide) ?_
    rw [isUnbroken_append, isUnbroken_append]
    exact ⟨solid, isUnbroken_ofList (by decide), joined⟩

/-- The documentation of a symbol has no identifiers but what its requirers bring with them. -/
theorem gives_symbolComment (context : Context) (summary symbol : String) (mentions : Mentions)
    : Gives (symbolComment context summary symbol mentions) (spilled mentions) := by
  have apart : Gives (if mentions.requiredBy.isEmpty then "" else "///\n") [] := by
    split
    · exact gives_empty
    · exact gives_slashes
  have requirers := (endsLine_requirersLine "Required by" mentions.requiredBy).gives
  have removers := (endsLine_requirersLine "Removed by" mentions.removedBy).gives
  have summary := gives_outerComment summary
  unfold symbolComment
  cases context.documentation? symbol with
  | none =>
      exact (((summary.append gives_empty).append apart).append requirers).append removers
  | some text =>
      have page := gives_slashes.append (gives_outerComment text)
      exact (((summary.append page).append apart).append requirers).append removers

-----------------------------------------------------------------------------------------
-- Sections without commands
-----------------------------------------------------------------------------------------

theorem gives_break : Gives "\n" [] := by
  have ends : "\n" = "" ++ "\n" := ofList_eq_append rfl
  rw [ends]
  exact gives_text (isSilent_ofList (by decide))

theorem gives_brace : Gives "\x7d\n" [] := by
  have ends : "\x7d\n" = "\x7d" ++ "\n" := ofList_eq_append rfl
  rw [ends]
  exact gives_text (isSilent_ofList (by decide))

theorem banner_eq (context : Context) (resolution : Resolution) (what : String)
    : banner context resolution what
      = "// " ++ (context.api.title ++ (" " ++ (what ++ (" for the `" ++ (resolution.profile.name
          ++ "` profile, generated by khronos_bindgen. Do not edit.")))))
        ++ "\n" := by
  have split
      : "` profile, generated by khronos_bindgen. Do not edit.\n"
        = "` profile, generated by khronos_bindgen. Do not edit." ++ "\n" :=
    ofList_eq_append rfl
  unfold banner
  rw [split]
  simp only [String.append_assoc]

theorem endsLine_banner (context : Context) (resolution : Resolution) (what : String)
    : EndsLine (banner context resolution what) :=
  .inr ⟨_, banner_eq context resolution what⟩

theorem roles_banner (context : Context) {resolution : Resolution}
    (profile : IsUnbroken resolution.profile.name) {what : String} (solid : IsUnbroken what)
    : roles (banner context resolution what) = [] := by
  rw [banner_eq]
  refine Gives.roles_eq (gives_text ?_)
  refine isSilent_append (by decide) ?_
  simp only [isUnbroken_append]
  exact ⟨isUnbroken_title _, isUnbroken_ofList (by decide), solid, isUnbroken_ofList (by decide),
    profile, isUnbroken_ofList (by decide)⟩

theorem gives_preamble : Gives (unlines preamble) [] := by
  unfold preamble
  refine gives_silent (List.forall_mem_cons.mpr ⟨?_, ?_⟩)
  · exact isSilent_append (by decide) (isUnbroken_ofList (by decide))
  · apply isSilent_of_spelled
    case same => repeat apply Spelled.cons
                 exact .nil
    case silent => decide

theorem isSilent_typeItem {item : String} (isItem : IsTypeItem item)
    : IsSilent ("    " ++ item) := by
  have ofAlias : "    pub type " = "    " ++ "pub type " := ofList_eq_append rfl
  have ofStruct : "    #[repr(C)] pub struct " = "    " ++ "#[repr(C)] pub struct " :=
    ofList_eq_append rfl
  obtain ⟨⟨rest, rfl | rfl⟩, solid⟩ := isItem
  · rw [← String.append_assoc, ← ofAlias]
    exact isSilent_append (by decide) (isUnbroken_append.mp solid).2
  · rw [← String.append_assoc, ← ofStruct]
    exact isSilent_append (by decide) (isUnbroken_append.mp solid).2

/-- The module of the types is the only one that is not there for a command. -/
theorem gives_typesModule (registry : Registry)
    : Gives (typesModule registry) [(.module, "types")] := by
  have blank : IsSilent "" := isSilent_ofList (by decide)
  have imports : IsSilent "    use super::__khronos_imports::raw;" := isSilent_ofList (by decide)
  have allow
      : IsSilent ("    #![allow(non_camel_case_types, non_snake_case, dead_code, "
          ++ "missing_copy_implementations)]") :=
    isSilent_append (by decide) (isUnbroken_ofList (by decide))
  have declared : Reads "pub mod types \x7b" (some (.module, "types")) := by
    have types : ∀ c ∈ "types".toList, isWordChar c = true := by
      have letters : "types".toList = ['t', 'y', 'p', 'e', 's'] := String.toList_ofList
      rw [letters]
      decide
    have opened : "pub mod types \x7b" = "pub mod types" ++ " \x7b" := ofList_eq_append rfl
    have named : "pub mod types" = "pub mod " ++ "types" := ofList_eq_append rfl
    have isLong : moduleForm ∈ longForms := by simp [longForms]
    rw [opened, named]
    exact reads_whole types isLong
  have items
      : ∀ line ∈ (registry.types.values.filterMap typeItem?).map fun item => "    " ++ item,
          IsSilent line := by
    intro line member
    obtain ⟨item, found, rfl⟩ := List.mem_map.mp member
    obtain ⟨decl, -, isItem⟩ := List.mem_filterMap.mp found
    exact isSilent_typeItem (isTypeItem_of_typeItem? isItem)
  have start :=
    Gives.cons blank <| Gives.cons declared <| Gives.cons allow <| Gives.cons imports
      <| Gives.cons blank gives_nil
  exact (start.append (gives_silent items)).append gives_brace

/-- What the constant of an enumerant has identifiers for. -/
def constantRoles (context : Context) (active : Enumerant × Mentions) : List (Role × String) :=
  spilled active.2 ++ [(.constant, enumerantIdent context active.1)]

theorem isUnbroken_name (type : IntType) : IsUnbroken type.name := by
  cases type <;> exact isUnbroken_ofList (by decide)

theorem gives_constant (context : Context) (active : Enumerant × Mentions)
    : Gives (constant context active.1 active.2) (constantRoles context active) := by
  have isLong : constantForm ∈ longForms := by simp [longForms]
  have item
      : Gives (constItem (enumerantIdent context active.1) (intType [active.1.value])
          active.1.value) [(.constant, enumerantIdent context active.1)] := by
    have ends : ";\n" = ";" ++ "\n" := ofList_eq_append rfl
    have value
        : IsUnbroken ((intType [active.1.value]).name
            ++ (" = " ++ (literal (intType [active.1.value]) active.1.value ++ ";"))) := by
      simp only [isUnbroken_append]
      exact ⟨isUnbroken_name _, isUnbroken_ofList (by decide), isUnbroken_literal _ _,
        isUnbroken_ofList (by decide)⟩
    have reads
        : Reads
            ("pub const " ++ (enumerantIdent context active.1 ++ (": "
              ++ ((intType [active.1.value]).name
                ++ (" = " ++ (literal (intType [active.1.value]) active.1.value ++ ";"))))))
            (some (.constant, enumerantIdent context active.1)) :=
      reads_long (isWordChar_of_mem_ident _) isLong value
    unfold constItem
    rw [ends]
    simpa only [String.append_assoc] using gives_item reads
  have summary := gives_symbolComment context (enumerantSummary context active.1) active.1.name
    active.2
  have whole := (gives_break.append summary).append item
  rw [List.nil_append] at whole
  exact whole

theorem gives_pointerType : Gives (unlines pointerType) [] := by
  refine gives_silent ?_
  apply isSilent_of_spelled
  case same => repeat apply Spelled.cons
               exact .nil
  case silent => decide

theorem gives_missingFunction (api : Api) : Gives (unlines (missingFunction api)) [] := by
  have fixed
      : ∀ line ∈ ["", "#[inline(never)]", "fn missing_fn_panic() -> ! \x7b", "\x7d"],
          IsSilent line := by
    apply isSilent_of_spelled
    case same => repeat apply Spelled.cons
                 exact .nil
    case silent => decide
  have message : IsSilent ("    panic!(\"" ++ api.title ++ " function was not loaded\")") := by
    rw [String.append_assoc]
    refine isSilent_append (by decide) (isUnbroken_append.mpr ?_)
    exact ⟨isUnbroken_title api, isUnbroken_ofList (by decide)⟩
  simp only [List.forall_mem_cons] at fixed
  obtain ⟨blank, inline, opening, brace, -⟩ := fixed
  exact
    Gives.cons blank <| Gives.cons inline <| Gives.cons opening <| Gives.cons message
      <| Gives.cons brace gives_nil

-----------------------------------------------------------------------------------------
-- Sections with commands
-----------------------------------------------------------------------------------------

/-- The line about the other names of a command. -/
def fallbacksLine (others : List String) : String :=
  if others.isEmpty then "" else "/// Fallbacks: " ++ ", ".intercalate others ++ "\n"

theorem gives_fallbacksLine {others : List String} (solid : ∀ other ∈ others, IsUnbroken other)
    : Gives (fallbacksLine others) [] := by
  have comma : IsUnbroken ", " := isUnbroken_ofList (by decide)
  unfold fallbacksLine
  split
  · exact gives_empty
  · refine gives_text ?_
    exact isSilent_append (by decide) (isUnbroken_intercalate comma solid)

theorem isUnbroken_join {part : Param → String} (solid : ∀ param, IsUnbroken (part param))
    (params : List Param)
    : IsUnbroken (", ".intercalate (params.map part)) := by
  have comma : IsUnbroken ", " := isUnbroken_ofList (by decide)
  exact isUnbroken_intercalate comma (by simpa using fun param _ => solid param)

theorem not_mem_paramIdents (params : List Param)
    : '>' ∉ (", ".intercalate (params.map paramIdent)).toList := by
  have comma : '>' ∉ ", ".toList := by
    have signs : ", ".toList = [',', ' '] := String.toList_ofList
    rw [signs]
    decide
  refine not_mem_intercalate comma fun part member => ?_
  obtain ⟨param, -, rfl⟩ := List.mem_map.mp member
  intro inside
  have word := isWordChar_of_mem_ident param.name '>' inside
  revert word
  decide

variable (context : Context) (resolution : Resolution)

section

variable {name : String} (words : ∀ c ∈ name.toList, isWordChar c = true) (command : Command)

include words

theorem reads_functionLine
    : Reads
        ("pub unsafe fn " ++ name ++ "(" ++ ", ".intercalate (command.params.map typedParam)
          ++ ") -> " ++ returnType command ++ " \x7b")
        (some (.function, name)) := by
  have isLong : functionForm ∈ longForms := by simp [longForms]
  have typed := isUnbroken_join isUnbroken_typedParam command.params
  have returns := isUnbroken_returnType command
  have rest
      : IsUnbroken (", ".intercalate (command.params.map typedParam)
          ++ (") -> " ++ (returnType command ++ " \x7b"))) := by
    rw [isUnbroken_append, isUnbroken_append, isUnbroken_append]
    exact ⟨typed, isUnbroken_ofList (by decide), returns, isUnbroken_ofList (by decide)⟩
  have reads
      : Reads
          ("pub unsafe fn " ++ (name ++ ("(" ++ (", ".intercalate (command.params.map typedParam)
            ++ (") -> " ++ (returnType command ++ " \x7b"))))))
          (some (.function, name)) :=
    reads_long words isLong rest
  simpa only [String.append_assoc] using reads

theorem reads_callLine
    : Reads
        ("    __khronos_imports::mem::transmute::<_, extern \"system\" fn("
          ++ ", ".intercalate (command.params.map paramType) ++ ") -> " ++ returnType command
          ++ ">(storage::" ++ name ++ ".f)("
          ++ ", ".intercalate (command.params.map paramIdent) ++ ")")
        (some (.call, name)) := by
  have split : ">(storage::" = ">" ++ "(storage::" := ofList_eq_append rfl
  have close : IsUnbroken ")" := isUnbroken_ofList (by decide)
  have types
      : IsUnbroken (", ".intercalate (command.params.map paramType)
          ++ (") -> " ++ returnType command)) := by
    rw [isUnbroken_append, isUnbroken_append]
    exact ⟨isUnbroken_join isUnbroken_paramType command.params, isUnbroken_ofList (by decide),
      isUnbroken_returnType command⟩
  have idents : IsUnbroken (", ".intercalate (command.params.map paramIdent) ++ ")") :=
    isUnbroken_append.mpr
      ⟨isUnbroken_join (fun param => isUnbroken_ident param.name) command.params, close⟩
  have absent : '>' ∉ (", ".intercalate (command.params.map paramIdent) ++ ")").toList := by
    have sign : ")".toList = [')'] := String.toList_ofList
    rw [String.toList_append, sign]
    exact List.not_mem_append (not_mem_paramIdents command.params) (by decide)
  have reads
      : Reads
          ("    __khronos_imports::mem::transmute::<_, extern \"system\" fn("
            ++ (", ".intercalate (command.params.map paramType) ++ (") -> " ++ returnType command)
              ++ (">" ++ ("(storage::" ++ (name ++ (".f)("
                ++ (", ".intercalate (command.params.map paramIdent) ++ ")")))))))
          (some (.call, name)) :=
    reads_call words types idents absent
  rw [split]
  simpa only [String.append_assoc] using reads

end

/-- What the function of a command has identifiers for. -/
def functionRoles (active : Command × Mentions) : List (Role × String) :=
  let name := context.api.commandIdent active.1.name
  spilled active.2 ++ [(.function, name), (.call, name)]

theorem gives_function {active : Command × Mentions}
    (words : ∀ c ∈ (context.api.commandIdent active.1.name).toList, isWordChar c = true)
    (others : ∀ other ∈ fallbacks resolution.registry active.1, IsUnbroken other)
    : Gives (function context resolution active.1 active.2) (functionRoles context active) := by
  have fixed : ∀ line ∈ ["#[inline]", "\x7d"], IsSilent line := by
    apply isSilent_of_spelled
    case same => repeat apply Spelled.cons
                 exact .nil
    case silent => decide
  simp only [List.forall_mem_cons] at fixed
  obtain ⟨inline, brace, -⟩ := fixed
  have summary :=
    gives_symbolComment context ("[" ++ context.api.title ++ "] " ++ active.1.name) active.1.name
      active.2
  have body :=
    Gives.cons inline <| Gives.cons (reads_functionLine words active.1)
      <| Gives.cons (reads_callLine words active.1) <| Gives.cons brace gives_nil
  have whole := ((gives_break.append summary).append (gives_fallbacksLine others)).append body
  rw [List.nil_append, List.append_nil] at whole
  unfold function functionRoles
  exact whole

theorem reads_storageItem {name : String} (words : ∀ c ∈ name.toList, isWordChar c = true)
    : Reads (storageItem name) (some (.static, name)) := by
  have isLong : staticForm ∈ longForms := by simp [longForms]
  have split
      : ": FnPtr = FnPtr \x7b f: super::missing_fn_panic as "
        = ": FnPtr = " ++ "FnPtr \x7b f: super::missing_fn_panic as " :=
    ofList_eq_append rfl
  have rest
      : IsUnbroken ("FnPtr \x7b f: super::missing_fn_panic as "
          ++ "*const raw::c_void, is_loaded: false \x7d;") :=
    isUnbroken_append.mpr ⟨isUnbroken_ofList (by decide), isUnbroken_ofList (by decide)⟩
  have reads
      : Reads
          ("    pub static mut " ++ (name ++ (": FnPtr = "
            ++ ("FnPtr \x7b f: super::missing_fn_panic as "
              ++ "*const raw::c_void, is_loaded: false \x7d;"))))
          (some (.static, name)) :=
    reads_long words isLong rest
  unfold storageItem
  rw [split]
  simpa only [String.append_assoc] using reads

theorem gives_storageItems {names : List String}
    (words : ∀ name ∈ names, ∀ c ∈ name.toList, isWordChar c = true)
    : Gives (unlines (names.map storageItem)) (names.map fun name => (.static, name)) := by
  induction names with
  | nil => exact gives_nil
  | cons name names ih =>
      obtain ⟨first, others⟩ := List.forall_mem_cons.mp words
      exact Gives.cons (reads_storageItem first) (ih others)

theorem gives_storageModule {names : List String}
    (words : ∀ name ∈ names, ∀ c ∈ name.toList, isWordChar c = true)
    : Gives (storageModule names) (names.map fun name => (.static, name)) := by
  have opening : ∀ line ∈ [
    "",
    "mod storage \x7b",
    "    #![allow(non_snake_case)]",
    "    #![allow(non_upper_case_globals)]",
    "    use super::__khronos_imports::raw;",
    "    use super::FnPtr;",
    ""
  ], IsSilent line := by
    apply isSilent_of_spelled
    case same => repeat apply Spelled.cons
                 exact .nil
    case silent => decide
  have whole :=
    ((gives_silent opening).append (gives_storageItems words)).append gives_brace
  rw [List.nil_append, List.append_nil] at whole
  unfold storageModule
  exact whole

theorem reads_storeLine {name symbol : String} (words : ∀ c ∈ name.toList, isWordChar c = true)
    (solid : IsUnbroken symbol) {others : List String}
    (otherSolid : ∀ other ∈ others, IsUnbroken other)
    : Reads
        ("            storage::" ++ name ++ " = FnPtr::new(metaloadfn(&mut loadfn, "
          ++ quoted symbol ++ ", &[" ++ ", ".intercalate (others.map quoted) ++ "]))")
        (some (.store, name)) := by
  have isLong : storeForm ∈ longForms := by simp [longForms]
  have split
      : " = FnPtr::new(metaloadfn(&mut loadfn, "
        = " = FnPtr::new(" ++ "metaloadfn(&mut loadfn, " :=
    ofList_eq_append rfl
  have quote {text : String} (solid : IsUnbroken text) : IsUnbroken (quoted text) := by
    have mark : IsUnbroken "\"" := isUnbroken_ofList (by decide)
    exact isUnbroken_append.mpr ⟨isUnbroken_append.mpr ⟨mark, solid⟩, mark⟩
  have comma : IsUnbroken ", " := isUnbroken_ofList (by decide)
  have listed : IsUnbroken (", ".intercalate (others.map quoted)) :=
    isUnbroken_intercalate comma <| by
      simpa using fun other member => quote (otherSolid other member)
  have rest
      : IsUnbroken ("metaloadfn(&mut loadfn, "
          ++ (quoted symbol ++ (", &[" ++ (", ".intercalate (others.map quoted) ++ "]))")))) := by
    rw [isUnbroken_append, isUnbroken_append, isUnbroken_append, isUnbroken_append]
    exact ⟨isUnbroken_ofList (by decide), quote solid, isUnbroken_ofList (by decide), listed,
      isUnbroken_ofList (by decide)⟩
  have reads
      : Reads
          ("            storage::" ++ (name ++ (" = FnPtr::new(" ++ ("metaloadfn(&mut loadfn, "
            ++ (quoted symbol ++ (", &[" ++ (", ".intercalate (others.map quoted) ++ "]))")))))))
          (some (.store, name)) :=
    reads_long words isLong rest
  rw [split]
  simpa only [String.append_assoc] using reads

theorem gives_loaderModule {command : Command}
    (words : ∀ c ∈ (context.api.commandIdent command.name).toList, isWordChar c = true)
    (solid : IsUnbroken command.name)
    (others : ∀ other ∈ fallbacks resolution.registry command, IsUnbroken other)
    : Gives (loaderModule context resolution command)
        ([.module, .check, .store].map fun role =>
          (role, context.api.commandIdent command.name)) := by
  have isModule : moduleForm ∈ longForms := .tail _ (.head _)
  have isCheck : checkForm ∈ longForms := by simp [longForms]
  have fixed : ∀ line ∈ [
    "",
    "    use super::\x7bstorage, metaloadfn\x7d;",
    "    use super::__khronos_imports::raw;",
    "    use super::FnPtr;",
    "    #[inline]",
    "    pub fn is_loaded() -> bool \x7b",
    "    \x7d",
    "    pub fn load_with<F>(mut loadfn: F) where F: FnMut(&'static str) -> *const raw::c_void \x7b",
    "        unsafe \x7b",
    "        \x7d",
    "\x7d"
  ], IsSilent line := by
    apply isSilent_of_spelled
    case same => repeat apply Spelled.cons
                 exact .nil
    case silent => decide
  simp only [List.forall_mem_cons] at fixed
  obtain ⟨blank, storage, raw, pointer, inline, isLoaded, close, loadWith, opening, closing, brace,
    -⟩ := fixed
  have loads :=
    Gives.cons loadWith <| Gives.cons opening <| Gives.cons (reads_storeLine words solid others)
      <| Gives.cons closing <| Gives.cons close <| Gives.cons brace gives_nil
  have checks :=
    Gives.cons inline <| Gives.cons isLoaded <| Gives.cons (reads_whole words isCheck)
      <| Gives.cons close <| Gives.cons blank loads
  exact
    Gives.cons blank <| Gives.cons (reads_whole words isModule) <| Gives.cons storage
      <| Gives.cons raw <| Gives.cons pointer <| Gives.cons blank checks

theorem gives_loadCalls {names : List String}
    (words : ∀ name ∈ names, ∀ c ∈ name.toList, isWordChar c = true)
    : Gives (unlines (names.map fun name => "    " ++ name ++ "::load_with(&mut loadfn);"))
        (names.map fun name => (.load, name)) := by
  induction names with
  | nil => exact gives_nil
  | cons name names ih =>
      obtain ⟨first, others⟩ := List.forall_mem_cons.mp words
      exact Gives.cons (reads_load first) (ih others)

theorem gives_loadAll (api : Api) {names : List String}
    (words : ∀ name ∈ names, ∀ c ∈ name.toList, isWordChar c = true)
    : Gives (loadAll api names) (names.map fun name => (.load, name)) := by
  have fixed : ∀ line ∈ [
    "",
    "/// native name is missing.",
    "pub fn load_with<F>(mut loadfn: F) where F: FnMut(&'static str) -> *const raw::c_void \x7b",
    "\x7d"
  ], IsSilent line := by
    apply isSilent_of_spelled
    case same => repeat apply Spelled.cons
                 exact .nil
    case silent => decide
  have comment
      : IsSilent ("/// Loads every " ++ api.title
          ++ " command through `loadfn`, trying aliases when the") := by
    rw [String.append_assoc]
    refine isSilent_append (by decide) (isUnbroken_append.mpr ?_)
    exact ⟨isUnbroken_title api, isUnbroken_ofList (by decide)⟩
  simp only [List.forall_mem_cons] at fixed
  obtain ⟨blank, native, loadWith, brace, -⟩ := fixed
  have opening :=
    Gives.cons blank <| Gives.cons comment <| Gives.cons native <| Gives.cons loadWith gives_nil
  have whole := (opening.append (gives_loadCalls words)).append gives_brace
  rw [List.append_nil] at whole
  unfold loadAll
  exact whole

end ApiBindings.Artifact
