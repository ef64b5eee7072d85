import ApiBindings.Artifact.Enums
import ApiBindings.Proofs.Artifacts.Sections

/-! What the enums artifact has identifiers for.
It declares the type of each group and in it the constants of the members, and nothing else of the
kinds that are declared in generated bindings.
-/

namespace ApiBindings.Artifact

open ApiBindings.Code
open ApiBindings.Text

variable (context : Context) (resolution : Resolution)

/-- What the type of a group has identifiers for: itself and the constants of the members. -/
def groupRoles (listed : String × List Enumerant) : List (Role × String) :=
  (.type, groupName listed.1)
    :: listed.2.map fun member => (.member, enumerantIdent context member)

theorem gives_innerComment (text : String) : Gives (docComment "    " text) [] :=
  gives_docComment (by decide) text

theorem gives_memberItem {name : String} (solid : IsUnbroken name) (type : IntType)
    (member : Enumerant)
    : Gives (memberItem context name type member) [(.member, enumerantIdent context member)] := by
  have isLong : memberForm ∈ longForms := by simp [longForms]
  have rest
      : IsUnbroken (name ++ (" = " ++ (name ++ ("(" ++ (literal type member.value ++ ");"))))) := by
    simp only [isUnbroken_append]
    exact ⟨solid, isUnbroken_ofList (by decide), solid, isUnbroken_ofList (by decide),
      isUnbroken_literal _ _, isUnbroken_ofList (by decide)⟩
  have reads
      : Reads
          ("    pub const " ++ (enumerantIdent context member ++ (": "
            ++ (name ++ (" = " ++ (name ++ ("(" ++ (literal type member.value ++ ");"))))))))
          (some (.member, enumerantIdent context member)) :=
    reads_long (isWordChar_of_mem_ident _) isLong rest
  have ends : ");\n" = ");" ++ "\n" := ofList_eq_append rfl
  have whole := (gives_innerComment (enumerantSummary context member)).append (gives_item reads)
  unfold memberItem
  rw [ends]
  simpa only [String.append_assoc, List.nil_append] using whole

theorem gives_bitmaskItems {name : String} (words : ∀ c ∈ name.toList, isWordChar c = true)
    : Gives (unlines (bitmaskItems name)) [] := by
  have fixed : ∀ line ∈ [
    "",
    "    /// True if every bit of `other` is set in `self`.",
    "    #[inline]",
    "        self.0 & other.0 == other.0",
    "    \x7d",
    "\x7d"
  ], IsSilent line := by
    apply isSilent_of_spelled
    case same => repeat apply Spelled.cons
                 exact .nil
    case silent => decide
  simp only [List.forall_mem_cons] at fixed
  obtain ⟨blank, comment, inline, body, close, brace, -⟩ := fixed
  have output : IsSilent ("    type Output = " ++ name ++ ";") :=
    isSilent_around words ⟨"    type Output = ", _, rfl⟩ ⟨";", _, rfl⟩ (by decide)
  have impl : IsSilent ("impl " ++ name ++ " \x7b") :=
    isSilent_around words ⟨"impl ", _, rfl⟩ ⟨" \x7b", _, rfl⟩ (by decide)
  have contains : IsSilent ("    pub fn contains(self, other: " ++ name ++ ") -> bool \x7b") :=
    isSilent_around words ⟨"    pub fn contains(self, other: ", _, rfl⟩ ⟨") -> bool \x7b", _, rfl⟩
      (by decide)
  have result : IsUnbroken (name ++ ") -> " ++ name ++ " \x7b") := by
    simp only [isUnbroken_append]
    exact ⟨⟨⟨isUnbroken_of_words words, isUnbroken_ofList (by decide)⟩, isUnbroken_of_words words⟩,
      isUnbroken_ofList (by decide)⟩
  have orImpl : IsSilent ("impl std::ops::BitOr for " ++ name ++ " \x7b") :=
    isSilent_around words ⟨"impl std::ops::BitOr for ", _, rfl⟩ ⟨" \x7b", _, rfl⟩ (by decide)
  have orOpening
      : IsSilent ("    fn bitor(self, rhs: " ++ (name ++ ") -> " ++ name ++ " \x7b")) :=
    isSilent_append (by decide) result
  have orBody : IsSilent ("        " ++ name ++ "(self.0 | rhs.0)") :=
    isSilent_around words ⟨"        ", _, rfl⟩ ⟨"(self.0 | rhs.0)", _, rfl⟩ (by decide)
  have andImpl : IsSilent ("impl std::ops::BitAnd for " ++ name ++ " \x7b") :=
    isSilent_around words ⟨"impl std::ops::BitAnd for ", _, rfl⟩ ⟨" \x7b", _, rfl⟩ (by decide)
  have andOpening
      : IsSilent ("    fn bitand(self, rhs: " ++ (name ++ ") -> " ++ name ++ " \x7b")) :=
    isSilent_append (by decide) result
  have andBody : IsSilent ("        " ++ name ++ "(self.0 & rhs.0)") :=
    isSilent_around words ⟨"        ", _, rfl⟩ ⟨"(self.0 & rhs.0)", _, rfl⟩ (by decide)
  simp only [← String.append_assoc] at orOpening andOpening
  refine gives_silent ?_
  simp only [bitmaskItems, List.forall_mem_cons]
  simp [blank, comment, inline, body, close, brace, output, impl, contains, orImpl, orOpening,
    orBody, andImpl, andOpening, andBody]

/-- The line that declares the type of a group. -/
theorem reads_groupType {name : String} (words : ∀ c ∈ name.toList, isWordChar c = true)
    (type : IntType)
    : Reads ("pub struct " ++ name ++ "(pub " ++ type.name ++ ");") (some (.type, name)) := by
  have isLong : typeForm ∈ longForms := by simp [longForms]
  have rest : IsUnbroken (type.name ++ ");") :=
    isUnbroken_append.mpr ⟨isUnbroken_name _, isUnbroken_ofList (by decide)⟩
  have reads : Reads ("pub struct " ++ (name ++ ("(pub " ++ _))) (some (.type, name)) :=
    reads_long words isLong rest
  simpa only [String.append_assoc] using reads

theorem isSilent_value (type : IntType)
    : IsSilent ("    pub const fn value(self) -> " ++ type.name ++ " \x7b") := by
  rw [String.append_assoc]
  exact isSilent_append (by decide)
    (isUnbroken_append.mpr ⟨isUnbroken_name _, isUnbroken_ofList (by decide)⟩)

theorem gives_groupItem (listed : String × List Enumerant)
    : Gives (groupItem context listed.1 listed.2) (groupRoles context listed) := by
  have words : ∀ c ∈ (groupName listed.1).toList, isWordChar c = true := isWordChar_of_mem_ident _
  have solid := isUnbroken_of_words words
  have fixed : ∀ line ∈ [
    "#[repr(transparent)]",
    "#[derive(Clone, Copy, Debug, PartialEq, Eq, PartialOrd, Ord, Hash)]",
    "",
    "    /// The raw value.",
    "    #[inline]",
    "        self.0",
    "    \x7d",
    "\x7d"
  ], IsSilent line := by
    apply isSilent_of_spelled
    case same => repeat apply Spelled.cons
                 exact .nil
    case silent => decide
  simp only [List.forall_mem_cons] at fixed
  obtain ⟨transparent, derives, blank, comment, inline, body, close, brace, -⟩ := fixed
  have declared := reads_groupType words (intType (listed.2.map Enumerant.value))
  have impl : IsSilent ("impl " ++ groupName listed.1 ++ " \x7b") :=
    isSilent_around words ⟨"impl ", _, rfl⟩ ⟨" \x7b", _, rfl⟩ (by decide)
  have value := isSilent_value (intType (listed.2.map Enumerant.value))
  have opening :=
    Gives.cons transparent <| Gives.cons derives <| Gives.cons declared <| Gives.cons blank
      <| Gives.cons impl gives_nil
  have members := gives_join fun member (_ : member ∈ listed.2) =>
    gives_memberItem context solid (intType (listed.2.map Enumerant.value)) member
  have closing :=
    Gives.cons blank <| Gives.cons comment <| Gives.cons inline <| Gives.cons value
      <| Gives.cons body <| Gives.cons close <| Gives.cons brace gives_nil
  have bitmask
      : Gives
          (if context.registry.isBitmaskGroup listed.1 then
            unlines (bitmaskItems (groupName listed.1))
          else "")
          [] := by
    split
    · exact gives_bitmaskItems words
    · exact gives_empty
  have whole (summary : String) :=
    ((((gives_break.append (gives_outerComment summary)).append opening).append members).append
      closing).append bitmask
  simp only [Option.toList_none, Option.toList_some, List.nil_append, List.append_nil,
    List.singleton_append, ← List.map_eq_flatMap] at whole
  exact whole _

/-- The enums artifact declares the types of the groups with their members, and nothing else. -/
theorem roles_enums (profile : IsUnbroken resolution.profile.name)
    : roles (enums context resolution) = resolution.groups.flatMap (groupRoles context) := by
  have allow : Gives "#![allow(dead_code, non_upper_case_globals)]\n" [] := by
    have ends
        : "#![allow(dead_code, non_upper_case_globals)]\n"
          = "#![allow(dead_code, non_upper_case_globals)]" ++ "\n" :=
      ofList_eq_append rfl
    rw [ends]
    exact gives_text (isSilent_ofList (by decide))
  have banner :=
    roles_banner context profile (isUnbroken_ofList (by decide) : IsUnbroken "enum groups")
  have start := (endsLine_banner context resolution "enum groups").gives
  rw [banner] at start
  have types := gives_join fun listed (_ : listed ∈ resolution.groups) =>
    gives_groupItem context listed
  have whole := (start.append allow).append types
  rw [List.nil_append, List.nil_append] at whole
  unfold enums
  exact whole.roles_eq

end ApiBindings.Artifact
