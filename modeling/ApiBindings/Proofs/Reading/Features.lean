import ApiBindings.Proofs.Reading.Parts

/-! The features of a document are those of its feature elements.
No other section has any, and what is known of constants when an element is read does not matter.
An element is only read into a feature if it is for the chosen interface, and so are its blocks.
-/

namespace ApiBindings

namespace Document

open ApiBindings.Markup
open Findings

-----------------------------------------------------------------------------------------
-- Sections without features
-----------------------------------------------------------------------------------------

theorem features_readExtension (source : Source) (scope : Constant.Scope) (element : Element)
    : (readExtension source scope element).1.features = [] := by
  unfold readExtension
  split
  · rfl
  · exact (List.append_nil _).trans
      (of_collect_readItems Part.features_skipsEnumerants source _ scope _)

-----------------------------------------------------------------------------------------
-- Feature elements
-----------------------------------------------------------------------------------------

/-- The feature that an element is read into, if it is for the chosen interface and complete. -/
def feature? (source : Source) (element : Element) : Option Feature :=
  if source.allows element then
    match element.attribute? "api", element.attribute? "name",
      (element.attribute? "number").bind Version.parse? with
    | some api, some name, some number => some {
        api, name, number
        requires := (blocks source element ["require"]).map (readBlock source)
        removes := (blocks source element ["remove"]).map (readBlock source)
      }
    | _, _, _ => none
  else
    none

/-- Reading a feature element leaves its feature behind all that its blocks define. -/
theorem features_readFeature (source : Source) (scope : Constant.Scope) (element : Element)
    : (readFeature source scope element).1.features = (feature? source element).toList := by
  have ofBlocks (origin : Origin)
      : (collect (readItems source origin) scope
            (blocks source element ["require", "remove"])).1.features
        = [] :=
    of_collect_readItems Part.features_skipsEnumerants source origin scope _
  unfold readFeature feature?
  cases source.allows element with
  | false => rfl
  | true =>
      simp only [Bool.not_true, Bool.false_eq_true, if_false, if_true]
      split
      · rename_i api name text apiFound nameFound numberFound
        rw [apiFound, nameFound, numberFound, Option.bind_some]
        cases Version.parse? text with
        | none => rfl
        | some number => exact congrArg (· ++ _) (ofBlocks _)
      · rename_i incomplete
        split
        · rename_i api name number apiFound nameFound numberFound
          obtain ⟨text, textFound, -⟩ := Option.bind_eq_some_iff.mp numberFound
          exact absurd textFound (incomplete api name text apiFound nameFound)
        · rfl

/-- Only sections that are feature elements have a feature. -/
theorem features_readSection (source : Source) (scope : Constant.Scope) (element : Element)
    : (readSection source scope element).1.features
      = if element.name = "feature" then (feature? source element).toList else [] := by
  by_cases feature : element.name = "feature"
  · rw [if_pos feature, readSection]
    simp only [feature, String.reduceEq, if_false, if_true]
    exact features_readFeature source scope element
  · rw [if_neg feature]
    by_cases extensions : element.name = "extensions"
    · rw [readSection]
      simp only [extensions, String.reduceEq, if_false, if_true]
      exact Part.features.of_collect_eq_nil (features_readExtension source) scope _
    · exact of_readSection Part.features_skipsDefinitions Part.features_skipsEnumerants source
        scope feature extensions

/-- Every feature of a document is read from an element of it, whether or not the document is
well-formed.
-/
theorem exists_feature?_of_mem_read [Library] {source : Source} {text : String} {feature : Feature}
    (member : feature ∈ (read source text).features)
    : ∃ element, feature? source element = some feature := by
  have inTree
      : feature
        ∈ (readTree source (Element.ofEvents (Library.read text.toList).events)).features := by
    rcases List.mem_append.mp member with fault | inTree
    · unfold malformed at fault
      split at fault <;> cases fault
    · exact inTree
  unfold readTree at inTree
  split at inTree
  · unfold readRegistry at inTree
    change feature ∈ Part.features.of _ at inTree
    rw [Part.features.of_collect (features_readSection source)] at inTree
    obtain ⟨element, _, ofElement⟩ := List.mem_flatMap.mp inTree
    split at ofElement
    · exact ⟨element, Option.mem_toList.mp ofElement⟩
    · cases ofElement
  · cases inTree

-----------------------------------------------------------------------------------------
-- Features for an interface
-----------------------------------------------------------------------------------------

/-- A feature for an interface: the interfaces that it lists include it, and so do those that its
blocks list.
-/
structure IsFor (interface : String) (feature : Feature) : Prop where
  listed : lists feature.api interface = true
  listedByBlocks
    : ∀ block ∈ feature.requires, ∀ list ∈ block.api, lists list interface = true

theorem lists_of_allows {source : Source} {element : Element} {interface list : String}
    (chosen : source.api = some interface) (given : element.attribute? "api" = some list)
    (allows : source.allows element = true)
    : lists list interface = true := by
  unfold Source.allows at allows
  rwa [given, chosen] at allows

/-- A document is read for an interface into features for that interface only. -/
theorem isFor_of_mem_read [Library] {source : Source} {interface text : String} {feature : Feature}
    (chosen : source.api = some interface) (member : feature ∈ (read source text).features)
    : IsFor interface feature := by
  obtain ⟨element, found⟩ := exists_feature?_of_mem_read member
  unfold feature? at found
  split at found
  · rename_i allows
    split at found
    · rename_i api name number apiFound nameFound numberFound
      obtain rfl := Option.some.inj found
      constructor
      · exact lists_of_allows chosen apiFound allows
      · intro block required list listed
        obtain ⟨child, childMember, rfl⟩ := List.mem_map.mp required
        have childAllows := (Bool.and_eq_true_iff.mp (List.mem_filter.mp childMember).2).2
        exact lists_of_allows chosen listed childAllows
    · cases found
  · cases found

end Document

end ApiBindings
