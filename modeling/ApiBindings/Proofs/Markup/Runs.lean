import ApiBindings.Proofs.Markup.Events

/-! What the reader of a document has yielded at the end of a run.
A part of a text yields the first pieces of those that the whole yields, if the whole is read
without an error. At the end of such a text no element is open, and at least one has been opened.
-/

namespace ApiBindings.Markup

/-- An element has been opened, and none is left open. -/
structure RootEnded (events : List Event) : Prop where
  closed : (Element.Path.ofEvents events).outer = []
  opened : ∃ tag, .opened tag ∈ events

namespace Reader

-----------------------------------------------------------------------------------------
-- Steps
-----------------------------------------------------------------------------------------

/-- A reader has open what its pieces leave open, and past a start tag an element has been opened.
-/
structure Follows (reader : Reader) : Prop where
  depth : (Element.Path.ofEvents reader.events.reverse).outer.length = reader.opened.length
  rooted
    : reader.prolog = .rooted → reader.mode.isTag = false → ∃ tag, .opened tag ∈ reader.events

/-- A later state of a reader has what was yielded before. -/
structure Extends (reader next : Reader) : Prop where
  events : reader.events <:+ next.events
  follows : reader.Follows → next.Follows

/-- An outcome is a later state, or an error with its line. -/
def Reaches (reader : Reader) : Outcome → Prop
  | .ok next => Extends reader next
  | .error reading => reading.fault.isSome

/-- The elements that are open after some more pieces. -/
theorem length_outer_of_yields {before after : List OpenElement} {events : List Event}
    (yields : Yields before events after) {path : Element.Path}
    (depth : path.outer.length = before.length)
    : (events.reverse.foldl Element.Path.step path).outer.length = after.length := by
  cases yields with
  | nothing => exact depth
  | text => exact depth
  | instruction => exact depth
  | start tag element => exact congrArg (· + 1) depth
  | empty tag => exact depth
  | stop element =>
      obtain ⟨inner, outer⟩ := path
      cases outer with
      | nil => cases depth
      | cons parent outer => exact Nat.succ.inj depth

variable {reader next : Reader}

theorem Advances.extends (advances : Advances reader next) : Extends reader next := by
  obtain ⟨events, shape, yields⟩ := advances.yields
  constructor
  · exact ⟨events, shape.symm⟩
  · intro follows
    constructor
    · rw [shape, List.reverse_append, Element.Path.ofEvents, List.foldl_append]
      exact length_outer_of_yields yields follows.depth
    · intro rooted outside
      rcases advances.rooted rooted outside with ⟨before, beforeOutside⟩ | opened
      · obtain ⟨tag, member⟩ := follows.rooted before beforeOutside
        exact ⟨tag, shape ▸ List.mem_append_right events member⟩
      · exact opened

theorem Extends.trans {last : Reader} (first : Extends reader next) (second : Extends next last)
    : Extends reader last :=
  ⟨first.events.trans second.events, fun follows => second.follows (first.follows follows)⟩

theorem Extends.reaches (first : Extends reader next) {outcome : Outcome}
    (second : Reaches next outcome)
    : Reaches reader outcome := by
  cases outcome with
  | ok last => exact first.trans second
  | error reading => exact second

theorem Leads.reaches {outcome : Outcome} (leads : Leads reader outcome)
    : Reaches reader outcome := by
  cases outcome with
  | ok next => exact leads.extends
  | error reading => exact leads

/-- Nothing of what a reader follows depends on where in the text it is. -/
theorem extends_of_same (events : next.events = reader.events)
    (opened : next.opened = reader.opened) (prolog : next.prolog = reader.prolog) (mode : next.mode = reader.mode)
    : Extends reader next := by
  constructor
  · exact ⟨[], events.symm⟩
  · intro follows
    refine ⟨by rw [events, opened, follows.depth], fun rooted outside => ?_⟩
    rw [events]
    exact follows.rooted (prolog ▸ rooted) (mode ▸ outside)

-----------------------------------------------------------------------------------------
-- Runs
-----------------------------------------------------------------------------------------

/-- What every step reaches, a run of them reaches. By induction on the items. -/
theorem reaches_foldlM {α : Type} {step : Reader → α → Outcome}
    (each : ∀ reader item, Reaches reader (step reader item)) (items : List α) (reader : Reader)
    : Reaches reader (items.foldlM step reader) := by
  induction items generalizing reader with
  | nil => exact ⟨List.suffix_rfl, id⟩
  | cons item items ih =>
      have first := each reader item
      rw [List.foldlM_cons]
      cases reached : step reader item with
      | error reading =>
          rw [reached] at first
          exact first
      | ok next =>
          rw [reached] at first
          exact Extends.reaches first (ih next)

theorem reaches_readTokens (reader : Reader) (tokens : List (Nat × Token))
    : Reaches reader (reader.readTokens tokens) := by
  refine reaches_foldlM (fun reader item => ?_) tokens reader
  have moved : Extends reader { reader with line := item.1 } := extends_of_same rfl rfl rfl rfl
  exact moved.reaches (leads_read _ item.2).reaches

theorem reaches_readChar (reader : Reader) (counts : Bool) (c : Char)
    : Reaches reader (reader.readChar counts c) := by
  unfold readChar
  split
  · exact rfl
  · rename_i scanner tokens _
    have moved : Extends reader { reader with scanner } := extends_of_same rfl rfl rfl rfl
    exact moved.reaches (reaches_readTokens _ tokens)

theorem Reaches.of_ok {outcome : Outcome} (reaches : Reaches reader outcome)
    (reached : outcome = .ok next)
    : Extends reader next := by
  rw [reached] at reaches
  exact reaches

theorem Reaches.of_error {outcome : Outcome} {reading : Reading} (reaches : Reaches reader outcome)
    (failed : outcome = .error reading)
    : reading.fault.isSome := by
  rw [failed] at reaches
  exact reaches

/-- The texts of entities are read like the document. By induction on how they are read. -/
theorem reaches_readExpansion (reader : Reader) (left : Nat) (waiting : List Char)
    : Reaches reader (reader.readExpansion left waiting) := by
  fun_induction readExpansion reader left waiting with
  | case1 reader => exact ⟨List.suffix_rfl, id⟩
  | case2 reader left c rest reading failed =>
      exact (reaches_readChar reader false c).of_error failed
  | case3 reader left c rest next reached empty ih =>
      exact ((reaches_readChar reader false c).of_ok reached).reaches ih
  | case4 => exact rfl
  | case5 reader c rest next reached expands left few ih =>
      have moved : Extends next { next with expansion := [] } := extends_of_same rfl rfl rfl rfl
      exact (((reaches_readChar reader false c).of_ok reached).trans moved).reaches ih
  | case6 => exact rfl

/-- A character is read, and then the text of the entity that it completes a reference to. -/
theorem reaches_readCounting (reader : Reader) (c : Char)
    : Reaches reader (reader.readCounting c) := by
  have first := reaches_readChar reader true c
  unfold readCounting
  split
  · rename_i failed
    exact first.of_error failed
  · rename_i next reached
    split
    · exact first.of_ok reached
    · have moved : Extends next { next with expansion := [] } := extends_of_same rfl rfl rfl rfl
      exact ((first.of_ok reached).trans moved).reaches (reaches_readExpansion _ _ _)

/-- A character of the document leads to more pieces or to an error. -/
theorem reaches_step (reader : Reader) (c : Char) : Reaches reader (reader.step c) := by
  unfold step
  split
  · exact reaches_foldlM reaches_readCounting _ reader
  · exact rfl

end Reader

-----------------------------------------------------------------------------------------
-- Texts
-----------------------------------------------------------------------------------------

namespace Reading

open Reader

/-- A reader at the start of a text has nothing open. -/
theorem follows_start (text : List Char) : (Reader.start text).1.Follows := by
  unfold Reader.start
  split
  · exact ⟨rfl, fun rooted => by cases rooted⟩
  · exact ⟨rfl, fun rooted => by cases rooted⟩

/-- A text that is read without an error is read to its end. -/
theorem exists_reader_of_accepted {text : List Char} (accepted : (ofText text).fault = none)
    : ∃ reader, (Reader.start text).2.foldlM Reader.step (Reader.start text).1 = .ok reader
        ∧ ofText text = reader.finish := by
  have reaches := reaches_foldlM reaches_step (Reader.start text).2 (Reader.start text).1
  unfold ofText at accepted ⊢
  dsimp only at accepted ⊢
  split at accepted
  · rename_i reader reached
    exact ⟨reader, reached, rfl⟩
  · rename_i reading failed
    have faulty := reaches.of_error failed
    rw [accepted] at faulty
    cases faulty

/-- Behind a text that is read without an error the root has ended. -/
theorem rootEnded_of_accepted {text : List Char} (accepted : (ofText text).fault = none)
    : RootEnded (ofText text).events := by
  obtain ⟨reader, reached, same⟩ := exists_reader_of_accepted accepted
  have follows := ((reaches_foldlM reaches_step _ _).of_ok reached).follows (follows_start text)
  rw [same] at accepted ⊢
  unfold finish at accepted
  split at accepted
  · rename_i ended
    obtain ⟨-, content, -, outside, rooted⟩ := ended
    have none : reader.opened = [] := List.isEmpty_iff.mp outside
    constructor
    · exact List.eq_nil_of_length_eq_zero (by rw [finish, follows.depth, none]; rfl)
    · obtain ⟨tag, member⟩ := follows.rooted rooted (by rw [content]; rfl)
      exact ⟨tag, List.mem_reverse.mpr member⟩
  · cases accepted

/-- A part of a text starts like the text, if there is anything of it. -/
theorem start_append {front : List Char} (nonempty : front ≠ []) (back : List Char)
    : Reader.start (front ++ back)
      = ((Reader.start front).1, (Reader.start front).2 ++ back) := by
  cases front with
  | nil => exact absurd rfl nonempty
  | cons c front =>
      by_cases mark : c = '\ufeff'
      · subst mark
        rfl
      · simp [Reader.start, mark]

/-- A part of a text yields the first pieces of those that the whole yields. -/
theorem events_isPrefix {front back : List Char} (accepted : (ofText (front ++ back)).fault = none)
    : (ofText front).events <+: (ofText (front ++ back)).events := by
  by_cases nonempty : front = []
  · subst nonempty
    exact List.nil_prefix
  · obtain ⟨last, reached, same⟩ := exists_reader_of_accepted accepted
    rw [start_append nonempty, List.foldlM_append] at reached
    cases middle : (Reader.start front).2.foldlM Reader.step (Reader.start front).1 with
    | error reading =>
        rw [middle] at reached
        cases reached
    | ok reader =>
        rw [middle] at reached
        have later := ((reaches_foldlM reaches_step back reader).of_ok reached).events
        have here : ofText front = reader.finish := by
          rw [ofText]
          dsimp only
          rw [middle]
        rw [same, here]
        exact List.reverse_prefix.mpr later

end Reading

end ApiBindings.Markup
