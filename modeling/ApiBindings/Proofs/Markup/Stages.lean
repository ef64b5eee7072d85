import ApiBindings.Markup.Element
import ApiBindings.Markup.Reader

/-! Reading a text piece by piece.
A stage is what there is to know of a reader between two pieces of a text: what it reads, which
elements are open, and which ones it has yielded. Lines and the texts between elements do not
matter to what comes next. A piece is cut into tokens, and the tokens lead from stage to stage.
-/

namespace ApiBindings.Markup

-----------------------------------------------------------------------------------------
-- Tokens of a text
-----------------------------------------------------------------------------------------

/-- The tokens that a text is cut into outside of a document type, and the mode behind it. -/
def scan? : ScanMode → List Char → Option (List Token × ScanMode)
  | mode, [] => some ([], mode)
  | mode, c :: rest =>
      match Scanner.cut? false mode c with
      | some { tokens, mode := next, isTyped := false } =>
          (scan? next rest).map fun (later, last) => (tokens ++ later, last)
      | _ => none

theorem scan?_cons {mode next last : ScanMode} {c : Char} {tokens later : List Token}
    {rest : List Char}
    (cuts : Scanner.cut? false mode c = some { tokens, mode := next, isTyped := false })
    (scans : scan? next rest = some (later, last))
    : scan? mode (c :: rest) = some (tokens ++ later, last) := by
  rw [scan?, cuts]
  dsimp only
  rw [scans, Option.map_some]

theorem exists_of_scan?_cons {mode last : ScanMode} {c : Char} {tokens : List Token}
    {rest : List Char} (scans : scan? mode (c :: rest) = some (tokens, last))
    : ∃ first next later,
        Scanner.cut? false mode c = some { tokens := first, mode := next, isTyped := false }
        ∧ scan? next rest = some (later, last)
        ∧ tokens = first ++ later := by
  rw [scan?] at scans
  split at scans
  · rename_i first next cuts
    obtain ⟨⟨later, behind⟩, found, same⟩ := Option.map_eq_some_iff.mp scans
    obtain ⟨rfl, rfl⟩ := Prod.mk.inj same
    exact ⟨first, next, later, cuts, found, rfl⟩
  · cases scans

/-- Two texts that follow each other. By induction on the first one. -/
theorem scan?_append {mode between last : ScanMode} {front back : List Char}
    {earlier later : List Token} (first : scan? mode front = some (earlier, between))
    (second : scan? between back = some (later, last))
    : scan? mode (front ++ back) = some (earlier ++ later, last) := by
  induction front generalizing mode earlier with
  | nil =>
      obtain ⟨rfl, rfl⟩ := Prod.mk.inj (Option.some.inj first)
      exact second
  | cons c front ih =>
      obtain ⟨tokens, next, rest, cuts, scans, rfl⟩ := exists_of_scan?_cons first
      rw [List.append_assoc]
      exact scan?_cons cuts (ih scans)

-----------------------------------------------------------------------------------------
-- Stages
-----------------------------------------------------------------------------------------

/-- A piece of a document without its line, if it is the start or the end of an element. -/
def Event.bare? : Event → Option Event
  | .opened tag => some (.opened { tag with line := 0 })
  | .closed => some .closed
  | .text _ | .instruction => none

/-- What there is to know of a reader. The starts and ends of elements are the latest first. -/
structure Stage where
  prolog : Prolog
  opened : List Name
  mode : Mode
  events : List Event

/-- A reader is at a stage and not in a reference, in a document in Unicode and of version 1.0 that
declares no entities.
-/
structure Reader.At (reader : Reader) (stage : Stage) : Prop where
  encoding : reader.encoding = .unicode
  version : reader.isVersion11 = false
  entities : reader.entities = []
  expansion : reader.expansion = []
  reference : reader.run.reference = none
  prolog : reader.prolog = stage.prolog
  opened : reader.opened.map OpenElement.name = stage.opened
  mode : reader.mode = stage.mode
  events : reader.events.filterMap Event.bare? = stage.events

/-- Nothing of a stage depends on the line or on what is being cut. -/
theorem Reader.At.of_same {reader : Reader} {stage : Stage} (isAt : reader.At stage)
    (scanner : Scanner) (line : Nat)
    : Reader.At { reader with scanner, line } stage :=
  { isAt with }

namespace Stage

/-- A token leads from one stage to another. -/
def Takes (stage : Stage) (token : Token) (next : Stage) : Prop :=
  ∀ reader : Reader,
    reader.At stage
    → ∃ after, reader.read token = .ok after ∧ after.At next ∧ after.scanner = reader.scanner

/-- Tokens lead from one stage to another. -/
inductive TakesAll : Stage → List Token → Stage → Prop where
  | nil (stage : Stage) : TakesAll stage [] stage
  | cons {stage middle next : Stage} {token : Token} {tokens : List Token}
      (takes : stage.Takes token middle) (rest : TakesAll middle tokens next)
    : TakesAll stage (token :: tokens) next

variable {stage middle next : Stage}

theorem Takes.all {token : Token} (takes : stage.Takes token next)
    : stage.TakesAll [token] next :=
  .cons takes (.nil next)

theorem TakesAll.append {earlier later : List Token} (first : stage.TakesAll earlier middle)
    (second : middle.TakesAll later next)
    : stage.TakesAll (earlier ++ later) next := by
  induction first with
  | nil => exact second
  | cons takes _ ih => exact .cons takes (ih second)

theorem TakesAll.exists_of_append {earlier later : List Token}
    (takes : stage.TakesAll (earlier ++ later) next)
    : ∃ middle, stage.TakesAll earlier middle ∧ middle.TakesAll later next := by
  induction earlier generalizing stage with
  | nil => exact ⟨stage, .nil stage, takes⟩
  | cons token earlier ih =>
      cases takes with
      | cons takes rest =>
          obtain ⟨middle, first, second⟩ := ih rest
          exact ⟨middle, .cons takes first, second⟩

/-- A text leads from one stage to another, if it begins outside of every token and ends there. -/
def Goes (stage : Stage) (text : List Char) (next : Stage) : Prop :=
  ∀ reader : Reader,
    reader.At stage
    → reader.scanner.mode = .plain
    → reader.scanner.isTyped = false
    → ∃ after,
        text.foldlM Reader.step reader = .ok after
        ∧ after.At next
        ∧ after.scanner.mode = .plain
        ∧ after.scanner.isTyped = false

theorem Goes.append {front back : List Char} (first : stage.Goes front middle)
    (second : middle.Goes back next)
    : stage.Goes (front ++ back) next := by
  intro reader isAt plain untyped
  obtain ⟨between, reached, isBetween, plain, untyped⟩ := first reader isAt plain untyped
  obtain ⟨after, ends, isAfter, plain, untyped⟩ := second between isBetween plain untyped
  refine ⟨after, ?_, isAfter, plain, untyped⟩
  rw [List.foldlM_append, reached]
  exact ends

theorem goes_nil (stage : Stage) : stage.Goes [] stage := by
  intro reader isAt plain untyped
  exact ⟨reader, rfl, isAt, plain, untyped⟩

/-- Tokens with their lines are read like the tokens alone. By induction on how they are taken. -/
theorem exists_readTokens {tokens : List Token} (takes : stage.TakesAll tokens next)
    {lined : List (Nat × Token)} (same : lined.map Prod.snd = tokens) {reader : Reader}
    (isAt : reader.At stage)
    : ∃ after,
        reader.readTokens lined = .ok after ∧ after.At next ∧ after.scanner = reader.scanner := by
  induction takes generalizing lined reader with
  | nil =>
      obtain rfl := List.map_eq_nil_iff.mp same
      exact ⟨reader, rfl, isAt, rfl⟩
  | @cons stage middle next token tokens takes _ ih =>
      obtain ⟨⟨line, token⟩, rest, rfl, rfl, behind⟩ := List.map_eq_cons_iff.mp same
      obtain ⟨between, reads, isBetween, kept⟩ := takes _ (isAt.of_same reader.scanner line)
      obtain ⟨after, ends, isAfter, keptToo⟩ := ih behind isBetween
      refine ⟨after, ?_, isAfter, keptToo.trans kept⟩
      rw [Reader.readTokens, List.foldlM_cons]
      exact (congrArg (· >>= _) reads).trans ends

theorem map_snd_withLines (first later : Nat) (tokens : List Token)
    : (Scanner.withLines first later tokens).map Prod.snd = tokens := by
  cases tokens with
  | nil => rfl
  | cons token rest => simp [Scanner.withLines, Function.comp_def]

/-- A character is read as the tokens that it completes. -/
theorem exists_step {c : Char} {mode : ScanMode} {tokens : List Token} {reader : Reader}
    (isAt : reader.At stage) (untyped : reader.scanner.isTyped = false)
    (cuts
      : Scanner.cut? false reader.scanner.mode c = some { tokens, mode, isTyped := false })
    (takes : stage.TakesAll tokens next)
    : ∃ after,
        reader.step c = .ok after
        ∧ after.At next
        ∧ after.scanner.mode = mode
        ∧ after.scanner.isTyped = false := by
  obtain ⟨scanner, lined, scans, isMode, isUntyped, same⟩
      : ∃ scanner lined,
          reader.scanner.step? true c = some (scanner, lined)
          ∧ scanner.mode = mode
          ∧ scanner.isTyped = false
          ∧ lined.map Prod.snd = tokens := by
    rw [Scanner.step?, untyped, cuts]
    exact ⟨_, _, rfl, rfl, rfl, map_snd_withLines _ _ _⟩
  obtain ⟨after, reads, isAfter, kept⟩ :=
    exists_readTokens takes same (isAt.of_same scanner reader.line)
  refine ⟨after, ?_, isAfter, kept ▸ isMode, kept ▸ isUntyped⟩
  have decoded : reader.encoding.decode? c = some [c] := by
    rw [isAt.encoding, Encoding.decode?]
    split <;> rfl
  have counted : reader.readCounting c = .ok after := by
    rw [Reader.readCounting, Reader.readChar, scans]
    dsimp only
    rw [reads]
    dsimp only
    rw [isAfter.expansion]
    rfl
  rw [Reader.step, decoded]
  dsimp only
  rw [List.foldlM_cons, counted]
  rfl

/-- A text leads where its tokens lead. By induction on the text, in any mode. -/
theorem exists_foldlM_step {text : List Char} {tokens : List Token} {last : ScanMode}
    {reader : Reader} (isAt : reader.At stage) (untyped : reader.scanner.isTyped = false)
    (scans : scan? reader.scanner.mode text = some (tokens, last))
    (takes : stage.TakesAll tokens next)
    : ∃ after,
        text.foldlM Reader.step reader = .ok after
        ∧ after.At next
        ∧ after.scanner.mode = last
        ∧ after.scanner.isTyped = false := by
  induction text generalizing stage tokens reader with
  | nil =>
      obtain ⟨rfl, rfl⟩ := Prod.mk.inj (Option.some.inj scans)
      cases takes
      exact ⟨reader, rfl, isAt, rfl, untyped⟩
  | cons c text ih =>
      obtain ⟨first, mode, later, cuts, rest, rfl⟩ := exists_of_scan?_cons scans
      obtain ⟨middle, begins, ends⟩ := takes.exists_of_append
      obtain ⟨between, reads, isBetween, rfl, untyped⟩ := exists_step isAt untyped cuts begins
      obtain ⟨after, finishes, isAfter, isLast, untyped⟩ := ih isBetween untyped rest ends
      refine ⟨after, ?_, isAfter, isLast, untyped⟩
      rw [List.foldlM_cons, reads]
      exact finishes

theorem goes_of_scan? {text : List Char} {tokens : List Token}
    (scans : scan? .plain text = some (tokens, .plain)) (takes : stage.TakesAll tokens next)
    : stage.Goes text next := by
  intro reader isAt plain untyped
  exact exists_foldlM_step isAt untyped (plain ▸ scans) takes

end Stage

end ApiBindings.Markup
