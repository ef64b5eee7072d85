import ApiBindings.Header.Marker
import ApiBindings.Text.Word

/-! Patterns for the words that tell a function prototype from other declarations.
A pattern is made of literal text, places, digits, and groups of alternatives, which may be nested.
-/

namespace ApiBindings.Header

open ApiBindings.Text

/-- A pattern for a part of a statement. -/
inductive Pattern where
  /-- The empty text, which is found at every place. -/
  | nothing
  | char (c : Char)
  /-- The start of the statement. -/
  | start
  /-- A place where a word starts or ends. -/
  | boundary
  /-- One decimal digit or more. -/
  | digits
  | both (first second : Pattern)
  /-- One of two patterns, of which the first is preferred. -/
  | either (first second : Pattern)
  deriving DecidableEq, Repr

namespace Pattern

/-- A place in a statement: the character before it, if any, and the text from it on. -/
structure Place where
  before : Option Char
  rest : List Char
  deriving DecidableEq, Repr

/-- The places behind one digit and more, the farthest first. -/
def afterDigits : List Char → List Place
  | [] => []
  | c :: rest =>
      if c.isDigit then afterDigits rest ++ [{ before := some c, rest }] else []

/-- The places at which a match that starts here may end, in the order of preference. -/
def behind : Pattern → Place → List Place
  | .nothing, place => [place]
  | .char c, place =>
      match place.rest with
      | [] => []
      | d :: rest => if d = c then [{ before := some d, rest }] else []
  | .start, place => if place.before.isNone then [place] else []
  | .boundary, place => if isBoundary place.before place.rest.head? then [place] else []
  | .digits, place => afterDigits place.rest
  | .both first second, place => (first.behind place).flatMap second.behind
  | .either first second, place => first.behind place ++ second.behind place

/-- The place behind the match that starts here. -/
def end? (pattern : Pattern) (place : Place) : Option Place :=
  (pattern.behind place).head?

/-- Whether the pattern matches anywhere in a text. -/
def isIn (pattern : Pattern) (cs : List Char) : Bool :=
  (find? (fun before rest => pattern.end? { before, rest }) none cs).isSome

/-- Replaces every match by a blank, `skip` being the number of characters that the last match
still covers. `isFresh` tells whether a match may be empty, which it may not be right behind
another one. -/
def blankFrom (pattern : Pattern) (before : Option Char) (skip : Nat) (isFresh : Bool)
    : List Char → List Char
  | [] =>
      match pattern.end? { before, rest := [] } with
      | some _ => if isFresh then [' '] else []
      | none => []
  | c :: cs =>
      match skip with
      | skip + 1 => blankFrom pattern (some c) skip false cs
      | 0 =>
          match pattern.end? { before, rest := c :: cs } with
          | none => c :: blankFrom pattern (some c) 0 true cs
          | some after =>
              match (c :: cs).length - after.rest.length with
              | 0 =>
                  if isFresh then ' ' :: c :: blankFrom pattern (some c) 0 true cs
                  else c :: blankFrom pattern (some c) 0 true cs
              | covered + 1 => ' ' :: blankFrom pattern (some c) covered false cs

/-- Replaces every match of the pattern by one blank. -/
def blank (pattern : Pattern) (cs : List Char) : List Char :=
  blankFrom pattern none 0 true cs

/-- Patterns one behind the other, given with the last one first. -/
def sequence (parts : List Pattern) : Pattern :=
  parts.foldl (fun later part => .both part later) .nothing

/-- A group while it is read: its complete alternatives and the parts of the one that is being
read, both with the last one first. -/
structure Group where
  alternatives : List Pattern := []
  parts : List Pattern := []

namespace Group

def add (group : Group) (part : Pattern) : Group :=
  { group with parts := part :: group.parts }

/-- Goes on to the next alternative. -/
def next (group : Group) : Group where
  alternatives := sequence group.parts :: group.alternatives

/-- The pattern of a group that ends here. -/
def pattern (group : Group) : Pattern :=
  group.alternatives.foldl (fun later alternative => .either alternative later)
    (sequence group.parts)

end Group

/-- Characters that stand for themselves behind a backslash only. -/
def specials : List Char :=
  "\\.+*?[\x7b$".toList

/-- Whether a backslash makes a character stand for itself. -/
def isEscapable (c : Char) : Bool :=
  c.toNat < 0x80 && !c.isAlphanum && c != '<' && c != '>'

/-- Reads a pattern in a group, `around` being the groups around that one, the innermost first. A
closing bracket or brace stands for itself, as no opening one is left for it to close. -/
def read? (group : Group) (around : List Group) : List Char → Option Pattern
  | [] => if around.isEmpty then some group.pattern else none
  | '(' :: rest => read? {} (group :: around) rest
  | '|' :: rest => read? group.next around rest
  | ')' :: rest =>
      match around with
      | [] => none
      | outer :: around => read? (outer.add group.pattern) around rest
  | '^' :: rest => read? (group.add .start) around rest
  | '\\' :: 'b' :: rest => read? (group.add .boundary) around rest
  | '\\' :: c :: rest => if isEscapable c then read? (group.add (.char c)) around rest else none
  | '[' :: '0' :: '-' :: '9' :: ']' :: '+' :: rest => read? (group.add .digits) around rest
  | c :: rest => if specials.contains c then none else read? (group.add (.char c)) around rest

/-- Reads a whole pattern. -/
def parse? (text : String) : Option Pattern :=
  read? {} [] text.toList

/-- Blanking matches out puts nothing but blanks in. By induction on the text. -/
theorem mem_blankFrom {pattern : Pattern} {before : Option Char} {skip : Nat} {isFresh : Bool}
    {cs : List Char} {c : Char} (member : c ∈ pattern.blankFrom before skip isFresh cs)
    : c = ' ' ∨ c ∈ cs := by
  induction cs generalizing before skip isFresh with
  | nil =>
      rw [blankFrom] at member
      split at member
      · split at member
        · exact .inl (List.mem_singleton.mp member)
        · cases member
      · cases member
  | cons d rest ih =>
      have later {before : Option Char} {skip : Nat} {isFresh : Bool}
          (member : c ∈ pattern.blankFrom before skip isFresh rest)
          : c = ' ' ∨ c ∈ d :: rest :=
        (ih member).imp_right (List.mem_cons_of_mem d)
      have kept {before : Option Char} {skip : Nat} {isFresh : Bool}
          (member : c ∈ d :: pattern.blankFrom before skip isFresh rest)
          : c = ' ' ∨ c ∈ d :: rest := by
        rcases List.mem_cons.mp member with rfl | member
        · exact .inr List.mem_cons_self
        · exact later member
      unfold blankFrom at member
      split at member
      · exact later member
      · split at member
        · exact kept member
        · split at member
          · split at member
            · exact (List.mem_cons.mp member).elim .inl kept
            · exact kept member
          · exact (List.mem_cons.mp member).elim .inl later

/-- A text in which the pattern is not found stays as it is. By induction on the text. -/
theorem blankFrom_eq_self {pattern : Pattern} {before : Option Char} {cs : List Char}
    (isFresh : Bool)
    (missing : find? (fun before rest => pattern.end? { before, rest }) before cs = none)
    : pattern.blankFrom before 0 isFresh cs = cs := by
  induction cs generalizing before isFresh with
  | nil =>
      have ended : pattern.end? { before, rest := [] } = none := Option.map_eq_none_iff.mp missing
      rw [blankFrom, ended]
  | cons c rest ih =>
      rw [find?] at missing
      cases here : pattern.end? { before, rest := c :: rest } with
      | some after =>
          rw [here] at missing
          cases missing
      | none =>
          rw [here] at missing
          rw [blankFrom, here]
          exact congrArg (c :: ·) (ih true (Option.map_eq_none_iff.mp missing))

/-- The marker that is found where the pattern matches. -/
def marker (pattern : Pattern) : Marker where
  isIn := pattern.isIn
  blank := pattern.blank
  mem_blank := mem_blankFrom
  blank_eq_self missing :=
    blankFrom_eq_self true (Option.isNone_iff_eq_none.mp (Option.isSome_eq_false_iff.mp missing))

end Pattern

/-- The marker that a text describes as a pattern. -/
def Marker.parse? (text : String) : Option Marker :=
  (Pattern.parse? text).map Pattern.marker

end ApiBindings.Header
