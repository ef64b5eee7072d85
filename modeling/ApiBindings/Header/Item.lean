import ApiBindings.Text.Blank
import ApiBindings.Text.Word

/-! A header cut into its items: preprocessor directives, which take a line each, and statements,
which end at a semicolon outside of all braces.
-/

namespace ApiBindings.Header

open ApiBindings.Text

inductive Item where
  | directive (text : List Char)
  /-- A statement without its semicolon, and the line on which it starts. -/
  | statement (text : List Char) (line : Nat)
  deriving DecidableEq, Repr

/-- The words that start a declaration whose braces are part of it. Before any other start, a
pair of braces is the body of a function. -/
def bracedStarts : List (List Char) :=
  ["typedef".toList, "enum".toList, "struct".toList, "union".toList, "extern".toList]

def isBracedDeclaration (text : List Char) : Bool :=
  bracedStarts.any fun start => (strip? start (trimStart text)).isSome

/-- The statement that is being read and the items before it, both in reverse. -/
structure Cutter where
  statement : List Char := []
  line : Nat := 0
  depth : Nat := 0
  items : List Item := []
  deriving DecidableEq, Repr

namespace Cutter

/-- Takes a character into the statement, which starts on the line of its first character that
is not blank. -/
def take (cutter : Cutter) (line : Nat) (c : Char) : Cutter :=
  { cutter with
    line := if cutter.statement.all isBlank && !isBlank c then line else cutter.line
    statement := c :: cutter.statement }

def clear (cutter : Cutter) : Cutter :=
  { cutter with statement := [] }

/-- Reads one character of a line that is no directive. A brace that closes nothing is dropped,
and so is a function together with its body. -/
def read (line : Nat) (cutter : Cutter) (c : Char) : Cutter :=
  if c = '\x7b' then
    { cutter with depth := cutter.depth + 1 }.take line c
  else if c = '\x7d' then
    if cutter.depth = 0 then
      cutter
    else
      let outer := { cutter with depth := cutter.depth - 1 }
      if outer.depth = 0 && !isBracedDeclaration cutter.statement.reverse then
        outer.clear
      else
        outer.take line c
  else if c = ';' ∧ cutter.depth = 0 then
    { cutter with
      items := .statement cutter.statement.reverse cutter.line :: cutter.items }.clear
  else
    cutter.take line c

/-- Reads a line. A directive is an item of its own, wherever it stands. -/
def readLine (cutter : Cutter) (numbered : Nat × List Char) : Cutter :=
  let text := trim numbered.2
  if text.head? = some '#' then
    { cutter with items := .directive text :: cutter.items }
  else
    let read := numbered.2.foldl (read numbered.1) cutter
    { read with statement := '\n' :: read.statement }

end Cutter

/-- The lines of a text with their numbers. -/
def numberedLines (cs : List Char) : List (Nat × List Char) :=
  (lines cs).mapIdx fun index line => (index + 1, line)

/-- The items of a text, in their order. A statement that is never ended is none. -/
def items (cs : List Char) : List Item :=
  ((numberedLines cs).foldl Cutter.readLine {}).items.reverse

end ApiBindings.Header
