/-! Blank characters, and the words and lines that lie between them.
Every text is read as its list of characters, and cutting never changes a character that it keeps.
-/

namespace ApiBindings.Text

/-- The white space characters of Unicode. -/
def isBlank (c : Char) : Bool :=
  let n := c.toNat
  n == 0x20 || (0x09 ≤ n && n ≤ 0x0D) || n == 0x85 || n == 0xA0 || n == 0x1680
    || (0x2000 ≤ n && n ≤ 0x200A) || n == 0x2028 || n == 0x2029 || n == 0x202F
    || n == 0x205F || n == 0x3000

def trimStart (cs : List Char) : List Char :=
  cs.dropWhile isBlank

def trimEnd (cs : List Char) : List Char :=
  (cs.reverse.dropWhile isBlank).reverse

/-- A text without the blanks at its two ends. -/
def trim (cs : List Char) : List Char :=
  trimEnd (trimStart cs)

/-- Puts one character in front of an already cut text. -/
def cutBefore (isCut : Char → Bool) (c : Char) (pieces : List (List Char))
    : List (List Char) :=
  if isCut c then
    [] :: pieces
  else
    match pieces with
    | [] => [[c]]
    | piece :: rest => (c :: piece) :: rest

/-- Cuts a text at every character that `isCut` accepts; the cuts themselves are dropped, so
there is one more piece than there are cuts. -/
def cut (isCut : Char → Bool) (cs : List Char) : List (List Char) :=
  cs.foldr (cutBefore isCut) [[]]

/-- The maximal runs of characters that are not blank. -/
def words (cs : List Char) : List (List Char) :=
  (cut isBlank cs).filter (fun word => !word.isEmpty)

def unwords (ws : List (List Char)) : List Char :=
  [' '].intercalate ws

/-- The words of a text with one space between any two of them. -/
def collapse (cs : List Char) : List Char :=
  unwords (words cs)

def isBreak (c : Char) : Bool :=
  c == '\n'

/-- Drops one carriage return from the end of a line. -/
def dropReturn (line : List Char) : List Char :=
  if line.getLast? == some '\r' then line.dropLast else line

/-- The lines of a text. A line ends at a line feed, which may follow a carriage return, or at
the end of the text; no empty line follows a final line feed. -/
def lines (cs : List Char) : List (List Char) :=
  let pieces := cut isBreak cs
  pieces.dropLast.map dropReturn ++ pieces.getLast?.toList.filter (fun line => !line.isEmpty)

/-- The number of line feeds in a text. -/
def breaks (cs : List Char) : Nat :=
  cs.count '\n'

end ApiBindings.Text
