/-! The character classes of XML 1.0 and 1.1. -/

namespace ApiBindings.Markup

/-- Blanks of the markup itself, which are fewer than those of Unicode. -/
def isSpace (c : Char) : Bool :=
  c == ' ' || c == '\t' || c == '\n' || c == '\r'

/-- Ranges of the characters that may start a name. -/
def nameStartRanges : List (Nat × Nat) :=
  [(0x3A, 0x3A), (0x41, 0x5A), (0x5F, 0x5F), (0x61, 0x7A), (0xC0, 0xD6), (0xD8, 0xF6),
    (0xF8, 0x2FF), (0x370, 0x37D), (0x37F, 0x1FFF), (0x200C, 0x200D), (0x2070, 0x218F),
    (0x2C00, 0x2FEF), (0x3001, 0xD7FF), (0xF900, 0xFDCF), (0xFDF0, 0xFFFD), (0x10000, 0xEFFFF)]

/-- Ranges of the characters that may only stand inside a name. -/
def nameInnerRanges : List (Nat × Nat) :=
  [(0x2D, 0x2E), (0x30, 0x39), (0xB7, 0xB7), (0x300, 0x36F), (0x203F, 0x2040)]

def inRanges (ranges : List (Nat × Nat)) (c : Char) : Bool :=
  ranges.any fun range => range.1 ≤ c.toNat && c.toNat ≤ range.2

/-- Whether a name may start with a character. The colon may, although a name that is put into a
namespace has it in its middle. -/
def isNameStart (c : Char) : Bool :=
  inRanges nameStartRanges c

def isNameChar (c : Char) : Bool :=
  isNameStart c || inRanges nameInnerRanges c

/-- Whether a document may hold a character at all. Version 1.1 allows control characters,
too. -/
def isAllowed (isVersion11 : Bool) (c : Char) : Bool :=
  let n := c.toNat
  if n < 0x20 then
    isSpace c || (isVersion11 && n != 0)
  else
    n != 0xFFFE && n != 0xFFFF

/-- Ranges of the characters that version 1.1 restricts. -/
def restrictedRanges : List (Nat × Nat) :=
  [(0x1, 0x8), (0xB, 0xC), (0xE, 0x1F), (0x7F, 0x84), (0x86, 0x9F)]

/-- Whether a character may stand in text and in the values of attributes as it is. The
restricted characters of version 1.1 only stand there as references. -/
def isPlain (isVersion11 : Bool) (c : Char) : Bool :=
  isAllowed isVersion11 c && !(isVersion11 && inRanges restrictedRanges c)

end ApiBindings.Markup
