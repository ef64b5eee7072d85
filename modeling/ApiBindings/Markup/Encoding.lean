/-! How the characters of a document are encoded.
Texts come in Unicode, so an encoding that a document names tells how the bytes of every later
character are to be understood instead.
-/

namespace ApiBindings.Markup

inductive Encoding where
  | unicode
  | latin1
  | ascii
  /-- An encoding in units of two bytes, which no text that could be read so far is in. -/
  | doubled
  deriving DecidableEq, Repr

namespace Encoding

/-- The labels of the encodings, in the order of preference. -/
def labels : List (String × Encoding) :=
  [("utf-8", unicode), ("utf8", unicode), ("iso-8859-1", latin1), ("latin1", latin1),
    ("utf-16", doubled), ("utf16", doubled), ("ascii", ascii), ("us-ascii", ascii)]

/-- Whether two labels agree as far as both of them go, no matter the case of the second. -/
def agree (label other : String) : Bool :=
  (label.toList.zip other.toList).all fun (a, b) => a == b.toLower

/-- The first encoding one of whose labels agrees with a text. -/
def ofLabel? (text : String) : Option Encoding :=
  (labels.find? fun entry => agree entry.1 text).map Prod.snd

/-- The encoding that a document names, if it can be so. A document that starts with a byte order
mark has told its encoding already. -/
def named? (isMarked : Bool) (text : String) : Option Encoding :=
  match ofLabel? text with
  | some .unicode => some .unicode
  | some .doubled | none => none
  | some other => if isMarked then none else some other

/-- The characters that the bytes of one character stand for. -/
def decode? (encoding : Encoding) (c : Char) : Option (List Char) :=
  if c.toNat < 0x80 then
    some [c]
  else
    match encoding with
    | unicode => some [c]
    | latin1 => some ((String.singleton c).toUTF8.toList.map fun byte => Char.ofNat byte.toNat)
    | ascii | doubled => none

end Encoding

end ApiBindings.Markup
