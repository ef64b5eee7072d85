import ApiBindings.Markup.Char
import ApiBindings.Markup.Token

/-! Cutting a document into tokens, one character at a time.
A token is given away as soon as its last character is known, which may take one character more
than it has. Each token comes with the line that was reached when its reading began.
-/

namespace ApiBindings.Markup

/-- What is being cut. Modes that hold characters back are named for them. -/
inductive ScanMode where
  /-- Text and tags. -/
  | plain
  /-- Inside of a document type, outside of its declarations. -/
  | typed
  /-- After `<`. -/
  | angle
  /-- After `<!` and the characters seen since. -/
  | bang (seen : List Char)
  /-- After `/`. -/
  | slash
  /-- After `]` in text. -/
  | bracket
  /-- After `]]` in text. -/
  | brackets
  | comment
  | commentDash
  | commentDashes
  | data
  | dataBracket
  | dataBrackets
  | instruction
  /-- After `?` in an instruction. -/
  | question
  /-- Inside of a declaration of a document type. -/
  | declaration
  /-- Inside of a quoted text of such a declaration. -/
  | quoted (quote : Char)
  deriving DecidableEq, Repr

structure Scanner where
  mode : ScanMode := .plain
  /-- Whether markup leads back into a document type. -/
  isTyped : Bool := false
  /-- The line that has been reached. -/
  line : Nat := 1
  /-- The line that had been reached before the characters that are held back. -/
  start : Nat := 1
  deriving DecidableEq, Repr

namespace Scanner

/-- The tokens that a character completes, with the mode after it and whether markup then leads
back into a document type. -/
structure Cut where
  tokens : List Token
  mode : ScanMode
  isTyped : Bool
  deriving DecidableEq, Repr

/-- Puts a token in front of those of a cut. -/
def Cut.after (token : Token) (cut : Cut) : Cut :=
  { cut with tokens := token :: cut.tokens }

/-- Where markup leads back to. -/
def home (isTyped : Bool) : ScanMode :=
  if isTyped then .typed else .plain

/-- Reads a character of text or of a tag. -/
def cutPlain (isTyped : Bool) (c : Char) : Cut :=
  let gives (token : Token) : Cut := { tokens := [token], mode := .plain, isTyped }
  if c = '<' then { tokens := [], mode := .angle, isTyped }
  else if c = '/' then { tokens := [], mode := .slash, isTyped }
  else if c = ']' then { tokens := [], mode := .bracket, isTyped }
  else if c = '>' then gives .tagEnd
  else if c = '=' then gives .equals
  else if c = '"' then gives .quote
  else if c = '\x27' then gives .apostrophe
  else if c = '&' then gives .ampersand
  else if c = ';' then gives .semicolon
  else gives (.char c)

/-- Reads a character of a document type. The sign `>` ends it wherever it stands. -/
def cutTyped (c : Char) : Cut :=
  let gives (token : Token) : Cut := { tokens := [token], mode := .typed, isTyped := true }
  if c = '<' then { tokens := [], mode := .angle, isTyped := true }
  else if c = '>' then { tokens := [.tagEnd], mode := .plain, isTyped := false }
  else if c = '"' then gives .quote
  else if c = '\x27' then gives .apostrophe
  else if c = '&' then gives .ampersand
  else if c = ';' then gives .semicolon
  else gives (.char c)

def cutHome (isTyped : Bool) (c : Char) : Cut :=
  if isTyped then cutTyped c else cutPlain isTyped c

def cutComment (isTyped : Bool) (c : Char) : Cut :=
  if c = '-' then { tokens := [], mode := .commentDash, isTyped }
  else { tokens := [.char c], mode := .comment, isTyped }

def cutData (isTyped : Bool) (c : Char) : Cut :=
  if c = ']' then { tokens := [], mode := .dataBracket, isTyped }
  else { tokens := [.char c], mode := .data, isTyped }

def cutInstruction (isTyped : Bool) (c : Char) : Cut :=
  let gives (token : Token) : Cut := { tokens := [token], mode := .instruction, isTyped }
  if c = '?' then { tokens := [], mode := .question, isTyped }
  else if c = '<' then gives .tagStart
  else if c = '>' then gives .tagEnd
  else if c = '/' then gives .endTagStart
  else if c = '=' then gives .equals
  else if c = '"' then gives .quote
  else if c = '\x27' then gives .apostrophe
  else if c = '&' then gives .ampersand
  else if c = ';' then gives .semicolon
  else gives (.char c)

/-- What tells one kind of markup from another. -/
def cutAngle (isTyped : Bool) (c : Char) : Option Cut :=
  if c = '?' then some { tokens := [.instructionStart], mode := .instruction, isTyped }
  else if c = '/' then some { tokens := [.endTagStart], mode := home isTyped, isTyped }
  else if c = '!' then some { tokens := [], mode := .bang [], isTyped }
  else if isSpace c || isNameChar c then some ((cutHome isTyped c).after .tagStart)
  else none

/-- Reads what follows `<!`. The declarations of a document type only stand inside of it. -/
def cutBang (isTyped : Bool) (seen : List Char) (c : Char) : Option Cut :=
  let seen := seen ++ [c]
  if seen = "--".toList then some { tokens := [.commentStart], mode := .comment, isTyped }
  else if seen = "[CDATA[".toList then some { tokens := [.dataStart], mode := .data, isTyped }
  else if seen = "DOCTYPE".toList then
    some { tokens := [.typeStart], mode := .typed, isTyped := true }
  else if isTyped && (seen = ['E'] || seen = ['A'] || seen = ['N']) then
    some { tokens := [.declarationStart, .char c], mode := .declaration, isTyped }
  else if ["--", "[CDATA[", "DOCTYPE"].any fun sign => seen.isPrefixOf sign.toList then
    some { tokens := [], mode := .bang seen, isTyped }
  else
    none

def cutDeclaration (isTyped : Bool) (c : Char) : Option Cut :=
  let gives (token : Token) (mode : ScanMode) : Cut := { tokens := [token], mode, isTyped }
  if c = '<' then none
  else if c = '>' then some (gives .tagEnd (home isTyped))
  else if c = '"' then some (gives .quote (.quoted c))
  else if c = '\x27' then some (gives .apostrophe (.quoted c))
  else if c = '&' then some (gives .ampersand .declaration)
  else if c = ';' then some (gives .semicolon .declaration)
  else some (gives (.char c) .declaration)

/-- Reads a character in a mode. There is no cut where a sign is begun that is none. -/
def cut? (isTyped : Bool) (mode : ScanMode) (c : Char) : Option Cut :=
  match mode with
  | .plain => some (cutPlain isTyped c)
  | .typed => some (cutTyped c)
  | .angle => cutAngle isTyped c
  | .bang seen => cutBang isTyped seen c
  | .slash =>
      if c = '>' then some { tokens := [.emptyTagEnd], mode := home isTyped, isTyped }
      else some ((cutHome isTyped c).after (.char '/'))
  | .bracket =>
      if c = ']' then some { tokens := [], mode := .brackets, isTyped }
      else some ((cutPlain isTyped c).after (.char ']'))
  | .brackets =>
      if c = '>' then some { tokens := [.dataEnd], mode := home isTyped, isTyped }
      else if c = ']' then some { tokens := [.char ']'], mode := .brackets, isTyped }
      else some (((cutPlain isTyped c).after (.char ']')).after (.char ']'))
  | .comment => some (cutComment isTyped c)
  | .commentDash =>
      if c = '-' then some { tokens := [], mode := .commentDashes, isTyped }
      else some ((cutComment isTyped c).after (.char '-'))
  | .commentDashes =>
      if c = '>' then some { tokens := [.commentEnd], mode := home isTyped, isTyped } else none
  | .data => some (cutData isTyped c)
  | .dataBracket =>
      if c = ']' then some { tokens := [], mode := .dataBrackets, isTyped }
      else some ((cutData isTyped c).after (.char ']'))
  | .dataBrackets =>
      if c = '>' then some { tokens := [.dataEnd], mode := .plain, isTyped }
      else if c = ']' then some { tokens := [.char ']'], mode := .dataBrackets, isTyped }
      else some (((cutData isTyped c).after (.char ']')).after (.char ']'))
  | .instruction => some (cutInstruction isTyped c)
  | .question =>
      if c = '>' then some { tokens := [.instructionEnd], mode := home isTyped, isTyped }
      else some ((cutInstruction isTyped c).after (.char '?'))
  | .declaration => cutDeclaration isTyped c
  | .quoted quote =>
      if c = quote then
        some {
          tokens := [if c = '"' then .quote else .apostrophe]
          mode := .declaration
          isTyped
        }
      else
        some { tokens := [.char c], mode := .quoted quote, isTyped }

/-- Whether a mode holds characters back. -/
def holds : ScanMode → Bool
  | .angle | .bang _ | .slash | .bracket | .brackets | .commentDash | .commentDashes
  | .dataBracket | .dataBrackets | .question => true
  | _ => false

/-- The line that the token at hand begins on. -/
def tokenLine (scanner : Scanner) : Nat :=
  if holds scanner.mode then scanner.start else scanner.line

/-- The lines of tokens: all but the first begin with the character that was read last. -/
def withLines (first later : Nat) : List Token → List (Nat × Token)
  | [] => []
  | token :: rest => (first, token) :: rest.map fun token => (later, token)

/-- Reads one character. Line breaks in the text of an entity do not count. -/
def step? (scanner : Scanner) (counts : Bool) (c : Char)
    : Option (Scanner × List (Nat × Token)) :=
  (cut? scanner.isTyped scanner.mode c).map fun cut =>
    let first := scanner.tokenLine
    let later := if counts && c = '\n' then scanner.line + 1 else scanner.line
    ({
        mode := cut.mode
        isTyped := cut.isTyped
        line := later
        start := if cut.tokens.isEmpty then first else later
      },
      withLines first later cut.tokens)

end Scanner

end ApiBindings.Markup
