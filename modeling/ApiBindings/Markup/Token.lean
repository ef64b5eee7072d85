/-! The signs that the markup of a document is made of. -/

namespace ApiBindings.Markup

/-- One sign of markup, or one character that is none. -/
inductive Token where
  | char (c : Char)
  /-- The sign `<` in front of a name. -/
  | tagStart
  /-- The sign `</`. -/
  | endTagStart
  /-- The sign `>`. -/
  | tagEnd
  /-- The sign `/>`. -/
  | emptyTagEnd
  | equals
  | apostrophe
  | quote
  | ampersand
  | semicolon
  /-- The sign `<!--`. -/
  | commentStart
  /-- The sign `-->`. -/
  | commentEnd
  /-- The sign `<![CDATA[`. -/
  | dataStart
  /-- The sign `]]>`. -/
  | dataEnd
  /-- The sign `<?`. -/
  | instructionStart
  /-- The sign `?>`. -/
  | instructionEnd
  /-- The sign `<!DOCTYPE`. -/
  | typeStart
  /-- The sign `<!` in front of a declaration inside of a document type. -/
  | declarationStart
  deriving DecidableEq, Repr

/-- The characters that a sign is written with. -/
def Token.text : Token → List Char
  | char c => [c]
  | tagStart => ['<']
  | endTagStart => ['<', '/']
  | tagEnd => ['>']
  | emptyTagEnd => ['/', '>']
  | equals => ['=']
  | apostrophe => ['\x27']
  | quote => ['"']
  | ampersand => ['&']
  | semicolon => [';']
  | commentStart => "<!--".toList
  | commentEnd => "-->".toList
  | dataStart => "<![CDATA[".toList
  | dataEnd => "]]>".toList
  | instructionStart => ['<', '?']
  | instructionEnd => ['?', '>']
  | typeStart => "<!DOCTYPE".toList
  | declarationStart => ['<', '!']

end ApiBindings.Markup
