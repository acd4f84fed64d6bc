import StreamQuery.Json.Text
set_option autoImplicit false

/-!
# Tokens of JSON

The bytes of JSON are a row of tokens, with blanks allowed between them, and
writing puts none.  Scanning runs one machine over the bytes.  A number and a
string are kept as they were written: whether a number is in range and what text
stands between two quotes is asked only of those that somebody reads.
-/

namespace StreamQuery.Json

/-- A token of JSON. -/
inductive Token where
  | openBrace
  | closeBrace
  | openBracket
  | closeBracket
  | colon
  | comma
  | null
  | boolean (b : Bool)
  | number (lexeme : List Char)
  /-- What stands between two quotes. -/
  | string (lexeme : Bytes)
  deriving DecidableEq, Repr, Inhabited

/-! ## Writing -/

/-- The byte of a quote. -/
def quote : UInt8 := 0x22

/-- The bytes of ASCII characters. -/
def asciiBytes (cs : List Char) : Bytes := cs.map Char.toUInt8

/-- The bytes of a token. -/
def Token.bytes : Token → Bytes
  | openBrace => asciiBytes ['\x7b']
  | closeBrace => asciiBytes ['\x7d']
  | openBracket => asciiBytes ['[']
  | closeBracket => asciiBytes [']']
  | colon => asciiBytes [':']
  | comma => asciiBytes [',']
  | null => asciiBytes ['n', 'u', 'l', 'l']
  | boolean true => asciiBytes ['t', 'r', 'u', 'e']
  | boolean false => asciiBytes ['f', 'a', 'l', 's', 'e']
  | number lexeme => asciiBytes lexeme
  | string lexeme => quote :: lexeme ++ [quote]

/-! ## Lexemes of numbers -/

/-- One or more digits, and nothing else. -/
def isDigits (cs : List Char) : Bool := !cs.isEmpty && cs.all Char.isDigit

/-- An exponent or nothing. -/
def isExponentPart : List Char → Bool
  | [] => true
  | c :: rest =>
    (c == 'e' || c == 'E') && isDigits (match rest with
      | '+' :: ds => ds
      | '-' :: ds => ds
      | ds => ds)

/-- A point with decimal places, or nothing, and then perhaps an exponent. -/
def isFractionPart : List Char → Bool
  | '.' :: rest =>
    !(rest.takeWhile Char.isDigit).isEmpty && isExponentPart (rest.dropWhile Char.isDigit)
  | rest => isExponentPart rest

/-- An unsigned number: digits without a needless zero in front, and perhaps more. -/
def isUnsignedNumber (cs : List Char) : Bool :=
  match cs.takeWhile Char.isDigit with
  | [] => false
  | ['0'] => isFractionPart (cs.dropWhile Char.isDigit)
  | '0' :: _ => false
  | _ => isFractionPart (cs.dropWhile Char.isDigit)

/-- The lexemes of numbers. -/
def isNumber : List Char → Bool
  | '-' :: rest => isUnsignedNumber rest
  | cs => isUnsignedNumber cs

/-! ## Scanning -/

/-- Where the scanner stands.  What was taken so far of a token is held in reverse. -/
inductive Mode where
  | between
  | word (letters : List Char)
  | number (chars : List Char)
  | quoted (bytes : Bytes)
  /-- After a backslash. -/
  | escape (bytes : Bytes)
  /-- Before some more digits of a code. -/
  | code (bytes : Bytes) (more : Nat)
  deriving DecidableEq, Repr, Inhabited

/-- A scanner: the tokens so far, the last one first, and where it stands. -/
structure Scanner where
  tokens : List Token
  mode : Mode
  deriving Repr, Inhabited

/-- The blanks of JSON. -/
def isSpace (c : Char) : Bool := c == ' ' || c == '\n' || c == '\t' || c == '\r'

/-- The characters that a number may hold. -/
def isNumberChar (c : Char) : Bool :=
  c.isDigit || c == '-' || c == '+' || c == '.' || c == 'e' || c == 'E'

/-- The token of a word. -/
def wordToken? : List Char → Option Token
  | ['n', 'u', 'l', 'l'] => some .null
  | ['t', 'r', 'u', 'e'] => some (.boolean true)
  | ['f', 'a', 'l', 's', 'e'] => some (.boolean false)
  | _ => none

namespace Scanner

/-- Goes on in a mode. -/
def enter (s : Scanner) (mode : Mode) : Scanner := { s with mode }

/-- Completes a token. -/
def emit (s : Scanner) (t : Token) : Scanner := ⟨t :: s.tokens, .between⟩

/-- Takes a character outside all tokens. -/
def startToken (s : Scanner) (c : Char) : Option Scanner :=
  if isSpace c then some (s.enter .between)
  else if c = '\x7b' then some (s.emit .openBrace)
  else if c = '\x7d' then some (s.emit .closeBrace)
  else if c = '[' then some (s.emit .openBracket)
  else if c = ']' then some (s.emit .closeBracket)
  else if c = ':' then some (s.emit .colon)
  else if c = ',' then some (s.emit .comma)
  else if c = '"' then some (s.enter (.quoted []))
  else if c = '-' ∨ c.isDigit then some (s.enter (.number [c]))
  else if c.isLower then some (s.enter (.word [c]))
  else none

/-- Completes a word. -/
def endWord (s : Scanner) (letters : List Char) : Option Scanner :=
  (wordToken? letters.reverse).map s.emit

/-- Completes a number. -/
def endNumber (s : Scanner) (chars : List Char) : Option Scanner :=
  if isNumber chars.reverse then some (s.emit (.number chars.reverse)) else none

/-- Takes a byte between quotes: any but the control characters. -/
def quotedStep (s : Scanner) (bytes : Bytes) (b : UInt8) : Option Scanner :=
  if b = quote then some (s.emit (.string bytes.reverse))
  else if b = backslash then some (s.enter (.escape (b :: bytes)))
  else if b < 0x20 then none
  else some (s.enter (.quoted (b :: bytes)))

/-- Takes the byte after a backslash, which must announce an escape. -/
def escapeStep (s : Scanner) (bytes : Bytes) (b : UInt8) : Option Scanner :=
  if charOf b = 'u' then some (s.enter (.code (b :: bytes) 4))
  else if (ofEscapeLetter? (charOf b)).isSome then some (s.enter (.quoted (b :: bytes)))
  else none

/-- Takes a digit of a code. -/
def codeStep (s : Scanner) (bytes : Bytes) (more : Nat) (b : UInt8) : Option Scanner :=
  if (Numeric.hexValue? (charOf b)).isSome then
    some (s.enter (if more ≤ 1 then .quoted (b :: bytes) else .code (b :: bytes) (more - 1)))
  else none

/-- Takes one byte. -/
def step (s : Scanner) (b : UInt8) : Option Scanner :=
  let c := charOf b
  match s.mode with
  | .between => s.startToken c
  | .word letters =>
    if c.isLower then some (s.enter (.word (c :: letters)))
    else (s.endWord letters).bind (·.startToken c)
  | .number chars =>
    if isNumberChar c then some (s.enter (.number (c :: chars)))
    else (s.endNumber chars).bind (·.startToken c)
  | .quoted bytes => s.quotedStep bytes b
  | .escape bytes => s.escapeStep bytes b
  | .code bytes more => s.codeStep bytes more b

/-- Completes what stands at the end. -/
def finish (s : Scanner) : Option (List Token) :=
  match s.mode with
  | .between => some s.tokens.reverse
  | .word letters => (s.endWord letters).map fun s => s.tokens.reverse
  | .number chars => (s.endNumber chars).map fun s => s.tokens.reverse
  | _ => none

end Scanner

/-- The tokens of a byte string. -/
def scan (bs : Bytes) : Option (List Token) :=
  (bs.foldlM Scanner.step ⟨[], .between⟩).bind Scanner.finish

end StreamQuery.Json
