set_option autoImplicit false

/-!
# Places in a text

The characters of YAML text by class, and a cursor that knows what follows it and how
far it has come.  A line ends at a line feed, a carriage return, both together, or
one of the three line breaks beyond ASCII.
-/

namespace StreamQuery.Yaml

/-! ## Characters -/

/-- The characters a text may hold: no control characters but tab and line breaks, and no
noncharacters at the end of the first plane. -/
def isAllowed (c : Char) : Bool :=
  let n := c.toNat
  n == 0x09 || n == 0x0A || n == 0x0D || (0x20 ≤ n && n ≤ 0x7E) || n == 0x85
    || (0xA0 ≤ n && n ≤ 0xFFFD) || 0x10000 ≤ n

/-- Blanks within a line. -/
def isBlank (c : Char) : Bool := c == ' ' || c == '\t'

/-- Line breaks. -/
def isBreak (c : Char) : Bool :=
  c == '\n' || c == '\r' || c == '\u0085' || c == '\u2028' || c == '\u2029'

/-- The characters of names of anchors, handles and directives. -/
def isWordChar (c : Char) : Bool := c.isAlphanum || c == '_' || c == '-'

/-- The characters that structure collections between brackets. -/
def isFlowMark (c : Char) : Bool :=
  c == ',' || c == '[' || c == ']' || c == '\x7b' || c == '\x7d'

/-- What a line break reads as: a line feed, unless it separates lines or paragraphs. -/
def breakText (c : Char) : List Char :=
  if c == '\u2028' || c == '\u2029' then [c] else ['\n']

/-- Whether a text starts with a line break or is at its end. -/
def atLineEnd : List Char → Bool
  | [] => true
  | c :: _ => isBreak c

/-- Whether a text starts with a blank or a line break or is at its end. -/
def atGap : List Char → Bool
  | [] => true
  | c :: _ => isBlank c || isBreak c

/-! ## Cursors -/

/-- A place in a text. -/
structure Cursor where
  /-- What follows. -/
  rest : List Char
  /-- The number of characters before. -/
  index : Nat
  /-- The number of lines before. -/
  line : Nat
  /-- The number of characters before on the line. -/
  column : Nat
  deriving DecidableEq, Repr, Inhabited

namespace Cursor

/-- The start of a text. -/
def start (text : List Char) : Cursor := ⟨text, 0, 0, 0⟩

/-- The place some characters further on the line. -/
def skip (p : Cursor) (n : Nat) : Cursor := ⟨p.rest.drop n, p.index + n, p.line, p.column + n⟩

/-- The place after the characters of a class, none of which may be a line break. -/
def skipWhile (p : Cursor) (test : Char → Bool) : Cursor :=
  p.skip (p.rest.takeWhile test).length

/-- The place at the end of the line. -/
def skipToLineEnd (p : Cursor) : Cursor := p.skipWhile fun c => !isBreak c

/-- The place after a line break, and what the break reads as; the same place where there is
none. -/
def takeBreak (p : Cursor) : List Char × Cursor :=
  match p.rest with
  | '\r' :: '\n' :: rest => (['\n'], ⟨rest, p.index + 2, p.line + 1, 0⟩)
  | c :: rest =>
    if isBreak c then (breakText c, ⟨rest, p.index + 1, p.line + 1, 0⟩) else ([], p)
  | [] => ([], p)

/-- The place after a comment, if one starts here. -/
def skipComment (p : Cursor) : Cursor :=
  if p.rest.head? = some '#' then p.skipToLineEnd else p

/-- The place after blanks, a comment and a line break; absent when anything else is on the
line. -/
def endLine? (p : Cursor) : Option Cursor :=
  let q := (p.skipWhile isBlank).skipComment
  if atLineEnd q.rest then some q.takeBreak.2 else none

/-- Whether a mark of three characters stands alone at the start of a line. -/
def atMark (p : Cursor) (mark : Char) : Bool :=
  p.column == 0 && p.rest.take 3 == [mark, mark, mark] && atGap (p.rest.drop 3)

/-- Whether the line marks the start or the end of a document. -/
def atDocumentMark (p : Cursor) : Bool := p.atMark '-' || p.atMark '.'

end Cursor

end StreamQuery.Yaml
