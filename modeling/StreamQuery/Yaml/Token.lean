import StreamQuery.Yaml.Scalar
import StreamQuery.Yaml.Tag
set_option autoImplicit false

/-!
# Tokens of YAML text

Tokens for documents that hold one flat mapping, in lines or between braces; texts
with a sequence, or with a mapping inside another, are refused.  The key of an entry
is known as a key only by the colon after it: until then the scanner remembers where
a key may have started, on the same line and at most 1024 characters before.
-/

namespace StreamQuery.Yaml

/-- A token of YAML text. -/
inductive Token where
  | directive (d : Directive)
  | documentStart
  | documentEnd
  /-- The start of a mapping in lines. -/
  | blockStart
  | blockEnd
  /-- The start of a mapping between braces. -/
  | flowStart
  | flowEnd
  | comma
  | key
  | value
  | anchor (name : List Char)
  /-- The name of an anchor, whose node is meant. -/
  | reference (name : List Char)
  | tag (t : WrittenTag)
  | scalar (text : List Char) (style : Style)
  deriving DecidableEq, Repr, Inhabited

/-- A place where a key may start. -/
structure KeyStart where
  /-- The number of tokens before. -/
  tokens : Nat
  index : Nat
  line : Nat
  column : Nat
  /-- Whether nothing but a key may stand there. -/
  required : Bool
  deriving DecidableEq, Repr, Inhabited

/-- A scanner. -/
structure Scanner where
  place : Cursor
  /-- The tokens so far, the last one first. -/
  tokens : List Token
  /-- Inside braces. -/
  flow : Bool
  /-- The column of the mapping in lines that is open. -/
  block : Option Nat
  /-- Whether a key may start here. -/
  keyAllowed : Bool
  keyStart : Option KeyStart
  deriving DecidableEq, Repr, Inhabited

namespace Scanner

/-- A key has at most this many characters before its colon. -/
def keyWidth : Nat := 1024

/-- The scanner at the start of a text. -/
def start (text : List Char) : Scanner := ⟨.start text, [], false, none, true, none⟩

/-- The first column inside the mapping that is open. -/
def least (s : Scanner) : Nat :=
  match s.block with
  | some column => column + 1
  | none => 0

/-- Adds a token. -/
def emit (s : Scanner) (t : Token) : Scanner := { s with tokens := t :: s.tokens }

/-- Adds a token and goes on elsewhere. -/
def emitAt (s : Scanner) (t : Token) (place : Cursor) : Scanner :=
  { s with tokens := t :: s.tokens, place }

/-- Allows a key to start here, or does not. -/
def allowKey (s : Scanner) (allowed : Bool) : Scanner := { s with keyAllowed := allowed }

/-! ## Keys -/

/-- Gives up the key that may have started, unless it is required. -/
def dropKey (s : Scanner) : Option Scanner :=
  if s.keyStart.any (·.required) then none else some { s with keyStart := none }

/-- Remembers that a key may start here, if it may. -/
def noteKey (s : Scanner) : Option Scanner :=
  if s.keyAllowed then
    s.dropKey.map fun s =>
      let p := s.place
      { s with keyStart := some ⟨s.tokens.length, p.index, p.line, p.column,
        !s.flow && s.block == some p.column⟩ }
  else some s

/-- Gives up the key that may have started when it is on another line or too far away. -/
def dropStaleKey (s : Scanner) : Option Scanner :=
  match s.keyStart with
  | some k =>
    if k.line < s.place.line ∨ k.index + keyWidth < s.place.index then s.dropKey else some s
  | none => some s

/-! ## Indentation -/

/-- Closes the mapping in lines that is indented by more than a column. -/
def closeBlock (s : Scanner) (column : Nat) : Scanner :=
  if s.flow = false ∧ s.block.any (column < ·) then { s.emit .blockEnd with block := none } else s

/-- Closes the mapping in lines. -/
def closeAll (s : Scanner) : Scanner :=
  if s.flow = false ∧ s.block.isSome then { s.emit .blockEnd with block := none } else s

/-- Adds tokens behind the first `n`. -/
def insertAt (s : Scanner) (n : Nat) (ts : List Token) : Scanner :=
  let later := s.tokens.length - n
  { s with tokens := s.tokens.take later ++ ts.reverse ++ s.tokens.drop later }

/-- Adds the token of an entry that starts in a column behind the first `n`, and opens a mapping in
lines for it unless one is open in that column. -/
def insertEntry (s : Scanner) (column n : Nat) (ts : List Token) : Option Scanner :=
  if s.flow then some (s.insertAt n ts)
  else match s.block with
    | none => some { s.insertAt n (.blockStart :: ts) with block := some column }
    | some opened => if opened < column then none else some (s.insertAt n ts)

/-! ## Between tokens -/

/-- Goes to the next token, past blanks, comments and line breaks.  A byte order mark may stand at
the start of the text.  A tab is a blank only where no key may start.  Every step takes at least
one character, and `n` bounds their number. -/
def skipGap : Nat → Scanner → Scanner
  | 0, s => s
  | n + 1, s =>
    let p := s.place
    let p := if p.index = 0 ∧ p.rest.head? = some '\ufeff' then p.skip 1 else p
    let tabs := s.flow || !s.keyAllowed
    let p := (p.skipWhile fun c => c == ' ' || (tabs && c == '\t')).skipComment
    if p.rest.head?.any isBreak then
      skipGap n { s with place := p.takeBreak.2, keyAllowed := s.keyAllowed || !s.flow }
    else { s with place := p }

/-! ## Tokens by their first characters -/

/-- The mark of the start or the end of a document. -/
def documentMark (s : Scanner) (t : Token) : Option Scanner :=
  s.closeAll.dropKey.map fun s => (s.emitAt t (s.place.skip 3)).allowKey false

/-- A directive. -/
def directive (s : Scanner) : Option Scanner := do
  let s ← s.closeAll.dropKey
  let (d, place) ← takeDirective s.place
  return (s.emitAt (.directive d) place).allowKey false

/-- An opening brace, which starts the one mapping of a document. -/
def openBrace (s : Scanner) : Option Scanner :=
  if s.flow ∨ s.block.isSome then none
  else some { s.emitAt .flowStart (s.place.skip 1) with
    flow := true, keyAllowed := true, keyStart := none }

/-- A closing brace. -/
def closeBrace (s : Scanner) : Option Scanner :=
  s.dropKey.map fun s =>
    { s.emitAt .flowEnd (s.place.skip 1) with flow := false, keyAllowed := false }

/-- A comma. -/
def comma (s : Scanner) : Option Scanner :=
  s.dropKey.map fun s => (s.emitAt .comma (s.place.skip 1)).allowKey true

/-- A question mark, which announces a key. -/
def announceKey (s : Scanner) : Option Scanner :=
  if s.flow ∨ s.keyAllowed then do
    let s ← s.insertEntry s.place.column s.tokens.length [.key]
    let s ← s.dropKey
    return { s with place := s.place.skip 1, keyAllowed := !s.flow }
  else none

/-- A colon, which makes what may be a key one, and comes before the value. -/
def announceValue (s : Scanner) : Option Scanner :=
  match s.keyStart with
  | some k => do
    let s ← s.insertEntry k.column k.tokens [.key]
    return { s.emitAt .value (s.place.skip 1) with keyStart := none, keyAllowed := false }
  | none =>
    if s.flow ∨ s.keyAllowed then do
      let s ← s.insertEntry s.place.column s.tokens.length [.value]
      return { s with place := s.place.skip 1, keyAllowed := !s.flow }
    else none

/-- The token of a name after a mark. -/
def named (s : Scanner) (token : List Char → Token) : Option Scanner := do
  let s ← s.noteKey
  let name := (s.place.rest.drop 1).takeWhile isWordChar
  let next := s.place.skip (1 + name.length)
  if name ≠ [] ∧ (atGap next.rest ∨ next.rest.head?.any "?:,]\x7d%@\x60".toList.contains) then
    return (s.emitAt (token name) next).allowKey false
  else none

/-- A tag. -/
def tag (s : Scanner) : Option Scanner := do
  let s ← s.noteKey
  let (t, next) ← takeTag s.flow s.place
  return (s.emitAt (.tag t) next).allowKey false

/-- A block scalar. -/
def blockScalar (s : Scanner) (style : Style) : Option Scanner := do
  let s ← s.dropKey
  let (text, next) ← takeBlock (style == .folded) s.least s.place
  return (s.emitAt (.scalar text style) next).allowKey true

/-- A quoted scalar. -/
def quoted (s : Scanner) (quote : Char) : Option Scanner := do
  let s ← s.noteKey
  let (text, next) ← takeQuoted quote s.place
  return (s.emitAt (.scalar text .quoted) next).allowKey false

/-- A plain scalar.  A key may start after it if a line break comes before its end. -/
def plain (s : Scanner) : Option Scanner := do
  let s ← s.noteKey
  let (text, next, broken) ← takePlain s.flow s.least s.place
  return (s.emitAt (.scalar text .plain) next).allowKey broken

/-- The characters that cannot start a plain scalar, other than hyphens, question marks and
colons. -/
def isReserved (c : Char) : Bool := isFlowMark c || "#&*!|>'\"%@\x60".toList.contains c

/-- Whether a plain scalar starts with a character that has others after it. -/
def startsPlain (s : Scanner) (c : Char) (rest : List Char) : Bool :=
  if c == '-' then !atGap rest
  else if c == '?' || c == ':' then !s.flow && !atGap rest
  else !isReserved c && !isBlank c && !isBreak c

/-- Takes the token that starts with a character. -/
def takeToken (s : Scanner) (c : Char) (rest : List Char) : Option Scanner :=
  if s.place.column = 0 ∧ c = '%' then s.directive
  else if s.place.atMark '-' then s.documentMark .documentStart
  else if s.place.atMark '.' then s.documentMark .documentEnd
  else if c = '\x7b' then s.openBrace
  else if c = '\x7d' then s.closeBrace
  else if c = ',' then s.comma
  else if c = '?' ∧ (s.flow ∨ atGap rest) then s.announceKey
  else if c = ':' ∧ (s.flow ∨ atGap rest) then s.announceValue
  else if c = '*' then s.named .reference
  else if c = '&' then s.named .anchor
  else if c = '!' then s.tag
  else if c = '|' ∧ s.flow = false then s.blockScalar .literal
  else if c = '>' ∧ s.flow = false then s.blockScalar .folded
  else if c = '\'' ∨ c = '"' then s.quoted c
  else if s.startsPlain c rest then s.plain
  else none

/-- Takes all tokens.  Every step takes at least one character, and `n` bounds their number. -/
def takeTokens : Nat → Scanner → Option (List Token)
  | 0, _ => none
  | n + 1, s => do
    let s ← (skipGap (s.place.rest.length + 1) s).dropStaleKey
    match s.place.rest with
    | [] =>
      let s ← s.closeAll.dropKey
      return s.tokens.reverse
    | c :: rest => (s.closeBlock s.place.column).takeToken c rest >>= takeTokens n

end Scanner

/-- The tokens of a text. -/
def scan (text : List Char) : Option (List Token) :=
  if text.all isAllowed then Scanner.takeTokens (text.length + 1) (.start text) else none

end StreamQuery.Yaml
