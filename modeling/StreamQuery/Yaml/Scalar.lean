import StreamQuery.Numeric.IntegerText
import StreamQuery.Yaml.Cursor
set_option autoImplicit false

/-!
# Scalars of YAML text

A scalar is plain, quoted, or a block of lines.  In plain and quoted scalars a single
line break reads as a space, and of more breaks in a row the first is dropped.
Blocks keep their line breaks, or fold them in the same way between lines that do
not start with a blank.
-/

namespace StreamQuery.Yaml

/-- How a scalar was written. -/
inductive Style where
  | plain
  | quoted
  | literal
  | folded
  deriving DecidableEq, Repr, Inhabited

/-! ## Gaps inside a scalar -/

/-- The blanks and line breaks between two words of a scalar. -/
structure Gap where
  /-- The blanks before the first line break. -/
  blanks : List Char
  /-- Whether there was a line break. -/
  broken : Bool
  /-- What the first line break reads as; nothing when it was escaped. -/
  first : List Char
  /-- What the other line breaks read as. -/
  others : List Char
  deriving DecidableEq, Repr, Inhabited

namespace Gap

/-- Nothing. -/
def none : Gap := ⟨[], false, [], []⟩

/-- An escaped line break. -/
def escaped : Gap := ⟨[], true, [], []⟩

/-- Adds a line break. -/
def addBreak (g : Gap) (text : List Char) : Gap :=
  if g.broken then { g with others := g.others ++ text } else ⟨[], true, text, []⟩

/-- Adds a blank, which counts only before the first line break. -/
def addBlank (g : Gap) (c : Char) : Gap :=
  if g.broken then g else { g with blanks := g.blanks ++ [c] }

/-- What a gap reads as. -/
def text (g : Gap) : List Char :=
  if g.broken then
    if g.first = ['\n'] then (if g.others = [] then [' '] else g.others)
    else g.first ++ g.others
  else g.blanks

/-- Takes the blanks and line breaks at the front of a text into a gap.  After a line break no tab
may stand before the column `least`. -/
def takeFrom (least : Nat) (g : Gap) (index line column : Nat) :
    List Char → Option (Gap × Cursor)
  | '\r' :: '\n' :: rest => takeFrom least (g.addBreak ['\n']) (index + 2) (line + 1) 0 rest
  | c :: rest =>
    if isBlank c then
      if g.broken ∧ column < least ∧ c = '\t' then Option.none
      else takeFrom least (g.addBlank c) (index + 1) line (column + 1) rest
    else if isBreak c then takeFrom least (g.addBreak (breakText c)) (index + 1) (line + 1) 0 rest
    else some (g, ⟨c :: rest, index, line, column⟩)
  | [] => some (g, ⟨[], index, line, column⟩)

/-- Takes the blanks and line breaks at a place. -/
def take (least : Nat) (g : Gap) (p : Cursor) : Option (Gap × Cursor) :=
  takeFrom least g p.index p.line p.column p.rest

end Gap

/-! ## Plain scalars -/

/-- The characters at the front of a text that belong to one word of a plain scalar.  Between
braces a colon may not stand before a character that structures them. -/
def plainWord (flow : Bool) : List Char → Option (List Char)
  | [] => some []
  | c :: rest =>
    if isBlank c || isBreak c then some []
    else if flow && c == ':' && rest.head?.any (fun d => isFlowMark d || d == '?') then none
    else if (c == ':' && atGap rest) || (flow && isFlowMark c) then some []
    else (plainWord flow rest).map (c :: ·)

/-- The rest of a plain scalar after a gap: its text, where it ends, and whether a line break comes
before that end.  Every step takes at least one character, and `n` bounds their number. -/
def takePlainWords (flow : Bool) (least : Nat) :
    Nat → Gap → Cursor → Option (List Char × Cursor × Bool)
  | 0, _, _ => none
  | n + 1, gap, p =>
    if p.atDocumentMark ∨ p.rest.head? = some '#' then some ([], p, gap.broken)
    else do
      let word ← plainWord flow p.rest
      let q := p.skip word.length
      let (text, gap) := if word = [] then ([], gap) else (gap.text ++ word, Gap.none)
      if atGap q.rest ∧ q.rest ≠ [] then
        let (gap, q) ← gap.take least q
        if flow = false ∧ q.column < least then return (text, q, gap.broken)
        let (more, q, broken) ← takePlainWords flow least n gap q
        return (text ++ more, q, broken)
      else return (text, q, gap.broken)

/-- The plain scalar at a place: its text, where it ends, and whether a line break comes before that
end.  Its lines after the first have at least `least` characters before them. -/
def takePlain (flow : Bool) (least : Nat) (p : Cursor) : Option (List Char × Cursor × Bool) :=
  takePlainWords flow least (p.rest.length + 1) Gap.none p

/-! ## Quoted scalars -/

/-- The word of a quoted scalar at the front of a text. -/
structure QuotedWord where
  /-- What the word reads as. -/
  text : List Char
  /-- The number of characters that it was written with. -/
  width : Nat
  /-- Whether an escaped line break follows. -/
  beforeEscapedBreak : Bool
  deriving DecidableEq, Repr, Inhabited

namespace QuotedWord

/-- An empty word. -/
def empty : QuotedWord := ⟨[], 0, false⟩

/-- Puts a character in front that was written with some characters. -/
def cons (c : Char) (width : Nat) (w : QuotedWord) : QuotedWord :=
  ⟨c :: w.text, width + w.width, w.beforeEscapedBreak⟩

end QuotedWord

/-- The word of a scalar in single quotes, where a quote is written twice. -/
def singleQuotedWord : List Char → QuotedWord
  | [] => .empty
  | '\'' :: '\'' :: rest => (singleQuotedWord rest).cons '\'' 2
  | c :: rest =>
    if c == '\'' || isBlank c || isBreak c then .empty else (singleQuotedWord rest).cons c 1

/-- The character of a short escape. -/
def escapedChar? : Char → Option Char
  | '0' => some '\x00'
  | 'a' => some '\x07'
  | 'b' => some '\x08'
  | 't' => some '\t'
  | '\t' => some '\t'
  | 'n' => some '\n'
  | 'v' => some '\x0b'
  | 'f' => some '\x0c'
  | 'r' => some '\r'
  | 'e' => some '\x1b'
  | ' ' => some ' '
  | '"' => some '"'
  | '/' => some '/'
  | '\\' => some '\\'
  | 'N' => some '\u0085'
  | '_' => some '\u00a0'
  | 'L' => some '\u2028'
  | 'P' => some '\u2029'
  | _ => none

/-- The character of a code in hexadecimal digits. -/
def codeChar? (digits : List Char) : Option Char :=
  (Numeric.readRadix? 16 digits).bind fun n =>
    if n < 0xD800 ∨ (0xDFFF < n ∧ n ≤ 0x10FFFF) then some (Char.ofNat n) else none

/-- The word of a scalar in double quotes, where a backslash escapes. -/
def doubleQuotedWord : List Char → Option QuotedWord
  | [] => some .empty
  | '\\' :: 'x' :: a :: b :: rest => do
    let c ← codeChar? [a, b]
    (doubleQuotedWord rest).map (·.cons c 4)
  | '\\' :: 'u' :: a :: b :: c :: d :: rest => do
    let c ← codeChar? [a, b, c, d]
    (doubleQuotedWord rest).map (·.cons c 6)
  | '\\' :: 'U' :: a :: b :: c :: d :: e :: f :: g :: h :: rest => do
    let c ← codeChar? [a, b, c, d, e, f, g, h]
    (doubleQuotedWord rest).map (·.cons c 10)
  | '\\' :: c :: rest =>
    if isBreak c then some ⟨[], 0, true⟩
    else do
      let c ← escapedChar? c
      (doubleQuotedWord rest).map (·.cons c 2)
  | c :: rest =>
    if c == '\\' then none
    else if c == '"' || isBlank c || isBreak c then some .empty
    else (doubleQuotedWord rest).map (·.cons c 1)

/-- The rest of a quoted scalar up to its closing quote.  No line of it may look like the mark of a
document.  Every step takes at least one character, and `n` bounds their number. -/
def takeQuotedWords (quote : Char) : Nat → Cursor → Option (List Char × Cursor)
  | 0, _ => none
  | n + 1, p =>
    if p.atDocumentMark ∨ p.rest = [] then none
    else do
      let word ← if quote = '\'' then some (singleQuotedWord p.rest) else doubleQuotedWord p.rest
      let q := p.skip word.width
      let (gap, q) := if word.beforeEscapedBreak then (Gap.escaped, (q.skip 1).takeBreak.2)
        else (Gap.none, q)
      if q.rest.head? = some quote then return (word.text, q.skip 1)
      let (gap, q) ← gap.take 0 q
      let (more, q) ← takeQuotedWords quote n q
      return (word.text ++ gap.text ++ more, q)

/-- The quoted scalar at a place, and where it ends. -/
def takeQuoted (quote : Char) (p : Cursor) : Option (List Char × Cursor) :=
  takeQuotedWords quote (p.rest.length + 1) (p.skip 1)

/-! ## Blocks -/

/-- What becomes of the line breaks at the end of a block. -/
inductive Chomping where
  | strip
  | clip
  | keep
  deriving DecidableEq, Repr, Inhabited

/-- The sign of a way to chomp. -/
def chomping? : Char → Option Chomping
  | '-' => some .strip
  | '+' => some .keep
  | _ => none

/-- A digit that says how far a block is indented. -/
def indentDigit? (c : Char) : Option Nat :=
  if '1' ≤ c ∧ c ≤ '9' then some (c.toNat - '0'.toNat) else none

/-- The signs at the start of a block, in either order: how it is chomped, how far it is indented
(zero when that is left open), and their number.  A needless sign is left for what follows, which
refuses it. -/
def blockSigns (cs : List Char) : Chomping × Nat × Nat :=
  match cs.head?.bind chomping?, cs.head?.bind indentDigit? with
  | some chomping, _ =>
    match (cs.drop 1).head?.bind indentDigit? with
    | some indent => (chomping, indent, 2)
    | none => (chomping, 0, 1)
  | none, some indent =>
    match (cs.drop 1).head?.bind chomping? with
    | some chomping => (chomping, indent, 2)
    | none => (.clip, indent, 1)
  | none, none => (.clip, 0, 0)

/-- What stands between two lines of a block. -/
structure BlankLines where
  /-- What the line breaks read as. -/
  breaks : List Char
  /-- The most blanks on a line. -/
  widest : Nat
  /-- Where the next line starts. -/
  next : Cursor
  deriving DecidableEq, Repr, Inhabited

/-- Takes blank lines and the indentation of the line after them, which is `indent` wide, or as wide
as can be when that is zero; no tab may stand in an indentation. -/
def takeBlankLines (indent : Nat) (breaks : List Char) (widest index line column : Nat) :
    List Char → Option BlankLines
  | '\r' :: '\n' :: rest =>
    takeBlankLines indent (breaks ++ ['\n']) (max widest column) (index + 2) (line + 1) 0 rest
  | c :: rest =>
    if (indent = 0 ∨ column < indent) ∧ c = ' ' then
      takeBlankLines indent breaks widest (index + 1) line (column + 1) rest
    else if (indent = 0 ∨ column < indent) ∧ c = '\t' then none
    else if isBreak c then
      takeBlankLines indent (breaks ++ breakText c) (max widest column) (index + 1) (line + 1) 0
        rest
    else some ⟨breaks, max widest column, ⟨c :: rest, index, line, column⟩⟩
  | [] => some ⟨breaks, max widest column, ⟨[], index, line, column⟩⟩

/-- Takes the blank lines at a place. -/
def blankLines (indent : Nat) (p : Cursor) : Option BlankLines :=
  takeBlankLines indent [] 0 p.index p.line p.column p.rest

/-- What two lines of a block are joined by: nothing but their line breaks, or a fold of them when
neither line starts with a blank. -/
def joinLines (folds : Bool) (first breaks : List Char) : List Char :=
  if folds ∧ first = ['\n'] then (if breaks = [] then [' '] else breaks) else first ++ breaks

/-- The lines of a block that are indented by `indent`, after a line that ended with the break
`first`, blank lines with the breaks `breaks`, and that started with a blank or not.  The answer has
the text, the breaks at the end and the place after them.  Every step takes at least one character,
and `n` bounds their number. -/
def takeBlockLines (folded : Bool) (indent : Nat) :
    Nat → Bool → List Char → List Char → Cursor →
    Option (List Char × List Char × List Char × Cursor)
  | 0, _, _, _, _ => none
  | n + 1, afterBlank, first, breaks, p =>
    if p.column = indent ∧ p.rest ≠ [] then do
      let startsBlank := p.rest.head?.any isBlank
      let content := p.rest.takeWhile fun c => !isBreak c
      let (next, q) := p.skipToLineEnd.takeBreak
      let between ← blankLines indent q
      let (more, last) ← takeBlockLines folded indent n startsBlank next between.breaks between.next
      let join := joinLines (folded && !afterBlank && !startsBlank) first breaks
      return (join ++ content ++ more, last)
    else some ([], first, breaks, p)

/-- The block at a place, and where it ends; lines around it are indented by less than `least`. -/
def takeBlock (folded : Bool) (least : Nat) (p : Cursor) : Option (List Char × Cursor) := do
  let p := p.skip 1
  let (chomping, signed, signs) := blockSigns p.rest
  let p ← (p.skip signs).endLine?
  let fixed := if signed = 0 then 0 else if least = 0 then signed else least - 1 + signed
  let before ← blankLines fixed p
  let indent := if fixed = 0 then max (max before.widest least) 1 else fixed
  let (text, first, breaks, p) ←
    takeBlockLines folded indent (p.rest.length + 1) false [] before.breaks before.next
  return match chomping with
    | .strip => (text, p)
    | .clip => (text ++ first, p)
    | .keep => (text ++ first ++ breaks, p)

end StreamQuery.Yaml
