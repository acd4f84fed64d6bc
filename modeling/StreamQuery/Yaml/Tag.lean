import StreamQuery.Bytes.LittleEndian
import StreamQuery.Numeric.IntegerText
import StreamQuery.Yaml.Cursor
set_option autoImplicit false

/-!
# Tags of YAML text

A tag names the kind of a node.  It is written whole between angle brackets, or as a
handle that stands for the start of the tag, with the rest of it.  Percent signs
announce bytes, which make up whole characters by their leading bits; a zero byte
ends the text it stands in.
-/

namespace StreamQuery.Yaml

/-- A tag as it is written: its handle, empty for a whole tag, and the rest. -/
structure WrittenTag where
  handle : List Char
  rest : Bytes
  deriving DecidableEq, Repr, Inhabited

/-! ## Bytes of tags -/

/-- The byte of an ASCII character. -/
def byteOf (c : Char) : UInt8 := UInt8.ofNat c.toNat

/-- The number of bytes that a character has by its first byte. -/
def characterWidth? (b : UInt8) : Option Nat :=
  if b < 0x80 then some 1
  else if 0xC0 ≤ b ∧ b < 0xE0 then some 2
  else if 0xE0 ≤ b ∧ b < 0xF0 then some 3
  else if 0xF0 ≤ b ∧ b < 0xF8 then some 4
  else none

/-- Whether a byte continues a character. -/
def isContinuation (b : UInt8) : Bool := 0x80 ≤ b && b < 0xC0

/-- The byte that a percent sign and two digits announce at the front of a text. -/
def escapedByte? : List Char → Option UInt8
  | '%' :: a :: b :: _ => do
    let high ← Numeric.hexValue? a
    let low ← Numeric.hexValue? b
    return UInt8.ofNat (16 * high + low)
  | _ => none

/-- The bytes of a character that is written with percent signs. -/
def escapedCharacter? (cs : List Char) : Option Bytes := do
  let first ← escapedByte? cs
  let width ← characterWidth? first
  let others ← (List.range (width - 1)).mapM fun i =>
    (escapedByte? (cs.drop (3 * (i + 1)))).filter isContinuation
  return first :: others

/-- The characters that may stand in a tag beside letters, digits, underscores and hyphens; more of
them when it is whole. -/
def isTagMark (whole : Bool) (c : Char) : Bool :=
  ";/?:@&=+$.%!~*'()".toList.contains c || (whole && (c == ',' || c == '[' || c == ']'))

/-- The bytes of the part of a tag at a place, and where it ends.  Every step takes at least one
character, and `n` bounds their number. -/
def takeTagBytes (whole : Bool) : Nat → Cursor → Option (Bytes × Cursor)
  | 0, p => some ([], p)
  | n + 1, p =>
    match p.rest with
    | [] => some ([], p)
    | c :: _ =>
      if c = '%' then do
        let bytes ← escapedCharacter? p.rest
        let (more, q) ← takeTagBytes whole n (p.skip (3 * bytes.length))
        return (bytes ++ more, q)
      else if isWordChar c || isTagMark whole c then do
        let (more, q) ← takeTagBytes whole n (p.skip 1)
        return (byteOf c :: more, q)
      else some ([], p)

/-- A part of a tag that is not empty, and where it ends; a zero byte cuts it. -/
def takeTagPart (whole : Bool) (p : Cursor) : Option (Bytes × Cursor) := do
  let (bytes, q) ← takeTagBytes whole p.rest.length p
  if q.index = p.index then none else return (bytes.takeWhile (· != 0), q)

/-! ## Handles -/

/-- The handle at a place, which is an exclamation mark with or without a word and a second mark
after it, and where it ends.  A word without a second mark is the start of a tag. -/
def takeHandle (p : Cursor) : Option (List Char × Cursor) :=
  if p.rest.head? = some '!' then
    let word := (p.rest.drop 1).takeWhile isWordChar
    let q := p.skip (1 + word.length)
    if q.rest.head? = some '!' then some ('!' :: word ++ ['!'], q.skip 1)
    else some ('!' :: word, q)
  else none

/-- Whether a handle ends with a second exclamation mark. -/
def isFullHandle (handle : List Char) : Bool := 2 ≤ handle.length && handle.getLast? == some '!'

/-! ## Tags -/

/-- A tag between angle brackets, and where it ends. -/
def takeWholeTag (p : Cursor) : Option (WrittenTag × Cursor) := do
  let (bytes, q) ← takeTagPart true (p.skip 2)
  if q.rest.head? = some '>' then return (⟨[], bytes⟩, q.skip 1) else none

/-- A tag that starts with a handle, and where it ends; a lone exclamation mark is a whole tag. -/
def takeShortTag (p : Cursor) : Option (WrittenTag × Cursor) := do
  let (handle, q) ← takeHandle p
  if isFullHandle handle then
    let (bytes, q) ← takeTagPart false q
    return (⟨handle, bytes⟩, q)
  else
    let (bytes, q) ← takeTagBytes false q.rest.length q
    let bytes := ((handle.drop 1).map byteOf ++ bytes).takeWhile (· != 0)
    if bytes = [] then return (⟨[], [byteOf '!']⟩, q) else return (⟨['!'], bytes⟩, q)

/-- The tag at a place, and where it ends. -/
def takeTag (flow : Bool) (p : Cursor) : Option (WrittenTag × Cursor) := do
  let (t, q) ← if (p.rest.drop 1).head? = some '<' then takeWholeTag p else takeShortTag p
  if atGap q.rest ∨ (flow ∧ q.rest.head? = some ',') then return (t, q) else none

/-! ## Directives -/

/-- A line that says how to read the document after it. -/
inductive Directive where
  | version (major minor : Nat)
  /-- The start of the tags that have a handle. -/
  | tagStart (handle : List Char) (start : Bytes)
  deriving DecidableEq, Repr, Inhabited

/-- A number of one to nine digits, and where it ends. -/
def takeVersionNumber (p : Cursor) : Option (Nat × Cursor) :=
  let digits := p.rest.takeWhile Char.isDigit
  if digits = [] ∨ 9 < digits.length then none
  else some (Numeric.digitsValue digits, p.skip digits.length)

/-- The values of a version, and where they end. -/
def takeVersion (p : Cursor) : Option (Directive × Cursor) := do
  let (major, q) ← takeVersionNumber (p.skipWhile isBlank)
  if q.rest.head? = some '.' then
    let (minor, q) ← takeVersionNumber (q.skip 1)
    return (.version major minor, q)
  else none

/-- The values of a start of tags, and where they end. -/
def takeTagStart (p : Cursor) : Option (Directive × Cursor) := do
  let (handle, q) ← takeHandle (p.skipWhile isBlank)
  if handle ≠ ['!'] ∧ isFullHandle handle = false then none
  else if q.rest.head?.any isBlank then
    let (start, q) ← takeTagPart true (q.skipWhile isBlank)
    if atGap q.rest then return (.tagStart handle start, q) else none
  else none

/-- The directive at a place, and the start of the line after it. -/
def takeDirective (p : Cursor) : Option (Directive × Cursor) := do
  let name := (p.rest.drop 1).takeWhile isWordChar
  let q := p.skip (1 + name.length)
  if atGap q.rest then
    let (directive, q) ←
      if name = "YAML".toList then takeVersion q
      else if name = "TAG".toList then takeTagStart q
      else none
    let q ← q.endLine?
    return (directive, q)
  else none

end StreamQuery.Yaml
