import StreamQuery.Json
import StreamQuery.Numeric.Conversion
import StreamQuery.Numeric.FloatText
set_option autoImplicit false

/-!
# Numbers of JSON

A lexeme without point and exponent is an integer if it fits a 64-bit word, signed
when it has a minus; minus zero is not an integer.  Any other lexeme is a double
precision number, and its reading rounds more than once: the leading digits that
fit a 64-bit word are converted first and then scaled by one power of ten.  A
lexeme beyond the largest finite number denotes nothing.
-/

namespace StreamQuery.Json

/-! ## Lexemes in parts -/

/-- The parts of a lexeme. -/
structure LexemeParts where
  negative : Bool
  whole : List Char
  /-- The digits after the point; absent when there is no point. -/
  places : Option (List Char)
  /-- The sign and the digits of the exponent; absent when there is none. -/
  exponent : Option (Bool × List Char)
  deriving Repr, Inhabited

/-- Takes a lexeme apart. -/
def LexemeParts.of (lexeme : List Char) : LexemeParts :=
  let (negative, body) := Numeric.takeSign lexeme
  let whole := body.takeWhile Char.isDigit
  let (places, rest) := match body.dropWhile Char.isDigit with
    | '.' :: more => (some (more.takeWhile Char.isDigit), more.dropWhile Char.isDigit)
    | rest => (none, rest)
  let exponent := match rest with
    | [] => none
    | _ :: digits => some (Numeric.takeSign digits)
  ⟨negative, whole, places, exponent⟩

/-! ## Integers -/

/-- The integer of a lexeme. -/
def lexemeInt? (lexeme : List Char) : Option Int :=
  let p := LexemeParts.of lexeme
  if p.places.isNone ∧ p.exponent.isNone then
    let n := Numeric.digitsValue p.whole
    if p.negative then
      if 0 < n ∧ n ≤ 2 ^ 63 then some (-n) else none
    else
      if n < 2 ^ 64 then some n else none
  else none

/-! ## Double precision numbers -/

/-- Takes digits as long as the number they make fits a 64-bit word. -/
def takeSignificand (n : Nat) : List Char → Nat × List Char
  | [] => (n, [])
  | c :: rest =>
    let next := 10 * n + (c.toNat - '0'.toNat)
    if next < 2 ^ 64 then takeSignificand next rest else (n, c :: rest)

/-- The double precision number nearest to a power of ten. -/
def powerOfTen (n : Nat) : Numeric.Double := Numeric.doubleOfRatio (10 ^ n) 1

/-- A significand scaled by a power of ten.  The largest power in use is `10 ^ 308`; a smaller
number than that power reaches is divided by it first, and two such steps leave zero. -/
def scaleByTen (significand : Nat) (exponent : Int) : Option Numeric.Double :=
  let f := Numeric.doubleOfInt significand
  if 0 ≤ exponent then
    if exponent ≤ 308 then
      let scaled := f * powerOfTen exponent.toNat
      if scaled.datum.isInfinite then none else some scaled
    else if significand = 0 then some f else none
  else if -308 ≤ exponent then some (f / powerOfTen (-exponent).toNat)
  else if -616 ≤ exponent then some (f / powerOfTen 308 / powerOfTen (-exponent - 308).toNat)
  else some (Numeric.doubleOfInt 0)

/-- An exponent as far as it is read: past the 32-bit integers it counts as out of all bounds. -/
def exponentValue? (negative : Bool) (digits : List Char) : Option Int :=
  let n := Numeric.digitsValue digits
  if n < 2 ^ 31 then some (if negative then -(n : Int) else n) else none

/-- The magnitude of a lexeme as a double precision number. -/
def lexemeMagnitude? (p : LexemeParts) : Option Numeric.Double :=
  let (significand, excess) := takeSignificand 0 p.whole
  let places := p.places.getD []
  let (significand, rest) := takeSignificand significand places
  let exponent : Int := excess.length - (places.length - rest.length : Nat)
  match p.exponent with
  | none => scaleByTen significand exponent
  | some (negative, digits) =>
    match exponentValue? negative digits with
    | some e => scaleByTen significand (exponent + e)
    | none =>
      if significand ≠ 0 ∧ !negative then none else some (Numeric.doubleOfInt 0)

/-- The double precision number of a lexeme. -/
def lexemeDouble? (lexeme : List Char) : Option Numeric.Double :=
  match lexemeInt? lexeme with
  | some n => some (Numeric.doubleOfInt n)
  | none =>
    let p := LexemeParts.of lexeme
    (lexemeMagnitude? p).map fun x => if p.negative then -x else x

/-- The single precision number of a lexeme: an integer is converted at once, any other number
through double precision. -/
def lexemeSingle? (lexeme : List Char) : Option Numeric.Single :=
  match lexemeInt? lexeme with
  | some n => some (Numeric.singleOfInt n)
  | none => (lexemeDouble? lexeme).map Numeric.narrow

/-! ## Writing -/

/-- Double precision numbers have decimal places always, and an exponent outside
`10 ^ -5 ... 10 ^ 15`. -/
def doubleStyle : Numeric.FloatStyle := ⟨.even, ".0", some (-5, 15)⟩

/-- Single precision numbers have an exponent outside `10 ^ -6 ... 10 ^ 12`. -/
def singleStyle : Numeric.FloatStyle := ⟨.even, ".0", some (-6, 12)⟩

/-- An integer. -/
def ofInt (n : Int) : Json := number (toString n).toList

/-- A natural number. -/
def ofNat (n : Nat) : Json := ofInt n

/-- A double precision number; one that is not finite has no lexeme and is null. -/
def ofDouble (x : Numeric.Double) : Json :=
  match x.datum with
  | .finite .. => number (doubleStyle.text .double x.word).toList
  | _ => null

/-- A single precision number. -/
def ofSingle (x : Numeric.Single) : Json :=
  match x.datum with
  | .finite .. => number (singleStyle.text .single x.word).toList
  | _ => null

end StreamQuery.Json
