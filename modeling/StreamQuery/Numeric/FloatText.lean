import StreamQuery.Numeric.IntegerText
import StreamQuery.Numeric.Shortest
set_option autoImplicit false

/-!
# The text of floating-point numbers

A number is written by the digits of its shortest decimal; a `FloatStyle` says how
they are laid out.  It is read by rounding the decimal once to the format, however
many digits and however large an exponent the decimal has.
-/

namespace StreamQuery.Numeric

/-! ## Writing -/

/-- How the digits of a number are laid out. -/
structure FloatStyle where
  /-- Which of two equally near shortest decimals is written. -/
  tie : DecimalTie
  /-- What follows a number without decimal places. -/
  wholeSuffix : String
  /-- The orders of magnitude written without an exponent; all of them when absent. -/
  positional : Option (Int × Int)
  deriving Repr

namespace Decimal

/-- The digits in positional notation, with `suffix` after a whole number. -/
def positional (d : Decimal) (suffix : String) : String :=
  let ds := Nat.toDigits 10 d.digits
  let places := (-d.exponent).toNat
  if 0 ≤ d.exponent then
    String.ofList (ds ++ List.replicate d.exponent.toNat '0') ++ suffix
  else if places < ds.length then
    String.ofList (ds.take (ds.length - places) ++ '.' :: ds.drop (ds.length - places))
  else
    String.ofList ('0' :: '.' :: List.replicate (places - ds.length) '0' ++ ds)

/-- The order of magnitude of the leading digit. -/
def leadingOrder (d : Decimal) : Int := d.exponent + (Nat.toDigits 10 d.digits).length - 1

/-- The digits in scientific notation: one digit before the point, and a signed exponent. -/
def scientific (d : Decimal) : String :=
  let order := d.leadingOrder
  let mantissa := match Nat.toDigits 10 d.digits with
    | [] => []
    | [lead] => [lead]
    | lead :: rest => lead :: '.' :: rest
  String.ofList mantissa ++ (if order < 0 then "e-" else "e+") ++ toString order.natAbs

/-- The decimal in a style. -/
def write (d : Decimal) (style : FloatStyle) : String :=
  match style.positional with
  | none => d.positional style.wholeSuffix
  | some (lo, hi) =>
    if lo ≤ d.leadingOrder ∧ d.leadingOrder ≤ hi then d.positional style.wholeSuffix
    else d.scientific

end Decimal

/-- The text of the number of a word. -/
def FloatStyle.text (style : FloatStyle) (f : BinaryFormat) (word : Nat) : String :=
  let sign (negative : Bool) : String := if negative then "-" else ""
  match f.denote word with
  | .nan _ => "NaN"
  | .infinite negative => sign negative ++ "inf"
  | .finite negative significand scale =>
    sign negative ++
      if significand = 0 then "0" ++ style.wholeSuffix
      else
        (shortestDecimal f style.tie (significand * 2 ^ scale.toNat) (2 ^ (-scale).toNat)
          (word % f.signWeight)).write style

/-! ## Reading -/

/-- Takes a sign off the front of a text; the flag tells a minus. -/
def takeSign : List Char → Bool × List Char
  | '-' :: rest => (true, rest)
  | '+' :: rest => (false, rest)
  | cs => (false, cs)

/-- Reads what follows the digits of a decimal: nothing, or an exponent with at least one digit. -/
def readExponent : List Char → Option Int
  | [] => some 0
  | c :: rest =>
    if c = 'e' ∨ c = 'E' then
      let (negative, ds) := takeSign rest
      if ds ≠ [] ∧ ds.all Char.isDigit then
        some (if negative then -(digitsValue ds : Int) else digitsValue ds)
      else none
    else none

/-- Reads an unsigned decimal: digits with at most one point, at least one digit in all, and an
exponent if there is one. -/
def readDecimal (cs : List Char) : Option Decimal :=
  let whole := cs.takeWhile Char.isDigit
  let rest := cs.dropWhile Char.isDigit
  let (places, rest) := match rest with
    | '.' :: more => (more.takeWhile Char.isDigit, more.dropWhile Char.isDigit)
    | _ => ([], rest)
  if whole = [] ∧ places = [] then none
  else (readExponent rest).map fun exponent =>
    ⟨digitsValue (whole ++ places), exponent - places.length⟩

/-- The word of the magnitude nearest to a decimal.  A decimal beyond `10 ^ 400`, or below
`10 ^ -400`, is past the range of every format in use and is not expanded. -/
def decimalMagnitude (f : BinaryFormat) (d : Decimal) : Nat :=
  if d.digits = 0 then 0
  else if 400 < d.leadingOrder then f.infinityWord
  else if d.leadingOrder < -400 then 0
  else d.word f

/-- Reads the text of a number as a word of a format: a decimal, or `inf`, `infinity` or `nan` in
any case, after at most one sign. -/
def readFloat (f : BinaryFormat) (cs : List Char) : Option Nat :=
  let (negative, body) := takeSign cs
  let name := String.ofList (body.map Char.toLower)
  if name = "nan" then some (f.signWord negative + f.nanWord)
  else if name = "inf" ∨ name = "infinity" then some (f.signWord negative + f.infinityWord)
  else (readDecimal body).map fun d => f.signWord negative + decimalMagnitude f d

end StreamQuery.Numeric
