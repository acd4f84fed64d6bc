import StreamQuery.Numeric.Binary
set_option autoImplicit false

/-!
# Floating-point numbers

A floating-point number is kept as its word.  What is no number has one word for
each sign: the sign moves it to one end of the total order or to the other, and
the payload beside it is seen nowhere and is dropped.

Arithmetic is that of the core library, which has no sign for a result that is no
number.  The sign is chosen here (`nanSign`).
-/

namespace StreamQuery.Numeric

namespace BinaryFormat

/-- The words in use: a sign with a magnitude up to infinity, or with the one magnitude of what is
no number. -/
inductive Proper (f : BinaryFormat) : Nat → Prop where
  | finite (negative : Bool) {w : Nat} (hw : w < f.infinityWord) :
      Proper f (f.signWord negative + w)
  | infinite (negative : Bool) : Proper f (f.signWord negative + f.infinityWord)
  | nan (negative : Bool) : Proper f (f.signWord negative + f.nanWord)

/-- A floating-point number of a format. -/
structure Number (f : BinaryFormat) where
  word : Nat
  proper : f.Proper word
  deriving DecidableEq

namespace Number

variable {f : BinaryFormat}

/-- What is no number, with a sign. -/
def nan (f : BinaryFormat) (negative : Bool) : f.Number :=
  ⟨f.signWord negative + f.nanWord, .nan negative⟩

/-- The number of a word. -/
def ofWord (f : BinaryFormat) (word : Nat) : f.Number :=
  let negative := word / f.signWeight % 2 == 1
  let magnitude := word % f.signWeight
  if h : magnitude < f.infinityWord then ⟨f.signWord negative + magnitude, .finite negative h⟩
  else if magnitude = f.infinityWord then
    ⟨f.signWord negative + f.infinityWord, .infinite negative⟩
  else nan f negative

instance : Inhabited f.Number := ⟨ofWord f 0⟩

/-- What a number denotes. -/
def datum (x : f.Number) : Datum := f.denote x.word

/-- The place of a number in the total order of its format. -/
def key (x : f.Number) : Int := f.orderKey x.word

/-- The number with the other sign. -/
instance : Neg f.Number :=
  ⟨fun x => ofWord f (if x.word < f.signWeight then x.word + f.signWeight
    else x.word - f.signWeight)⟩

/-- Equality as IEEE 754 has it: zeros of either sign are the same, and what is no number is equal
to nothing. -/
def same (x y : f.Number) : Bool :=
  !x.datum.isNaN && !y.datum.isNaN && (x.word == y.word || x.datum.isZero && y.datum.isZero)

/-- The number in a format that is nearest to what a number denotes. -/
def convert {g : BinaryFormat} (x : g.Number) : f.Number := ofWord f (f.encode x.datum)

/-- The number nearest to an integer. -/
def ofInt (n : Int) : f.Number := ofWord f (f.encodeInt n)

/-! ## Results of the core library -/

/-- The sign of the result of an operation on two numbers, when it is no number.  IEEE 754 leaves it
open; as on the processors in use it is the sign of the first operand that is no number, and the
negative one where both are numbers. -/
def nanSign (x y : f.Number) : Bool :=
  match x.datum, y.datum with
  | .nan negative, _ => negative
  | _, .nan negative => negative
  | _, _ => true

/-- The number of the word of a result, with the sign that it has if it is no number. -/
def ofResult (f : BinaryFormat) (negative : Bool) (word : Nat) : f.Number :=
  match f.denote word with
  | .nan _ => nan f negative
  | _ => ofWord f word

end Number

end BinaryFormat

open BinaryFormat (Number)

/-- A double precision number. -/
abbrev Double := Number .double

/-- A single precision number. -/
abbrev Single := Number .single

namespace Double

/-- The number of the core library. -/
def toCore (x : Double) : Float := Float.ofBits (UInt64.ofNat x.word)

/-- An operation of the core library on two numbers. -/
def lift (op : Float → Float → Float) (x y : Double) : Double :=
  Number.ofResult .double (x.nanSign y) (op x.toCore y.toCore).toBits.toNat

instance : Add Double := ⟨lift (· + ·)⟩

instance : Sub Double := ⟨lift (· - ·)⟩

instance : Mul Double := ⟨lift (· * ·)⟩

instance : Div Double := ⟨lift (· / ·)⟩

/-- The square root. -/
def sqrt (x : Double) : Double :=
  Number.ofResult .double (x.nanSign x) x.toCore.sqrt.toBits.toNat

end Double

namespace Single

/-- The number of the core library. -/
def toCore (x : Single) : Float32 := Float32.ofBits (UInt32.ofNat x.word)

/-- An operation of the core library on two numbers. -/
def lift (op : Float32 → Float32 → Float32) (x y : Single) : Single :=
  Number.ofResult .single (x.nanSign y) (op x.toCore y.toCore).toBits.toNat

instance : Add Single := ⟨lift (· + ·)⟩

instance : Sub Single := ⟨lift (· - ·)⟩

instance : Mul Single := ⟨lift (· * ·)⟩

instance : Div Single := ⟨lift (· / ·)⟩

end Single

end StreamQuery.Numeric
