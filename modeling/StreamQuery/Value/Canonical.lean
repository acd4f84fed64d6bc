import StreamQuery.Bytes.Digest
import StreamQuery.Value
set_option autoImplicit false

/-!
# Canonical bytes

Group keys and distinct values are hashed by their canonical bytes.  Each encoding
starts with a tag and says how long it is, so encodings can follow one another.
Numbers are encoded by what they denote and not by their kind: a whole number in
the range of a LONG has the bytes of that LONG, and any other has the word of the
double precision number, where all values that are not numbers share one word.
-/

namespace StreamQuery.Value

/-- The bytes of a whole number in the range of a LONG. -/
def encodeWhole (n : Int) : Bytes := 2 :: Bytes.ofNat 8 (n % 2 ^ 64).toNat

/-- The bytes of any other number: its word, and one word for all that is no number. -/
def encodeWord (x : Numeric.Double) : Bytes :=
  5 :: Bytes.ofNat 8 (if x.datum.isNaN then Numeric.BinaryFormat.double.nanWord else x.word)

/-- The bytes of a double precision number. -/
def encodeDouble (x : Numeric.Double) : Bytes :=
  match x.datum.whole? with
  | some n => if -2 ^ 63 ≤ n ∧ n < 2 ^ 63 then encodeWhole n else encodeWord x
  | none => encodeWord x

/-- The bytes of a text: their number, then the bytes themselves. -/
def encodeText (s : String) : Bytes :=
  let bs := Bytes.ofString s
  Bytes.ofLength bs.length ++ bs

mutual

/-- The canonical bytes of a value. -/
def encode : Value → Bytes
  | null => [0]
  | boolean b => [1, if b then 1 else 0]
  | integer n => encodeWhole n.toInt
  | long n => encodeWhole n.toInt
  | float x => encodeDouble (Numeric.widen x)
  | double x => encodeDouble x
  | string s => 6 :: encodeText s
  | list items => 7 :: Bytes.ofLength items.length ++ encodeItems items
  | map entries => 8 :: Bytes.ofLength entries.length ++ encodeEntries entries

/-- The canonical bytes of values, one after another. -/
def encodeItems : List Value → Bytes
  | [] => []
  | v :: rest => v.encode ++ encodeItems rest

/-- The canonical bytes of entries, each a key and a value. -/
def encodeEntries : List (String × Value) → Bytes
  | [] => []
  | (key, v) :: rest => encodeText key ++ v.encode ++ encodeEntries rest

end

/-- The canonical bytes of a tuple of values: their number, then the values. -/
def encodeTuple (vs : List Value) : Bytes := Bytes.ofLength vs.length ++ encodeItems vs

/-- The seed of every hash, shared by all partial results. -/
def hashSeed : UInt64 := 0x5eedcafef00dd00d

/-- The hash of a value. -/
def hash (v : Value) : UInt64 := Digest.digest v.encode hashSeed

/-- The hash of a tuple of values. -/
def hashTuple (vs : List Value) : UInt64 := Digest.digest (encodeTuple vs) hashSeed

end StreamQuery.Value
