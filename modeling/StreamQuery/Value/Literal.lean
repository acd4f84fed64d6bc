import StreamQuery.Value
import StreamQuery.Numeric.IntegerText
import StreamQuery.Text.Blank
set_option autoImplicit false

/-!
# Literals

A literal is the text of a value together with the kind it is meant to have.
Blanks around a BOOLEAN or a number do not count; a STRING is taken as it stands.
-/

namespace StreamQuery.Value

/-- Reads a 32-bit integer among blanks. -/
def readInteger? (text : String) : Option Int32 :=
  Numeric.readInt32? (Text.trimBlanks text.toList)

/-- Reads a 64-bit integer among blanks. -/
def readLong? (text : String) : Option Int64 :=
  Numeric.readInt64? (Text.trimBlanks text.toList)

/-- Reads a single precision number among blanks. -/
def readFloat? (text : String) : Option Numeric.Single :=
  (Numeric.readFloat .single (Text.trimBlanks text.toList)).map Numeric.singleOfWord

/-- Reads a double precision number among blanks. -/
def readDouble? (text : String) : Option Numeric.Double :=
  (Numeric.readFloat .double (Text.trimBlanks text.toList)).map Numeric.doubleOfWord

/-- Reads `true` or `false` among blanks, in any case.  No letter outside ASCII has one of the
letters of these words as its small letter, so the ASCII case decides. -/
def readBoolean? (text : String) : Option Bool :=
  match Text.lowerAscii (Text.trim text) with
  | "true" => some true
  | "false" => some false
  | _ => none

/-- Reads the text of a literal of a kind. -/
def ofLiteral (text : String) (kind : Kind) : Outcome Value :=
  let read (v : Option Value) : Outcome Value :=
    match v with
    | some value => .ok value
    | none => .error (.execution (.invalidLiteral kind text) none)
  match kind with
  | .null => .ok null
  | .string => .ok (string text)
  | .boolean => read ((readBoolean? text).map boolean)
  | .integer => read ((readInteger? text).map integer)
  | .long => read ((readLong? text).map long)
  | .float => read ((readFloat? text).map float)
  | .double => read ((readDouble? text).map double)
  | .list | .map => .error (.typeMismatch "a scalar literal kind" kind.name (some text))

end StreamQuery.Value
