import StreamQuery.Json.Decode
set_option autoImplicit false

/-!
# JSON forms

Types whose values are written as JSON and read back from it.
-/

namespace StreamQuery

/-- A way to write values as JSON and to read them. -/
class JsonForm (α : Type) where
  toJson : α → Json
  ofJson? : Json → Option α

namespace JsonForm

/-- The value of no information is null. -/
instance : JsonForm Unit where
  toJson _ := .null
  ofJson?
    | .null => some ()
    | _ => none

/-- The decimal text of a word, as a name of members. -/
def wordName (n : UInt64) : Bytes := Json.asciiBytes (toString n.toNat).toList

/-- The word that a name of members stands for: a number without sign, point and exponent, which
is written without escapes. -/
def wordOfName? (name : Bytes) : Option UInt64 :=
  let lexeme := name.map Json.charOf
  if Json.isNumber lexeme then
    (Json.lexemeInt? lexeme).bind fun n => if 0 ≤ n then some (UInt64.ofNat n.toNat) else none
  else none

end JsonForm

end StreamQuery
