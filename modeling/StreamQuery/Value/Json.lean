import StreamQuery.Json.Alternative
import StreamQuery.Value
set_option autoImplicit false

/-!
# Values in JSON

A value is written as an alternative named for its kind.  NULL has no content; a
floating-point number that is not finite is written as null and cannot be read
back.
-/

namespace StreamQuery

namespace Kind

/-- The name of a kind in declarations. -/
def declaredName : Kind → String
  | null => "Null"
  | boolean => "Boolean"
  | integer => "Integer"
  | long => "Long"
  | float => "Float"
  | double => "Double"
  | string => "String"
  | list => "List"
  | map => "Map"

/-- The kind declared by a name. -/
def ofDeclaredName? : String → Option Kind
  | "Null" => some null
  | "Boolean" => some boolean
  | "Integer" => some integer
  | "Long" => some long
  | "Float" => some float
  | "Double" => some double
  | "String" => some string
  | "List" => some list
  | "Map" => some map
  | _ => none

theorem ofDeclaredName?_declaredName (k : Kind) : ofDeclaredName? k.declaredName = some k := by
  cases k <;> rfl

/-- A kind as JSON. -/
def toJson (k : Kind) : Json := .ofString k.declaredName

/-- Reads a kind. -/
def ofJson? (r : Json.Reading) (j : Json) : Option Kind := j.asName? r ofDeclaredName?

end Kind

namespace Value

mutual

/-- A value as JSON. -/
def toJson : Value → Json
  | null => .ofString "Null"
  | boolean b => .ofVariant "Boolean" (.boolean b)
  | integer n => .ofVariant "Integer" (.ofInt n.toInt)
  | long n => .ofVariant "Long" (.ofInt n.toInt)
  | float x => .ofVariant "Float" (.ofSingle x)
  | double x => .ofVariant "Double" (.ofDouble x)
  | string s => .ofVariant "String" (.ofString s)
  | list items => .ofVariant "List" (.array (itemsToJson items))
  | map entries => .ofVariant "Map" (.object (entriesToJson entries))

/-- The items of a list as JSON. -/
def itemsToJson : List Value → List Json
  | [] => []
  | v :: rest => v.toJson :: itemsToJson rest

/-- The entries of a map as members. -/
def entriesToJson : List (String × Value) → List (Bytes × Json)
  | [] => []
  | (key, v) :: rest => (Json.encodeText key, v.toJson) :: entriesToJson rest

end

/-- Reads the content of a value without parts, by the name of its kind. -/
def scalarOfJson? (kind : Kind) (content : Json) : Option Value :=
  match kind with
  | .boolean => content.asBool?.map boolean
  | .integer => content.asInt32?.map integer
  | .long => content.asInt64?.map long
  | .float => content.asSingle?.map float
  | .double => content.asDouble?.map double
  | .string => content.asString?.map string
  | .null => match content with
    | .null => some null
    | _ => none
  | .list | .map => none

mutual

/-- Reads a value. -/
def ofJson? : Json → Option Value
  | .string name => if Json.decodeText? name = some "Null" then some null else none
  | .object [(name, .array items)] =>
    if Json.decodeText? name = some "List" then (itemsOfJson? items).map list else none
  | .object [(name, .object members)] =>
    if Json.decodeText? name = some "Map" then
      (entriesOfJson? members).map fun es => ofKeyed (.ofList es)
    else none
  | .object [(name, content)] => do
    let name ← Json.decodeText? name
    let kind ← Kind.ofDeclaredName? name
    scalarOfJson? kind content
  | _ => none

/-- Reads the items of a list. -/
def itemsOfJson? : List Json → Option (List Value)
  | [] => some []
  | j :: rest => do
    let v ← ofJson? j
    let vs ← itemsOfJson? rest
    return v :: vs

/-- Reads the entries of a map. -/
def entriesOfJson? : List (Bytes × Json) → Option (List (String × Value))
  | [] => some []
  | (key, j) :: rest => do
    let key ← Json.decodeText? key
    let v ← ofJson? j
    let es ← entriesOfJson? rest
    return (key, v) :: es

end

end Value

end StreamQuery
