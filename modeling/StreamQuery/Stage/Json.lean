import StreamQuery.Expr.Json
import StreamQuery.Stage
set_option autoImplicit false

/-!
# Stages in JSON

A stage is written as an alternative declared by a tag, with a specification that is
an object.
-/

namespace StreamQuery

namespace StageKind

/-- The name of a kind of stage in declarations. -/
def declaredName : StageKind → String
  | having => "HAVING"
  | computation => "COMPUTATION"
  | orderBy => "ORDER_BY"
  | culling => "CULLING"

/-- The kind of stage declared by a name. -/
def ofDeclaredName? : String → Option StageKind
  | "HAVING" => some having
  | "COMPUTATION" => some computation
  | "ORDER_BY" => some orderBy
  | "CULLING" => some culling
  | _ => none

theorem ofDeclaredName?_declaredName (k : StageKind) :
    ofDeclaredName? k.declaredName = some k := by
  cases k <;> rfl

end StageKind

namespace Direction

/-- The name of a direction in declarations. -/
def declaredName : Direction → String
  | ascending => "Asc"
  | descending => "Desc"

/-- The direction declared by a name. -/
def ofDeclaredName? : String → Option Direction
  | "Asc" => some ascending
  | "Desc" => some descending
  | _ => none

theorem ofDeclaredName?_declaredName (d : Direction) :
    ofDeclaredName? d.declaredName = some d := by
  cases d <;> rfl

end Direction

namespace ComputedField

/-- A computed field as JSON. -/
def toJson (f : ComputedField) : Json :=
  .ofMembers [("name", .ofString f.name), ("expression", f.expression.toJson)]

/-- Reads a computed field. -/
def ofJson? (r : Json.Reading) (j : Json) : Option ComputedField :=
  match j.fields? [("name", .required), ("expression", .required)] with
  | some [some name, some expression] => do
    let name ← name.asString?
    let expression ← Expr.ofJson? r expression
    return ⟨name, expression⟩
  | _ => none

end ComputedField

namespace SortKey

/-- A sort key as JSON. -/
def toJson (k : SortKey) : Json :=
  .ofMembers [("expression", k.expression.toJson),
    ("direction", .ofString k.direction.declaredName)]

/-- Reads a direction that may be left out. -/
def readDirection (r : Json.Reading) : Option Json → Option Direction
  | none => some .ascending
  | some j => j.asName? r Direction.ofDeclaredName?

/-- Reads a sort key. -/
def ofJson? (r : Json.Reading) (j : Json) : Option SortKey :=
  match j.fields? [("expression", .required), ("direction", .optional)] with
  | some [some expression, direction] => do
    let expression ← Expr.ofJson? r expression
    let direction ← readDirection r direction
    return ⟨expression, direction⟩
  | _ => none

end SortKey

namespace Stage

/-- The specification of a stage as JSON. -/
def specToJson : Stage → Json
  | having predicate => .ofMembers [("expression", predicate.toJson)]
  | computation fields => .ofMembers [("fields", .array (fields.map ComputedField.toJson))]
  | orderBy sortKeys => .ofMembers [("fields", .array (sortKeys.map SortKey.toJson))]
  | culling fields => .ofMembers [("fields", .array (fields.map Json.ofString))]

/-- A stage as JSON. -/
def toJson (s : Stage) : Json := .ofTagged "type" s.kind.declaredName "spec" s.specToJson

/-- Reads the specification of a stage of some kind. -/
def specOfJson? (r : Json.Reading) (kind : StageKind) (spec : Json) : Option Stage :=
  match kind with
  | .having =>
    match spec.namedFields? [("expression", .required)] with
    | some [some predicate] => (Expr.ofJson? r predicate).map having
    | _ => none
  | .computation =>
    match spec.namedFields? [("fields", .required)] with
    | some [some fields] => (fields.asList? (ComputedField.ofJson? r)).map computation
    | _ => none
  | .orderBy =>
    match spec.namedFields? [("fields", .required)] with
    | some [some fields] => (fields.asList? (SortKey.ofJson? r)).map orderBy
    | _ => none
  | .culling =>
    match spec.namedFields? [("fields", .required)] with
    | some [some fields] => (fields.asList? Json.asString?).map culling
    | _ => none

/-- Reads a stage. -/
def ofJson? (r : Json.Reading) (j : Json) : Option Stage := do
  let names := StageKind.all.map StageKind.declaredName
  let (name, r, spec) ← j.tagged? r names "type" "spec"
  let kind ← StageKind.ofDeclaredName? name
  specOfJson? r kind spec

end Stage

end StreamQuery
