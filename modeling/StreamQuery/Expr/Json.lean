import StreamQuery.Expr
import StreamQuery.Value.Json
set_option autoImplicit false

/-!
# Expressions in JSON

An expression is written as an alternative named for its node.  What a node holds
besides one part is a structure of named fields.
-/

namespace StreamQuery

namespace BinaryOperator

/-- The name of an operator in declarations. -/
def declaredName : BinaryOperator → String
  | add => "Add"
  | subtract => "Subtract"
  | multiply => "Multiply"
  | divide => "Divide"
  | equal => "Equal"
  | notEqual => "NotEqual"
  | lessThan => "LessThan"
  | lessThanOrEqual => "LessThanOrEqual"
  | greaterThan => "GreaterThan"
  | greaterThanOrEqual => "GreaterThanOrEqual"
  | and => "And"
  | or => "Or"

/-- The operator declared by a name. -/
def ofDeclaredName? : String → Option BinaryOperator
  | "Add" => some add
  | "Subtract" => some subtract
  | "Multiply" => some multiply
  | "Divide" => some divide
  | "Equal" => some equal
  | "NotEqual" => some notEqual
  | "LessThan" => some lessThan
  | "LessThanOrEqual" => some lessThanOrEqual
  | "GreaterThan" => some greaterThan
  | "GreaterThanOrEqual" => some greaterThanOrEqual
  | "And" => some and
  | "Or" => some or
  | _ => none

theorem ofDeclaredName?_declaredName (op : BinaryOperator) :
    ofDeclaredName? op.declaredName = some op := by
  cases op <;> rfl

end BinaryOperator

namespace UnaryOperator

/-- The name of an operator in declarations. -/
def declaredName : UnaryOperator → String
  | not => "Not"
  | minus => "Minus"
  | isNull => "IsNull"
  | isNotNull => "IsNotNull"

/-- The operator declared by a name. -/
def ofDeclaredName? : String → Option UnaryOperator
  | "Not" => some not
  | "Minus" => some minus
  | "IsNull" => some isNull
  | "IsNotNull" => some isNotNull
  | _ => none

theorem ofDeclaredName?_declaredName (op : UnaryOperator) :
    ofDeclaredName? op.declaredName = some op := by
  cases op <;> rfl

end UnaryOperator

namespace Expr

/-- An expression as JSON. -/
def toJson : Expr → Json
  | column name => .ofVariant "Column" (.ofString name)
  | literal text kind =>
    .ofVariant "Literal" (.ofMembers [("value", .ofString text), ("kind", kind.toJson)])
  | binary left op right =>
    .ofVariant "BinaryOp" (.ofMembers
      [("left", left.toJson), ("op", .ofString op.declaredName), ("right", right.toJson)])
  | unary op operand =>
    .ofVariant "UnaryOp" (.ofMembers
      [("op", .ofString op.declaredName), ("expr", operand.toJson)])
  | cast operand kind =>
    .ofVariant "Cast" (.ofMembers [("expr", operand.toJson), ("kind", kind.toJson)])
  | sizeOf field => .ofVariant "SizeOf" (.ofString field)
  | nested inner => .ofVariant "Nested" inner.toJson

/-- Reads an expression. -/
def ofJson? (r : Json.Reading) (j : Json) : Option Expr :=
  match _hv : j.variant? with
  | some ("Column", some content) => content.asString?.map column
  | some ("SizeOf", some content) => content.asString?.map sizeOf
  | some ("Nested", some content) => (ofJson? r content).map nested
  | some ("Literal", some content) =>
    match content.contentFields? r [("value", .required), ("kind", .required)] with
    | some [some value, some kind] => do
      let text ← value.asString?
      let kind ← Kind.ofJson? r kind
      return literal text kind
    | _ => none
  | some ("BinaryOp", some content) =>
    match _hf : content.contentFields? r
        [("left", .required), ("op", .required), ("right", .required)] with
    | some [some left, some op, some right] => do
      let left ← ofJson? r left
      let op ← op.asName? r BinaryOperator.ofDeclaredName?
      let right ← ofJson? r right
      return binary left op right
    | _ => none
  | some ("UnaryOp", some content) =>
    match _hf : content.contentFields? r [("op", .required), ("expr", .required)] with
    | some [some op, some operand] => do
      let op ← op.asName? r UnaryOperator.ofDeclaredName?
      let operand ← ofJson? r operand
      return unary op operand
    | _ => none
  | some ("Cast", some content) =>
    match _hf : content.contentFields? r [("expr", .required), ("kind", .required)] with
    | some [some operand, some kind] => do
      let operand ← ofJson? r operand
      let kind ← Kind.ofJson? r kind
      return cast operand kind
    | _ => none
  | _ => none
termination_by SizeOf.sizeOf j
decreasing_by
  all_goals first
    | exact Json.sizeOf_lt_of_variant? _hv
    | exact Nat.lt_trans (Json.sizeOf_lt_of_contentFields? _hf (by simp))
        (Json.sizeOf_lt_of_variant? _hv)

end Expr

end StreamQuery
