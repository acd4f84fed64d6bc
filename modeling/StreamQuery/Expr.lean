import StreamQuery.Kind
import StreamQuery.Operator
set_option autoImplicit false

/-!
# Expressions

The trees that queries are written in.  Parentheses are a node of their own, so
that the text of a tree shows where they were put.
-/

namespace StreamQuery

/-- An expression over the fields of a record. -/
inductive Expr where
  /-- A field, or a dotted path into one. -/
  | column (name : String)
  /-- The text of a value and the kind it is meant to have. -/
  | literal (text : String) (kind : Kind)
  | binary (left : Expr) (op : BinaryOperator) (right : Expr)
  | unary (op : UnaryOperator) (operand : Expr)
  | cast (operand : Expr) (kind : Kind)
  /-- The number of items of a list field or entries of a map field. -/
  | sizeOf (field : String)
  /-- An expression in parentheses. -/
  | nested (inner : Expr)
  deriving DecidableEq, Repr, Inhabited

namespace Expr

/-- The text of an expression. -/
def text : Expr → String
  | column name => name
  | literal text .string => "'" ++ text ++ "'"
  | literal text _ => text
  | binary left op right => left.text ++ " " ++ op.symbol ++ " " ++ right.text
  | unary .not operand => "NOT " ++ operand.text
  | unary .minus operand => "-" ++ operand.text
  | unary .isNull operand => operand.text ++ " IS NULL"
  | unary .isNotNull operand => operand.text ++ " IS NOT NULL"
  | cast operand kind => "CAST(" ++ operand.text ++ " AS " ++ kind.name ++ ")"
  | sizeOf field => "SIZEOF(" ++ field ++ ")"
  | nested inner => "(" ++ inner.text ++ ")"

/-- Every occurrence of a field name, from left to right. -/
def fieldOccurrences : Expr → List String
  | column name => [name]
  | sizeOf field => [field]
  | literal _ _ => []
  | binary left _ right => left.fieldOccurrences ++ right.fieldOccurrences
  | unary _ operand => operand.fieldOccurrences
  | cast operand _ => operand.fieldOccurrences
  | nested inner => inner.fieldOccurrences

/-- The field names an expression reads, each once, in the order of first occurrence. -/
def referencedFields (e : Expr) : List String := e.fieldOccurrences.eraseDups

end Expr

end StreamQuery
