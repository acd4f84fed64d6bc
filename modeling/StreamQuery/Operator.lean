set_option autoImplicit false

/-!
# Operators

The operators of expressions, with the symbols under which they are shown.
-/

namespace StreamQuery

/-- Operators between two expressions. -/
inductive BinaryOperator where
  | add
  | subtract
  | multiply
  | divide
  | equal
  | notEqual
  | lessThan
  | lessThanOrEqual
  | greaterThan
  | greaterThanOrEqual
  | and
  | or
  deriving DecidableEq, Repr, Inhabited

namespace BinaryOperator

/-- Whether an operator computes a number from two numbers. -/
def isArithmetic : BinaryOperator → Bool
  | add | subtract | multiply | divide => true
  | _ => false

/-- The symbol of an operator. -/
def symbol : BinaryOperator → String
  | add => "+"
  | subtract => "-"
  | multiply => "*"
  | divide => "/"
  | equal => "="
  | notEqual => "!="
  | lessThan => "<"
  | lessThanOrEqual => "<="
  | greaterThan => ">"
  | greaterThanOrEqual => ">="
  | and => "AND"
  | or => "OR"

end BinaryOperator

/-- Operators on one expression. -/
inductive UnaryOperator where
  | not
  | minus
  | isNull
  | isNotNull
  deriving DecidableEq, Repr, Inhabited

end StreamQuery
