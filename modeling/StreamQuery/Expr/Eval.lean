import StreamQuery.Expr
import StreamQuery.Expr.Lookup
import StreamQuery.Value.Cast
import StreamQuery.Value.Order
set_option autoImplicit false

/-!
# Evaluation

An expression is evaluated against one record.  The logical operators are those of
three-valued logic, from left to right: the right operand is not evaluated where the
left one decides.  A comparison with NULL is NULL.  `IS NULL` takes a field that
cannot be read for NULL; every other operator passes an error on.
-/

namespace StreamQuery

/-! ## Three-valued logic -/

/-- A truth value that may be unknown. -/
abbrev Truth := Option Bool

namespace Truth

/-- Conjunction: false if either side is, unknown if it may still be false. -/
def and : Truth → Truth → Truth
  | some false, _ => some false
  | _, some false => some false
  | some true, some true => some true
  | _, _ => none

/-- Disjunction: true if either side is, unknown if it may still be true. -/
def or : Truth → Truth → Truth
  | some true, _ => some true
  | _, some true => some true
  | some false, some false => some false
  | _, _ => none

/-- Negation; the unknown stays unknown. -/
def not (t : Truth) : Truth := t.map (!·)

/-- A truth value as a value; the unknown is NULL. -/
def toValue : Truth → Value
  | some b => .boolean b
  | none => .null

end Truth

/-- The truth value of a value; NULL is unknown. -/
def Value.truth : Value → Outcome Truth
  | .null => .ok none
  | v => v.asBool.map some

/-! ## Comparison -/

/-- The orders of two operands under which a comparison is true. -/
def BinaryOperator.accepts (op : BinaryOperator) (o : Ordering) : Bool :=
  match op with
  | .lessThan => o == .lt
  | .lessThanOrEqual => o != .gt
  | .greaterThan => o == .gt
  | .greaterThanOrEqual => o != .lt
  | _ => false

/-- The truth of a comparison of two values. -/
def Value.comparison (op : BinaryOperator) (l r : Value) : Outcome Value :=
  if l.isNull ∨ r.isNull then .ok null
  else match op with
    | .equal => .ok (boolean (l.equals r))
    | .notEqual => .ok (boolean (!l.equals r))
    | _ => (Value.compare l r).map fun o => boolean (op.accepts o)

/-! ## Expressions -/

namespace Expr

/-- The value of an expression on a record, with names resolved by `lookup`. -/
def eval (lookup : Lookup) (r : Record) : Expr → Outcome Value
  | column name => lookup name r
  | literal text kind => Value.ofLiteral text kind
  | nested inner => inner.eval lookup r
  | cast operand kind => do
    let v ← operand.eval lookup r
    v.cast kind
  | sizeOf field => do
    let v ← lookup field r
    v.size
  | unary .minus operand => do
    let v ← operand.eval lookup r
    v.negate
  | unary .not operand => do
    let v ← operand.eval lookup r
    let t ← v.truth
    return t.not.toValue
  | unary .isNull operand =>
    match operand.eval lookup r with
    | .ok v => .ok (.boolean v.isNull)
    | .error e => if e.isLookup then .ok (.boolean true) else .error e
  | unary .isNotNull operand =>
    match operand.eval lookup r with
    | .ok v => .ok (.boolean !v.isNull)
    | .error e => if e.isLookup then .ok (.boolean false) else .error e
  | binary left .and right => do
    let l ← left.eval lookup r
    let a ← l.truth
    if a = some false then return .boolean false
    let v ← right.eval lookup r
    let b ← v.truth
    return (a.and b).toValue
  | binary left .or right => do
    let l ← left.eval lookup r
    let a ← l.truth
    if a = some true then return .boolean true
    let v ← right.eval lookup r
    let b ← v.truth
    return (a.or b).toValue
  | binary left op right => do
    let l ← left.eval lookup r
    let v ← right.eval lookup r
    if op.isArithmetic then Value.arithmetic op l v else Value.comparison op l v

/-- Whether a predicate holds on a record; NULL counts as false. -/
def holds (e : Expr) (r : Record) : Outcome Bool := do
  match ← e.eval Record.lookup r with
  | .null => return false
  | v => v.asBool

/-- The value of an expression on a record, where one that cannot be evaluated is NULL. -/
def evalOrNull (lookup : Lookup) (r : Record) (e : Expr) : Value :=
  match e.eval lookup r with
  | .ok v => v
  | .error _ => .null

end Expr

end StreamQuery
