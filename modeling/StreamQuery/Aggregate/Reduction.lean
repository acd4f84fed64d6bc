import StreamQuery.Aggregate
import StreamQuery.Value.Order
set_option autoImplicit false

/-!
# Reductions

A measure turns the value of a field into a contribution and folds contributions
into a running value.  NULL as a running value means that nothing has contributed
yet, and is neutral for every measure.
-/

namespace StreamQuery

namespace Value

/-- A numeric value in the 64-bit kind of its family, in which sums are formed. -/
def widenForSum : Value → Value
  | integer n => long n.toInt64
  | float x => double (Numeric.widen x)
  | other => other

/-- An average from a sum and a count; NULL when nothing was counted. -/
def average (sum count : Value) : Value :=
  match sum.toDouble?, count.toDouble? with
  | some s, some c => if c.datum.isPositive then double (s / c) else null
  | _, _ => null

/-- An estimate rounded to a LONG, halves upwards; zero unless it is finite and positive. -/
def ofEstimate (estimate : Numeric.Double) : Value :=
  match estimate.datum with
  | .finite false significand scale =>
    let n := (Numeric.Datum.finite false significand scale).roundHalfUp
    long (Int64.ofNat (min n (2 ^ 63 - 1)))
  | _ => long 0

end Value

namespace Measure

/-- The running value before the first contribution. -/
def initial : Measure → Value
  | count | countField => .long 0
  | _ => .null

/-- What the value of a field adds to the running value, if anything. -/
def contribution (m : Measure) (v : Value) : Outcome (Option Value) :=
  match m with
  | count => .ok (some (.long 1))
  | _ =>
    if v.isNull then .ok none
    else match m with
      | countField => .ok (some (.long 1))
      | _ =>
        if v.isNumeric then
          .ok (some (match m with
            | sum | avg => v.widenForSum
            | _ => v))
        else .error (.typeMismatch "numeric" v.kind.name (some v.text))

/-- Folds an incoming value into the running one. -/
def reduce (m : Measure) (current incoming : Value) : Outcome Value :=
  if incoming.isNull then .ok current
  else if current.isNull then .ok incoming
  else match m with
    | count | countField | sum | avg => current.add incoming
    | min => (Value.compare incoming current).map fun o => if o = .lt then incoming else current
    | max => (Value.compare incoming current).map fun o => if o = .gt then incoming else current

end Measure

end StreamQuery
