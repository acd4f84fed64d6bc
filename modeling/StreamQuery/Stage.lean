import StreamQuery.Expr.Eval
import StreamQuery.MergeSort
import StreamQuery.Text.Blank
set_option autoImplicit false

/-!
# Stages

A stage transforms a finished batch: HAVING keeps the records that satisfy a
predicate, COMPUTATION sets fields, ORDER BY sorts, and CULLING removes fields.
-/

namespace StreamQuery

/-- The kinds of stages. -/
inductive StageKind where
  | having
  | computation
  | orderBy
  | culling
  deriving DecidableEq, Repr, Inhabited

namespace StageKind

/-- The kinds of stages, in the order in which they run. -/
def all : List StageKind := [having, computation, orderBy, culling]

/-- The name of a kind of stage. -/
def name : StageKind → String
  | having => "HAVING"
  | computation => "COMPUTATION"
  | orderBy => "ORDER BY"
  | culling => "CULLING"

/-- The place of a kind of stage in the order in which stages run. -/
def priority : StageKind → Nat
  | having => 0
  | computation => 1
  | orderBy => 2
  | culling => 3

end StageKind

/-- The direction of a sort key. -/
inductive Direction where
  | ascending
  | descending
  deriving DecidableEq, Repr, Inhabited

/-- A field that is computed from the others. -/
structure ComputedField where
  name : String
  expression : Expr
  deriving DecidableEq, Repr, Inhabited

/-- A key to sort by. -/
structure SortKey where
  expression : Expr
  direction : Direction
  deriving DecidableEq, Repr, Inhabited

/-- A stage. -/
inductive Stage where
  | having (predicate : Expr)
  | computation (fields : List ComputedField)
  | orderBy (sortKeys : List SortKey)
  | culling (fields : List String)
  deriving DecidableEq, Repr, Inhabited

/-! ## Computation -/

namespace ComputedField

/-- Sets a computed field in a record. -/
def setIn (r : Record) (f : ComputedField) : Outcome Record :=
  (f.expression.eval Record.lookup r).map (r.set f.name)

/-- Sets computed fields one after another, so that a later one can read an earlier one. -/
def setAll (fields : List ComputedField) (r : Record) : Outcome Record := fields.foldlM setIn r

end ComputedField

/-! ## Sorting -/

namespace SortKey

/-- The order of two values of a sort key.  NULL comes first in both directions, and values that
cannot be compared count as equal. -/
def order (k : SortKey) (l r : Value) : Ordering :=
  match Value.compareWithNulls .first l r with
  | .error _ => .eq
  | .ok o =>
    if l.isNull ∨ r.isNull then o
    else match k.direction with
      | .ascending => o
      | .descending => o.swap

/-- The order of two rows of values: that of the first sort key under which they differ. -/
def orderRows : List SortKey → List Value → List Value → Ordering
  | k :: ks, l :: ls, r :: rs => (k.order l r).then (orderRows ks ls rs)
  | _, _, _ => .eq

/-- The values of sort keys on a record; one that cannot be evaluated is NULL. -/
def row (ks : List SortKey) (r : Record) : List Value :=
  ks.map fun k => k.expression.evalOrNull Record.lookup r

/-- Sorts records. -/
def sort (ks : List SortKey) (records : List Record) : List Record :=
  (mergeSort (fun a b => orderRows ks a.1 b.1) (records.map fun r => (row ks r, r))).map (·.2)

end SortKey

/-! ## Stages -/

namespace Stage

/-- The kind of a stage. -/
def kind : Stage → StageKind
  | having _ => .having
  | computation _ => .computation
  | orderBy _ => .orderBy
  | culling _ => .culling

/-- Checks the declaration of a stage. -/
def validate (s : Stage) : Outcome Unit :=
  let stage := s.kind.name
  match s with
  | having _ => .ok ()
  | computation fields =>
    if fields.isEmpty then .error (.configuration (.nothingComputed stage))
    else if fields.any fun f => Text.isBlankText f.name then
      .error (.configuration (.blankComputedName stage))
    else .ok ()
  | orderBy sortKeys =>
    if sortKeys.isEmpty then .error (.configuration (.noSortKey stage)) else .ok ()
  | culling fields =>
    if fields.isEmpty ∨ fields.any Text.isBlankText then
      .error (.configuration (.blankCulledName stage))
    else .ok ()

/-- Whether a predicate lets a record pass: only if it evaluates, and to true. -/
def passes (predicate : Expr) (r : Record) : Bool :=
  match predicate.holds r with
  | .ok keep => keep
  | .error _ => false

/-- Runs a stage on a batch; its metadata stays as it is. -/
def run (b : Batch) : Stage → Outcome Batch
  | having predicate => .ok (b.filter (passes predicate))
  | computation fields => (b.records.mapM (ComputedField.setAll fields)).map b.withRecords
  | orderBy sortKeys => .ok (b.withRecords (SortKey.sort sortKeys b.records))
  | culling fields => .ok (b.withRecords (b.records.map fun r => r.removeAll fields.contains))

end Stage

end StreamQuery
