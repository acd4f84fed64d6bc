import StreamQuery.Expr.Eval
import StreamQuery.Text.Blank
set_option autoImplicit false

/-!
# Expansion

An expansion turns one record into any number of records.  EXPLODE makes a record of
every item of a list or entry of a map; LATERAL VIEW sets what another expansion
makes on top of the record it was made from.
-/

namespace StreamQuery

/-- An expansion of records. -/
inductive Expansion where
  /-- Items go under the key alias; the keys of entries do, and their values go under the value
  alias if there is one.  An outer expansion makes one record where there is nothing to expand. -/
  | explode (source : Expr) (keyAlias : String) (valueAlias : Option String) (outer : Bool)
  | lateralView (inner : Expansion) (outer : Bool)
  deriving DecidableEq, Repr, Inhabited

namespace Expansion

/-- Whether an expansion is a LATERAL VIEW. -/
def isLateralView : Expansion → Bool
  | explode .. => false
  | lateralView .. => true

/-- Whether a record is made where there is nothing to expand. -/
def isOuter : Expansion → Bool
  | explode _ _ _ outer => outer
  | lateralView _ outer => outer

/-- The name of the expansion at the bottom. -/
def baseName : Expansion → String
  | explode .. => "Explode"
  | lateralView inner _ => inner.baseName

/-- Checks the aliases of an EXPLODE. -/
def checkAliases (keyAlias : String) (valueAlias : Option String) : Outcome Unit :=
  if Text.isBlankText keyAlias then .error (.configuration .noKeyAlias)
  else if valueAlias.any Text.isBlankText then .error (.configuration .blankValueAlias)
  else if valueAlias = some keyAlias then .error (.configuration .equalAliases)
  else .ok ()

/-- Checks an expansion: a LATERAL VIEW may not be the inner one of another. -/
def validate : Expansion → Outcome Unit
  | explode _ keyAlias valueAlias _ => checkAliases keyAlias valueAlias
  | lateralView inner _ =>
    if inner.isLateralView then .error (.configuration .nestedLateralView)
    else inner.validate

/-- The record of an entry of a map. -/
def entryRow (keyAlias : String) (valueAlias : Option String) (entry : String × Value) : Record :=
  let row := Record.empty.set keyAlias (.string entry.1)
  match valueAlias with
  | some name => row.set name entry.2
  | none => row

/-- The records of the parts of a value; only lists and maps have parts. -/
def partRows (keyAlias : String) (valueAlias : Option String) : Value → List Record
  | .list items => items.map (Record.empty.set keyAlias)
  | .map entries => entries.map (entryRow keyAlias valueAlias)
  | _ => []

/-- The records of a list, or the given one where an outer expansion has none. -/
def orElse (outer : Bool) (otherwise : Record) (rows : List Record) : List Record :=
  if rows.isEmpty ∧ outer then [otherwise] else rows

/-- The records that an expansion makes of one. -/
def rows (r : Record) : Expansion → List Record
  | explode source keyAlias valueAlias outer =>
    orElse outer .empty (partRows keyAlias valueAlias (source.evalOrNull Record.lookup r))
  | lateralView inner outer => orElse outer r ((inner.rows r).map r.merge)

/-- Expands records by one expansion after another. -/
def expand (records : List Record) (expansions : List Expansion) : List Record :=
  expansions.foldl (fun records e => records.flatMap fun r => e.rows r) records

end Expansion

end StreamQuery
