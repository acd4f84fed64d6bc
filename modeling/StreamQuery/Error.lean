import StreamQuery.Kind
import StreamQuery.Measure
set_option autoImplicit false

/-!
# Errors

An operation fails for a cause, and this module alone words the causes.  A fault
that is `stated` carries wording of its own; it lets callers report faults that
this library does not know.
-/

namespace StreamQuery

/-! ## Faults -/

/-- Why settings, an aggregate, a stage or an expansion were refused. -/
inductive ConfigurationFault where
  | unknownNullPolicy (text : String)
  | entriesNotANumber (variableName text : String)
  | entriesOutOfRange (setting : String) (least entries : Nat)
  | unreadableFile (path reason : String)
  | malformedSettings
  | unknownMeasure (text : String)
  | internalMeasure (measure : Measure)
  | measureWithoutField (measure : Measure)
  | measureWithoutName (measure : Measure)
  | emptyGroupBy
  | blankOutputName
  | duplicateOutputName (name : String)
  | emptyCountDistinct
  | nothingComputed (stage : String)
  | blankComputedName (stage : String)
  | noSortKey (stage : String)
  | blankCulledName (stage : String)
  | noKeyAlias
  | blankValueAlias
  | equalAliases
  | nestedLateralView
  | stated (message : String)
  deriving DecidableEq, Repr

/-- Why a field has no value in a record. -/
inductive LookupFault where
  | absent
  | noKey (segment : String)
  | noIndex (segment : String)
  | notIndexable (kind : Kind)
  | kindDiffers (declared held : Kind)
  | stated (message : String)
  deriving DecidableEq, Repr

/-- What went wrong while a query ran. -/
inductive ExecutionFault where
  | divisionByZero
  | invalidLiteral (kind : Kind) (text : String)
  | sizeTooLarge (size : Nat)
  | nullField (field : String) (measure : Measure)
  | stated (message : String)
  deriving DecidableEq, Repr

/-- Why a serialised sketch was refused. -/
inductive SketchFault where
  | payloadTooLarge (size : Nat)
  | truncatedHeader
  | truncatedPayload (needed present : Nat)
  | undecodable
  | noResult
  | stated (message : String)
  deriving DecidableEq, Repr

/-- Why an operation failed. -/
inductive QueryError where
  /-- A value of the wrong kind, with the text of the value where one is to blame. -/
  | typeMismatch (expected actual : String) (value : Option String)
  /-- An operation that is not defined for its operand. -/
  | unsupported (operation operand : String)
  | configuration (fault : ConfigurationFault)
  | lookup (field : String) (fault : LookupFault)
  | execution (fault : ExecutionFault) (query : Option String)
  | sketch (fault : SketchFault)
  deriving DecidableEq, Repr

/-- The outcome of an operation that may fail. -/
abbrev Outcome (α : Type) := Except QueryError α

/-- What is read off an answer tells that there is one. -/
theorem Outcome.exists_of_map_eq_ok {α β : Type} {x : Outcome α} {f : α → β} {b : β}
    (h : x.map f = .ok b) : ∃ a, x = .ok a ∧ f a = b := by
  cases x with
  | error e => cases h
  | ok a => exact ⟨a, rfl, Except.ok.inj h⟩

/-! ## Wording -/

/-- The wording of a configuration fault. -/
def ConfigurationFault.message : ConfigurationFault → String
  | .unknownNullPolicy text => s!"Unknown null policy '{text}', expected 'skip' or 'fail_fast'"
  | .entriesNotANumber variableName text =>
    s!"{variableName} must be a positive integer, got '{text}'"
  | .entriesOutOfRange setting least entries =>
    s!"{setting} must be a power of two >= {least}, got {entries}"
  | .unreadableFile path reason => s!"Failed to read config file {path}: {reason}"
  | .malformedSettings => "Invalid engine configuration"
  | .unknownMeasure text => s!"Unsupported group operation '{text}'"
  | .internalMeasure measure => s!"{measure.name} is not a requestable operation"
  | .measureWithoutField measure => s!"{measure.name} requires a field"
  | .measureWithoutName measure => s!"{measure.name} requires an output name"
  | .emptyGroupBy => "GROUP BY needs at least one key or operation"
  | .blankOutputName => "GROUP BY output names cannot be blank"
  | .duplicateOutputName name => s!"Duplicate GROUP BY output name '{name}'"
  | .emptyCountDistinct => "COUNT DISTINCT needs at least one field"
  | .nothingComputed stage => s!"{stage} needs at least one field"
  | .blankComputedName stage => s!"{stage} field names cannot be blank"
  | .noSortKey stage => s!"{stage} needs at least one sort key"
  | .blankCulledName stage => s!"{stage} needs non-blank field names"
  | .noKeyAlias => "EXPLODE needs a key alias"
  | .blankValueAlias => "EXPLODE value alias cannot be blank"
  | .equalAliases => "EXPLODE key and value aliases must differ"
  | .nestedLateralView => "LATERAL VIEW cannot wrap another LATERAL VIEW"
  | .stated message => message

/-- The wording of a lookup fault. -/
def LookupFault.message : LookupFault → String
  | .absent => "field not present in record"
  | .noKey segment => s!"map has no key '{segment}'"
  | .noIndex segment => s!"list has no index '{segment}'"
  | .notIndexable kind => s!"cannot index into {kind.name}"
  | .kindDiffers declared held => s!"schema declares {declared.name}, record holds {held.name}"
  | .stated message => message

/-- The wording of an execution fault. -/
def ExecutionFault.message : ExecutionFault → String
  | .divisionByZero => "Division by zero"
  | .invalidLiteral kind text => s!"Invalid {kind.name} literal: {text}"
  | .sizeTooLarge size => s!"Size {size} exceeds INTEGER"
  | .nullField field measure => s!"NULL value for field '{field}' in {measure.name}"
  | .stated message => message

/-- The wording of a sketch fault. -/
def SketchFault.message : SketchFault → String
  | .payloadTooLarge size => s!"Summary payload of {size} bytes is too large"
  | .truncatedHeader => "Truncated summary header"
  | .truncatedPayload needed present =>
    s!"Truncated summary payload: need {needed} bytes, have {present}"
  | .undecodable => "Failed to decode summary"
  | .noResult => "Sketch has no merged result"
  | .stated message => message

namespace QueryError

/-- The message of an error. -/
def message : QueryError → String
  | typeMismatch expected actual value =>
    let suffix := match value with
      | some text => s!" for value '{text}'"
      | none => ""
    s!"Type error: expected {expected}, got {actual}{suffix}"
  | unsupported operation operand => s!"Unsupported operation {operation} on {operand}"
  | configuration fault => s!"Configuration error: {fault.message}"
  | lookup field fault => s!"Lookup error for field '{field}': {fault.message}"
  | execution fault query =>
    let suffix := match query with
      | some text => s!" (in '{text}')"
      | none => ""
    s!"Query execution error: {fault.message}{suffix}"
  | sketch fault => s!"Sketch error: {fault.message}"

/-- A field that could not be read. -/
def isLookup : QueryError → Bool
  | lookup .. => true
  | _ => false

/-- A value whose kind does not suit the operation. -/
def isType : QueryError → Bool
  | typeMismatch .. | unsupported .. => true
  | _ => false

/-- A declaration that was refused. -/
def isConfiguration : QueryError → Bool
  | configuration .. => true
  | _ => false

/-- Integral division by zero. -/
def divisionByZero : QueryError := execution .divisionByZero none

end QueryError

/-! ## Kinds by name -/

/-- Reads the name of a kind, in any case. -/
def Kind.parse (text : String) : Outcome Kind :=
  let capitals := Text.upper text
  match Kind.ofCapitals? capitals with
  | some kind => .ok kind
  | none => .error (.typeMismatch "a field kind" "unknown" (some capitals))

/-- The kind in which two numbers meet: the wider of their kinds. -/
def Kind.wider (left right : Kind) : Outcome Kind :=
  match left.rank?, right.rank? with
  | some l, some r => .ok (if r ≤ l then left else right)
  | none, _ => .error (.typeMismatch "numeric" left.name none)
  | _, none => .error (.typeMismatch "numeric" right.name none)

end StreamQuery
