import StreamQuery.Error
import StreamQuery.Json.Alternative
import StreamQuery.Numeric.IntegerText
import StreamQuery.Text.Blank
import StreamQuery.Text.Letter
set_option autoImplicit false

/-!
# Settings

Settings are shared by all queries.  They start from defaults, may be overridden
by the environment, and are valid when both sketch capacities are powers of two
and not too small.
-/

namespace StreamQuery

/-- What an aggregate does with NULL in its field. -/
inductive NullPolicy where
  /-- The value adds nothing. -/
  | skip
  /-- The record is rejected. -/
  | failFast
  deriving DecidableEq, Repr, Inhabited

namespace NullPolicy

/-- The name of a policy in settings. -/
def name : NullPolicy → String
  | skip => "skip"
  | failFast => "fail_fast"

/-- The policy of a name as settings give it. -/
def ofName? : String → Option NullPolicy
  | "skip" => some skip
  | "fail_fast" => some failFast
  | _ => none

theorem ofName?_name (p : NullPolicy) : ofName? p.name = some p := by
  cases p <;> rfl

/-- Reads a policy as a person writes it: among blanks, in any case, with several spellings. -/
def parse (text : String) : Outcome NullPolicy :=
  match Text.lowerAscii (Text.trim text) with
  | "skip" => .ok skip
  | "fail_fast" | "fail-fast" | "failfast" => .ok failFast
  | other => .error (.configuration (.unknownNullPolicy other))

end NullPolicy

/-- The settings of queries. -/
structure Settings where
  nullPolicy : NullPolicy := .skip
  /-- The capacity of a COUNT DISTINCT sketch. -/
  countDistinctEntries : Nat := 16384
  /-- The capacity of a GROUP BY sketch. -/
  groupEntries : Nat := 512
  /-- The most records of a finished query; zero sets no limit. -/
  maxResultRecords : Nat := 0
  deriving DecidableEq, Repr, Inhabited

namespace Settings

/-- The least capacity of a sketch. -/
def leastEntries : Nat := 16

/-- Whether a number is a power of two. -/
def isPowerOfTwo (n : Nat) : Bool := n != 0 && 2 ^ n.log2 == n

/-- Checks the capacity of a sketch. -/
def checkEntries (setting : String) (entries : Nat) : Outcome Unit :=
  if entries < leastEntries ∨ isPowerOfTwo entries = false then
    .error (.configuration (.entriesOutOfRange setting leastEntries entries))
  else .ok ()

/-- Checks settings. -/
def validate (s : Settings) : Outcome Unit := do
  checkEntries "count_distinct_entries" s.countDistinctEntries
  checkEntries "group_entries" s.groupEntries

/-- Settings that are valid, or the reason why they are not. -/
def validated (s : Settings) : Outcome Settings := do
  s.validate
  return s

/-! ## The environment -/

/-- The variables that override settings. -/
def nullPolicyVariable : String := "VELOCORE_NULL_POLICY"

def countDistinctVariable : String := "VELOCORE_COUNT_DISTINCT_ENTRIES"

def groupVariable : String := "VELOCORE_GROUP_ENTRIES"

/-- Reads a capacity from a variable, which keeps its present value if the variable is not set. -/
def entriesFrom (environment : String → Option String) (variableName : String) (present : Nat) :
    Outcome Nat :=
  match environment variableName with
  | none => .ok present
  | some text =>
    match Numeric.readWord64? (Text.trimBlanks text.toList) with
    | some n => .ok n
    | none => .error (.configuration (.entriesNotANumber variableName text))

/-- Settings overridden by the variables of an environment, then checked. -/
def withEnvironment (s : Settings) (environment : String → Option String) : Outcome Settings := do
  let nullPolicy ← match environment nullPolicyVariable with
    | none => .ok s.nullPolicy
    | some text => NullPolicy.parse text
  let countDistinctEntries ← entriesFrom environment countDistinctVariable s.countDistinctEntries
  let groupEntries ← entriesFrom environment groupVariable s.groupEntries
  validated { s with nullPolicy, countDistinctEntries, groupEntries }

/-! ## JSON -/

/-- The names of the settings; each may be left out. -/
def fieldNames : List (String × Json.Presence) :=
  [("null_policy", .optional), ("count_distinct_entries", .optional),
    ("group_entries", .optional), ("max_result_records", .optional)]

/-- Settings as JSON. -/
def toJson (s : Settings) : Json :=
  .ofMembers [("null_policy", .ofString s.nullPolicy.name),
    ("count_distinct_entries", .ofNat s.countDistinctEntries),
    ("group_entries", .ofNat s.groupEntries),
    ("max_result_records", .ofNat s.maxResultRecords)]

/-- Whether every member of an object is a setting. -/
def onlySettings (j : Json) : Bool :=
  match j with
  | .object members => members.all fun m =>
    fieldNames.any fun f => Json.decodeText? m.1 == some f.1
  | _ => true

/-- A setting that may be left out. -/
def readSetting {α : Type} (read : Json → Option α) (absent : α) : Option Json → Option α
  | none => some absent
  | some j => read j

/-- Reads settings, which are not checked; those left out have their defaults, and there may be no
others. -/
def ofJson? (j : Json) : Option Settings :=
  if onlySettings j then
    match j.fields? fieldNames with
    | some [policy, countDistinct, group, most] => do
      let d : Settings := {}
      let nullPolicy ← readSetting (·.asName? .direct NullPolicy.ofName?) d.nullPolicy policy
      let countDistinctEntries ← readSetting Json.asNat? d.countDistinctEntries countDistinct
      let groupEntries ← readSetting Json.asNat? d.groupEntries group
      let maxResultRecords ← readSetting Json.asNat? d.maxResultRecords most
      return { nullPolicy, countDistinctEntries, groupEntries, maxResultRecords }
    | _ => none
  else none

end Settings

end StreamQuery
