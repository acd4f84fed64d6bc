import StreamQuery.Settings
import StreamQuery.Yaml.Document
set_option autoImplicit false

/-!
# Settings documents

Settings are kept in YAML documents, as one flat mapping from their names to their
values; an empty document leaves all settings at their defaults.  Numbers are plain
scalars, in decimal or with a mark for their base.  A policy is named by a scalar, or
by the tag of an empty one.
-/

namespace StreamQuery.Settings

/-! ## Numbers -/

/-- The tag of integers. -/
def integerTag : Bytes := "tag:yaml.org,2002:int".toList.map Yaml.byteOf

/-- Whether a scalar can be a number: a plain one, or a block of lines that has the tag of
integers. -/
def mayBeNumber (s : Yaml.Scalar) : Bool :=
  match s.style with
  | .plain => true
  | .literal => s.tag == some integerTag
  | _ => false

/-- The natural number that a text stands for: in decimal without needless zeros, or with a mark for
the base sixteen, eight or two. -/
def readNumber? (cs : List Char) : Option Nat :=
  let digits := match cs with
    | '+' :: rest => rest
    | cs => cs
  match digits with
  | '0' :: 'x' :: rest => Numeric.readRadix? 16 rest
  | '0' :: 'o' :: rest => Numeric.readRadix? 8 rest
  | '0' :: 'b' :: rest => Numeric.readRadix? 2 rest
  | ['0'] => some 0
  | '0' :: _ => none
  | ds => Numeric.readRadix? 10 ds

/-- The natural number of 64 bits that a scalar stands for. -/
def numberOf? (s : Yaml.Scalar) : Option Nat :=
  if mayBeNumber s then (readNumber? s.text).filter fun n => decide (n < Numeric.word64Bound)
  else none

/-! ## Policies -/

/-- The name that the tag of a scalar gives to it: what follows an exclamation mark, if that is a
text. -/
def nameOfTag? (s : Yaml.Scalar) : Option String :=
  match s.tag with
  | some (mark :: rest) =>
    if mark = Yaml.byteOf '!' then Bytes.toString? (if rest = [] then [mark] else rest) else none
  | _ => none

/-- Whether a scalar has no content besides its tag. -/
def isNothing (s : Yaml.Scalar) : Bool :=
  s.text.isEmpty || (s.style == .plain
    && ["null", "Null", "NULL", "~"].any fun word => word.toList == s.text)

/-- The policy that a scalar names. -/
def policyOf? (s : Yaml.Scalar) : Option NullPolicy :=
  match nameOfTag? s with
  | some name => if isNothing s then NullPolicy.ofName? name else none
  | none => NullPolicy.ofName? (String.ofList s.text)

/-! ## Documents -/

/-- An entry of a document: the name of a setting and its value. -/
abbrev Entry := List Char × Yaml.Scalar

/-- The value of a setting among entries, where it is one of them; no setting may stand twice. -/
def entryNamed? {α : Type} (name : String) (read : Yaml.Scalar → Option α) (absent : α)
    (entries : List Entry) : Option α :=
  match entries.filter fun e => e.1 == name.toList with
  | [] => some absent
  | [e] => read e.2
  | _ => none

/-- Settings from the entries of a document; there may be no entries but settings. -/
def ofEntries? (entries : List Entry) : Option Settings :=
  if entries.all fun e => fieldNames.any fun f => f.1.toList == e.1 then do
    let d : Settings := {}
    let nullPolicy ← entryNamed? "null_policy" policyOf? d.nullPolicy entries
    let countDistinctEntries ←
      entryNamed? "count_distinct_entries" numberOf? d.countDistinctEntries entries
    let groupEntries ← entryNamed? "group_entries" numberOf? d.groupEntries entries
    let maxResultRecords ← entryNamed? "max_result_records" numberOf? d.maxResultRecords entries
    return { nullPolicy, countDistinctEntries, groupEntries, maxResultRecords }
  else none

/-- Settings from a document. -/
def ofDocument? (d : Yaml.Document) : Option Settings :=
  d.scalars?.bind fun entries => ofEntries? (entries.map fun e => (e.1.text, e.2))

/-- Valid settings from the text of a document. -/
def parseDocument (text : String) : Outcome Settings :=
  match (Yaml.Document.parse text).bind ofDocument? with
  | some s => s.validated
  | none => .error (.configuration .malformedSettings)

/-- Valid settings from a file whose content, or the reason why it cannot be read, is given. -/
def parseFile (path : String) (content : Except String String) : Outcome Settings :=
  match content with
  | .ok text => parseDocument text
  | .error reason => .error (.configuration (.unreadableFile path reason))

end StreamQuery.Settings
