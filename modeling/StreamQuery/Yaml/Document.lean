import StreamQuery.Yaml.Token
set_option autoImplicit false

/-!
# Documents of YAML text

A document is empty or one flat mapping of scalars.  A scalar may have an anchor, and
a reference to the anchor may stand in its place.  Directives give the version and
the meaning of the handles of tags.
-/

namespace StreamQuery.Yaml

/-- A scalar with what it was written with. -/
structure Scalar where
  text : List Char
  style : Style
  tag : Option Bytes
  deriving DecidableEq, Repr, Inhabited

/-- A key or a value. -/
inductive Node where
  | scalar (anchor : Option (List Char)) (s : Scalar)
  | reference (name : List Char)
  deriving DecidableEq, Repr, Inhabited

/-- A document. -/
structure Document where
  /-- The anchor of the whole. -/
  anchor : Option (List Char)
  entries : List (Node × Node)
  deriving DecidableEq, Repr, Inhabited

/-- The empty scalar. -/
def Scalar.empty (tag : Option Bytes) : Scalar := ⟨[], .plain, tag⟩

/-- A node that is left out. -/
def Node.empty : Node := .scalar none (.empty none)

/-! ## Tags -/

/-- The meaning of handles: the start of a tag for each. -/
abbrev Handles := List (List Char × Bytes)

/-- The meaning of the handles that need no directive. -/
def Handles.standard : Handles :=
  [(['!'], [byteOf '!']), (['!', '!'], "tag:yaml.org,2002:".toList.map byteOf)]

/-- The whole of a written tag. -/
def Handles.resolve? (handles : Handles) (t : WrittenTag) : Option Bytes :=
  if t.handle = [] then some t.rest else (handles.lookup t.handle).map (· ++ t.rest)

/-! ## Nodes -/

/-- The anchor and the tag at the front of some tokens, in either order, and what follows them. -/
def takeProperties (handles : Handles) :
    List Token → Option (Option (List Char) × Option Bytes × List Token)
  | .anchor name :: .tag t :: rest => do
    let tag ← handles.resolve? t
    return (some name, some tag, rest)
  | .tag t :: .anchor name :: rest => do
    let tag ← handles.resolve? t
    return (some name, some tag, rest)
  | .anchor name :: rest => some (some name, none, rest)
  | .tag t :: rest => do
    let tag ← handles.resolve? t
    return (none, some tag, rest)
  | rest => some (none, none, rest)

/-- The node at the front of some tokens, and what follows it.  A node that has an anchor or a tag
may lack a text; a lone exclamation mark is no tag of a text. -/
def takeNode (handles : Handles) : List Token → Option (Node × List Token)
  | .reference name :: rest => some (.reference name, rest)
  | ts => do
    let (anchor, tag, rest) ← takeProperties handles ts
    match rest with
    | .scalar text style :: rest =>
      return (.scalar anchor ⟨text, style, tag.filter (· != [byteOf '!'])⟩, rest)
    | rest =>
      if anchor.isSome ∨ tag.isSome then return (.scalar anchor (.empty tag), rest) else none

/-- The node at the front of some tokens unless one of the given tokens stands there; a node that is
left out is empty. -/
def takeNodeBefore (ends : List Token) (handles : Handles) (ts : List Token) :
    Option (Node × List Token) :=
  if ts.head?.any ends.contains then some (.empty, ts) else takeNode handles ts

/-- The value at the front of some tokens, which may be left out with its colon. -/
def takeValue (ends : List Token) (handles : Handles) : List Token → Option (Node × List Token)
  | .value :: rest => takeNodeBefore ends handles rest
  | rest => some (.empty, rest)

/-! ## Mappings -/

/-- The tokens before which a node of a mapping in lines may be left out. -/
def blockEnds : List Token := [.key, .value, .blockEnd]

/-- The entries of a mapping in lines, and what follows its end; at most `n` of them. -/
def takeBlockEntries (handles : Handles) : Nat → List Token →
    Option (List (Node × Node) × List Token)
  | 0, _ => none
  | _ + 1, .blockEnd :: rest => some ([], rest)
  | n + 1, .key :: rest => do
    let (key, rest) ← takeNodeBefore blockEnds handles rest
    let (value, rest) ← takeValue blockEnds handles rest
    let (entries, rest) ← takeBlockEntries handles n rest
    return ((key, value) :: entries, rest)
  | _ + 1, _ => none

/-- The tokens before which a value of a mapping between braces may be left out. -/
def flowEnds : List Token := [.comma, .flowEnd]

/-- An entry of a mapping between braces, and what follows it.  Without a colon it is a key only. -/
def takeFlowEntry (handles : Handles) : List Token → Option ((Node × Node) × List Token)
  | .key :: rest => do
    let (key, rest) ← takeNodeBefore (.value :: flowEnds) handles rest
    let (value, rest) ← takeValue flowEnds handles rest
    return ((key, value), rest)
  | ts => do
    let (key, rest) ← takeNode handles ts
    return ((key, .empty), rest)

/-- The entries of a mapping between braces, and what follows its end; at most `n` of them. -/
def takeFlowEntries (handles : Handles) : Nat → List Token →
    Option (List (Node × Node) × List Token)
  | 0, _ => none
  | _ + 1, .flowEnd :: rest => some ([], rest)
  | n + 1, ts => do
    let (entry, rest) ← takeFlowEntry handles ts
    match rest with
    | .comma :: rest =>
      let (entries, rest) ← takeFlowEntries handles n rest
      return (entry :: entries, rest)
    | .flowEnd :: rest => return ([entry], rest)
    | _ => none

/-! ## Documents -/

/-- The document at the front of some tokens, and what follows it. -/
def takeContent (handles : Handles) (ts : List Token) : Option (Document × List Token) := do
  let (anchor, tag, rest) ← takeProperties handles ts
  match rest with
  | .blockStart :: rest =>
    let (entries, rest) ← takeBlockEntries handles (rest.length + 1) rest
    return (⟨anchor, entries⟩, rest)
  | .flowStart :: rest =>
    let (entries, rest) ← takeFlowEntries handles (rest.length + 1) rest
    return (⟨anchor, entries⟩, rest)
  | .scalar .. :: _ => none
  | rest => if anchor.isSome ∨ tag.isSome then return (⟨anchor, []⟩, rest) else none

/-- The directives at the front of some tokens, and what follows them. -/
def takeDirectives : List Token → List Directive × List Token
  | .directive d :: rest => ((takeDirectives rest).1.cons d, (takeDirectives rest).2)
  | rest => ([], rest)

/-- The versions of some directives. -/
def versions (ds : List Directive) : List (Nat × Nat) :=
  ds.filterMap fun
    | .version major minor => some (major, minor)
    | .tagStart .. => none

/-- The handles of some directives. -/
def handlesOf (ds : List Directive) : Handles :=
  ds.filterMap fun
    | .tagStart handle start => some (handle, start)
    | .version .. => none

/-- The meaning of handles under some directives, which may give one version, 1.1 or 1.2, and each
handle once. -/
def Handles.of? (ds : List Directive) : Option Handles :=
  if (versions ds).length ≤ 1 ∧ (versions ds).all [(1, 1), (1, 2)].contains
      ∧ ((handlesOf ds).map (·.1)).Nodup then
    some (handlesOf ds ++ .standard)
  else none

/-- Whether a token comes before or after a document. -/
def isOutside : Token → Bool
  | .directive _ | .documentStart | .documentEnd => true
  | _ => false

/-- The document after a mark at its start, which may be empty. -/
def takeMarked (handles : Handles) (ts : List Token) : Option (Document × List Token) :=
  if ts.head?.all isOutside then some (⟨none, []⟩, ts) else takeContent handles ts

/-- The one document of some tokens, which may have a mark at its start, with directives before it,
and marks at its end. -/
def Document.ofTokens? (ts : List Token) : Option Document := do
  let (document, rest) ← match takeDirectives ts with
    | ([], []) => some (⟨none, []⟩, [])
    | (ds, .documentStart :: rest) => (Handles.of? ds).bind fun handles => takeMarked handles rest
    | ([], rest) => takeContent .standard rest
    | (_ :: _, _) => none
  if rest.dropWhile (· == .documentEnd) = [] then return document else none

/-- The one document of a text. -/
def Document.parse (text : String) : Option Document := (scan text.toList).bind ofTokens?

/-! ## References -/

namespace Document

/-- Everything in a document that may have an anchor, in the order of the text: the whole, which is
no scalar, then the keys and values. -/
def targets (d : Document) : List (Option (List Char) × Option Scalar) :=
  (d.anchor, none) :: d.entries.flatMap fun e => [e.1, e.2].map fun
    | .scalar anchor s => (anchor, some s)
    | .reference _ => (none, none)

/-- The number of an anchor is that of the different names before it, and what it stands for. -/
def numbered (seen : List (List Char)) :
    List (Option (List Char) × Option Scalar) → List (List Char × Nat × Option Scalar)
  | [] => []
  | (none, _) :: rest => numbered seen rest
  | (some name, s) :: rest =>
    (name, seen.length, s) :: numbered (if name ∈ seen then seen else name :: seen) rest

/-- What a reference means that stands behind the first `n` targets: the number of the last anchor
of that name before it, and of all anchors of that number the last one. -/
def meaning? (d : Document) (n : Nat) (name : List Char) : Option Scalar := do
  let before := numbered [] (d.targets.take n)
  let (_, number, _) ← before.reverse.find? fun a => a.1 == name
  let (_, _, s) ← (numbered [] d.targets).reverse.find? fun a => a.2.1 == number
  s

/-- The scalar that a node behind the first `n` targets means. -/
def scalar? (d : Document) (n : Nat) : Node → Option Scalar
  | .scalar _ s => some s
  | .reference name => d.meaning? n name

/-- The entries of a document with the scalars that its nodes mean. -/
def scalars? (d : Document) : Option (List (Scalar × Scalar)) :=
  (d.entries.zipIdx).mapM fun (e, i) => do
    let key ← d.scalar? (2 * i + 1) e.1
    let value ← d.scalar? (2 * i + 2) e.2
    return (key, value)

end Document

end StreamQuery.Yaml
