import StreamQuery.Json.Token
set_option autoImplicit false

/-!
# JSON

A JSON value is a tree; `Json.bytes` writes it without blanks, and `Json.parseBytes`
reads it back.  Reading runs one machine over the tokens that holds the containers
which are still open.  It checks how a value is written and no more: numbers and
strings stay as they stand, and what is nested too deep to be of use is passed over.
-/

namespace StreamQuery

/-- A JSON value.  Numbers, strings and names are held as they are written.  The members of an
object stand in the order of the text, and a name may occur more than once. -/
inductive Json where
  | null
  | boolean (b : Bool)
  | number (lexeme : List Char)
  | string (lexeme : Bytes)
  | array (items : List Json)
  | object (members : List (Bytes × Json))
  /-- An array or object below the depth of nesting that can be read. -/
  | tooDeep
  deriving Inhabited

namespace Json

/-! ## Writing -/

mutual

/-- The tokens of a value; nothing is known of what was too deep. -/
def tokens : Json → List Token
  | null => [.null]
  | boolean b => [.boolean b]
  | number lexeme => [.number lexeme]
  | string lexeme => [.string lexeme]
  | array items => .openBracket :: itemTokens true items ++ [.closeBracket]
  | object members => .openBrace :: memberTokens true members ++ [.closeBrace]
  | tooDeep => [.null]

/-- The tokens of the items of an array, with a comma before every one but the first. -/
def itemTokens (first : Bool) : List Json → List Token
  | [] => []
  | j :: rest => (if first then [] else [.comma]) ++ j.tokens ++ itemTokens false rest

/-- The tokens of the members of an object. -/
def memberTokens (first : Bool) : List (Bytes × Json) → List Token
  | [] => []
  | (name, j) :: rest =>
    (if first then [] else [.comma]) ++ .string name :: .colon :: j.tokens
      ++ memberTokens false rest

end

/-- The bytes of a value. -/
def bytes (j : Json) : Bytes := j.tokens.flatMap Token.bytes

/-- The text of a value, which is empty when there are strings in it that are no texts. -/
def text (j : Json) : String := (Bytes.toString? j.bytes).getD ""

/-! ## Reading -/

/-- A container that is still open; what it holds so far is in reverse. -/
inductive Frame where
  | array (items : List Json)
  | object (members : List (Bytes × Json))
  /-- An object and the name whose value comes next. -/
  | member (members : List (Bytes × Json)) (name : Bytes)

/-- What may come next. -/
inductive Expectation where
  | value
  /-- After an opening bracket. -/
  | valueOrEnd
  /-- After an opening brace. -/
  | nameOrEnd
  /-- After a comma in an object. -/
  | name
  | colon (name : Bytes)
  /-- After a value inside a container. -/
  | commaOrEnd
  /-- After the outermost value. -/
  | nothing (j : Json)

/-- A reader: the open containers, the innermost first, and what may come next. -/
structure Reader where
  frames : List Frame
  next : Expectation

/-- Containers are read when they nest no deeper than this. -/
def depthLimit : Nat := 127

namespace Reader

/-- Takes a complete value into the innermost container. -/
def deliver (frames : List Frame) (j : Json) : Option Reader :=
  match frames with
  | [] => some ⟨[], .nothing j⟩
  | .array items :: outer => some ⟨.array (j :: items) :: outer, .commaOrEnd⟩
  | .member members name :: outer => some ⟨.object ((name, j) :: members) :: outer, .commaOrEnd⟩
  | .object _ :: _ => none

/-- Takes a complete container into the one around it, if it is not too deep. -/
def deliverContainer (outer : List Frame) (j : Json) : Option Reader :=
  deliver outer (if outer.length < depthLimit then j else .tooDeep)

/-- Takes the first token of a value. -/
def startValue (frames : List Frame) : Token → Option Reader
  | .null => deliver frames .null
  | .boolean b => deliver frames (.boolean b)
  | .number lexeme => deliver frames (.number lexeme)
  | .string lexeme => deliver frames (.string lexeme)
  | .openBracket => some ⟨.array [] :: frames, .valueOrEnd⟩
  | .openBrace => some ⟨.object [] :: frames, .nameOrEnd⟩
  | _ => none

/-- Closes the innermost container, which must be an array. -/
def closeArray : List Frame → Option Reader
  | .array items :: outer => deliverContainer outer (.array items.reverse)
  | _ => none

/-- Closes the innermost container, which must be an object. -/
def closeObject : List Frame → Option Reader
  | .object members :: outer => deliverContainer outer (.object members.reverse)
  | _ => none

/-- Goes on in the innermost container after a comma. -/
def afterComma (frames : List Frame) : Option Reader :=
  match frames with
  | .array _ :: _ => some ⟨frames, .value⟩
  | .object _ :: _ => some ⟨frames, .name⟩
  | _ => none

/-- Goes on after the colon that follows a name. -/
def afterColon (name : Bytes) : List Frame → Option Reader
  | .object members :: outer => some ⟨.member members name :: outer, .value⟩
  | _ => none

/-- Takes one token. -/
def step (r : Reader) (t : Token) : Option Reader :=
  match r.next, t with
  | .value, t => startValue r.frames t
  | .valueOrEnd, .closeBracket => closeArray r.frames
  | .valueOrEnd, t => startValue r.frames t
  | .nameOrEnd, .closeBrace => closeObject r.frames
  | .nameOrEnd, .string name => some ⟨r.frames, .colon name⟩
  | .name, .string name => some ⟨r.frames, .colon name⟩
  | .colon name, .colon => afterColon name r.frames
  | .commaOrEnd, .comma => afterComma r.frames
  | .commaOrEnd, .closeBracket => closeArray r.frames
  | .commaOrEnd, .closeBrace => closeObject r.frames
  | _, _ => none

/-- The value that was read, once it is complete. -/
def result? (r : Reader) : Option Json :=
  match r.next with
  | .nothing j => some j
  | _ => none

end Reader

/-- The value of a row of tokens. -/
def ofTokens? (ts : List Token) : Option Json :=
  (ts.foldlM Reader.step ⟨[], .value⟩).bind Reader.result?

/-- Reads a byte string. -/
def parseBytes (bs : Bytes) : Option Json := (scan bs).bind ofTokens?

/-- Reads a text. -/
def parse (s : String) : Option Json := parseBytes (Bytes.ofString s)

end Json

end StreamQuery
