import StreamQuery.Json.Decode
set_option autoImplicit false

/-!
# Alternatives in JSON

A choice among alternatives is the name of the alternative, or an object whose only
member is that name with the content.  Where the alternatives are declared by a tag,
it is an object with the tag and the content as two members, or an array of the two.

A text is read as it goes by, or parsed into a tree that is read later.  Content that
stands before its tag has to be kept until the tag is known, so all of it must be
readable.  The three ways differ a little in what they take for the content of an
alternative.
-/

namespace StreamQuery.Json

/-- How a value comes to its reader. -/
inductive Reading where
  /-- As its text goes by. -/
  | direct
  /-- From a tree that was parsed before. -/
  | parsed
  /-- From what was kept of it until its tag was known. -/
  | kept
  deriving DecidableEq, Repr, Inhabited

/-! ## Alternatives by name -/

/-- The name of an alternative and its content, where it has one. -/
def variant? : Json → Option (String × Option Json)
  | string name => (decodeText? name).map fun name => (name, none)
  | object [(name, content)] => (decodeText? name).map fun name => (name, some content)
  | _ => none

/-- Whether a value stands for no content: null does, and when kept also an empty object. -/
def isNoContent (r : Reading) : Json → Bool
  | null => true
  | object [] => r == .kept
  | _ => false

/-- The name of an alternative without content. -/
def unitVariant? (r : Reading) (j : Json) : Option String :=
  match j.variant? with
  | some (name, none) => some name
  | some (name, some content) => if content.isNoContent r then some name else none
  | none => none

/-- One of the alternatives without content. -/
def asName? {α : Type} (r : Reading) (ofName : String → Option α) (j : Json) : Option α :=
  (j.unitVariant? r).bind ofName

/-- The fields of a structure that is the content of an alternative; in a tree it is an object. -/
def contentFields? (r : Reading) (fields : List (String × Presence)) (j : Json) :
    Option (List (Option Json)) :=
  if r = .parsed then j.namedFields? fields else j.fields? fields

/-- An alternative with its content. -/
def ofVariant (name : String) (content : Json) : Json := ofMembers [(name, content)]

/-! ## Alternatives by a tag -/

mutual

/-- Whether a value can be kept: it is nowhere too deep, its strings are texts, and its numbers are
in range. -/
def isReadable : Json → Bool
  | null => true
  | boolean _ => true
  | number lexeme => (lexemeDouble? lexeme).isSome
  | string lexeme => (decodeText? lexeme).isSome
  | array items => areItemsReadable items
  | object members => areMembersReadable members
  | tooDeep => false

/-- Whether all items of an array can be kept. -/
def areItemsReadable : List Json → Bool
  | [] => true
  | j :: rest => isReadable j && areItemsReadable rest

/-- Whether all members of an object can be kept. -/
def areMembersReadable : List (Bytes × Json) → Bool
  | [] => true
  | (name, j) :: rest => (decodeText? name).isSome && isReadable j && areMembersReadable rest

end

/-- The tag of an alternative that is written as an array.  When kept, the place of the alternative
among all of them serves too. -/
def itemTag? (r : Reading) (names : List String) : Json → Option String
  | string lexeme => decodeText? lexeme
  | number lexeme =>
    if r = .kept then
      (lexemeInt? lexeme).bind fun n => if 0 ≤ n then names[n.toNat]? else none
    else none
  | _ => none

/-- The tag, the content and how the content is read, from the members with the names of the two. -/
def taggedMembers? (r : Reading) (tag : String) :
    List (String × Json) → Option (String × Reading × Json)
  | [(first, a), (second, b)] =>
    if first = tag ∧ second ≠ tag then (a.unitVariant? r).map fun name => (name, r, b)
    else if first ≠ tag ∧ second = tag ∧ a.isReadable then
      (b.unitVariant? r).map fun name => (name, .kept, a)
    else none
  | _ => none

/-- The tag of an alternative that is declared by one, with the content and how it is read.
`names` are those of all alternatives. -/
def tagged? (r : Reading) (names : List String) (tag content : String) :
    Json → Option (String × Reading × Json)
  | array [t, c] => (itemTag? r names t).map fun name => (name, r, c)
  | j => do
    let members ← j.asMembers?
    taggedMembers? r tag (members.filter fun m => m.1 == tag || m.1 == content)

/-- An alternative declared by a tag. -/
def ofTagged (tag name content : String) (j : Json) : Json :=
  ofMembers [(tag, ofString name), (content, j)]

/-! ## Contents are smaller than the whole -/

/-- The content of an alternative is smaller than the alternative. -/
theorem sizeOf_lt_of_variant? {j c : Json} {name : String}
    (h : j.variant? = some (name, some c)) : sizeOf c < sizeOf j := by
  unfold variant? at h
  split at h
  · obtain ⟨n, _, hn⟩ := Option.map_eq_some_iff.1 h
    cases hn
  · obtain ⟨n, _, hn⟩ := Option.map_eq_some_iff.1 h
    cases hn
    simp
    omega
  · cases h

/-- A field is smaller than the content that has it. -/
theorem sizeOf_lt_of_contentFields? {r : Reading} {fields : List (String × Presence)} {j c : Json}
    {found : List (Option Json)} (h : j.contentFields? r fields = some found)
    (hc : some c ∈ found) : sizeOf c < sizeOf j := by
  unfold contentFields? at h
  split at h
  · exact sizeOf_lt_of_namedFields? h hc
  · exact sizeOf_lt_of_fields? h hc

/-- The content of an alternative declared by a tag is the value of a member. -/
theorem mem_of_taggedMembers? {r s : Reading} {tag name : String} {members : List (String × Json)}
    {c : Json} (h : taggedMembers? r tag members = some (name, s, c)) :
    ∃ n, (n, c) ∈ members := by
  unfold taggedMembers? at h
  split at h
  · rename_i first a second b
    split at h
    · obtain ⟨n, _, hn⟩ := Option.map_eq_some_iff.1 h
      cases hn
      exact ⟨second, by simp⟩
    · split at h
      · obtain ⟨n, _, hn⟩ := Option.map_eq_some_iff.1 h
        cases hn
        exact ⟨first, by simp⟩
      · cases h
  · cases h

/-- The content of an alternative declared by a tag is smaller than the alternative. -/
theorem sizeOf_lt_of_tagged? {r s : Reading} {names : List String} {tag content name : String}
    {j c : Json} (h : j.tagged? r names tag content = some (name, s, c)) :
    sizeOf c < sizeOf j := by
  unfold tagged? at h
  split at h
  · obtain ⟨n, _, hn⟩ := Option.map_eq_some_iff.1 h
    cases hn
    simp
    omega
  · simp only [Option.bind_eq_bind, Option.bind_eq_some_iff] at h
    obtain ⟨members, hm, h⟩ := h
    obtain ⟨n, hn⟩ := mem_of_taggedMembers? h
    exact sizeOf_lt_of_mem_asMembers? hm (List.mem_filter.1 hn).1

end StreamQuery.Json
