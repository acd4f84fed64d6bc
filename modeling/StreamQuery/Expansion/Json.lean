import StreamQuery.Expansion
import StreamQuery.Expr.Json
set_option autoImplicit false

/-!
# Expansions in JSON

An expansion is written as an alternative declared by a tag, with a specification that
is an object.
-/

namespace StreamQuery.Expansion

/-- An expansion as JSON. -/
def toJson : Expansion → Json
  | explode source keyAlias valueAlias outer =>
    .ofTagged "type" "EXPLODE" "spec" (.ofMembers
      [("field", source.toJson), ("key_alias", .ofString keyAlias),
        ("value_alias", .ofOption .ofString valueAlias), ("outer", .boolean outer)])
  | lateralView inner outer =>
    .ofTagged "type" "LATERAL_VIEW" "spec" (.ofMembers
      [("inner", inner.toJson), ("outer", .boolean outer)])

/-- Reads an alias that may be null or left out. -/
def readAlias : Option Json → Option (Option String)
  | none => some none
  | some j => j.asOptional? Json.asString?

/-- Reads a truth value that is false when it is left out. -/
def readFlag : Option Json → Option Bool
  | none => some false
  | some j => j.asBool?

/-- The fields of the specification of an EXPLODE. -/
def explodeFields : List (String × Json.Presence) :=
  [("field", .required), ("key_alias", .required), ("value_alias", .optional),
    ("outer", .optional)]

/-- Reads an expansion. -/
def ofJson? (r : Json.Reading) (j : Json) : Option Expansion :=
  match _ht : j.tagged? r ["EXPLODE", "LATERAL_VIEW"] "type" "spec" with
  | some ("EXPLODE", r, spec) =>
    match spec.namedFields? explodeFields with
    | some [some source, some keyAlias, valueAlias, outer] => do
      let source ← Expr.ofJson? r source
      let keyAlias ← keyAlias.asString?
      let valueAlias ← readAlias valueAlias
      let outer ← readFlag outer
      return explode source keyAlias valueAlias outer
    | _ => none
  | some ("LATERAL_VIEW", r, spec) =>
    match _hf : spec.namedFields? [("inner", .required), ("outer", .optional)] with
    | some [some inner, outer] => do
      let inner ← ofJson? r inner
      let outer ← readFlag outer
      return lateralView inner outer
    | _ => none
  | _ => none
termination_by SizeOf.sizeOf j
decreasing_by
  exact Nat.lt_trans (Json.sizeOf_lt_of_namedFields? _hf (by simp))
    (Json.sizeOf_lt_of_tagged? _ht)

end StreamQuery.Expansion
