import StreamQuery.Value.Arithmetic
set_option autoImplicit false

/-!
# Comparison

Numbers compare after widening, floating-point ones by the total order of their
format; texts compare by their characters, and `false` comes before `true`.  Any
other two values cannot be compared.  Equality is wider: it is defined between
all values, goes into lists and maps, and is false where no comparison exists.
-/

namespace StreamQuery

/-- Compares two numbers of one kind. -/
def NumberPair.compare : NumberPair → Ordering
  | .integers a b => Ord.compare a.toInt b.toInt
  | .longs a b => Ord.compare a.toInt b.toInt
  | .floats a b => Ord.compare a.key b.key
  | .doubles a b => Ord.compare a.key b.key

/-- Where NULL stands among the other values. -/
inductive NullPlacement where
  | first
  | last
  deriving DecidableEq, Repr, Inhabited

namespace Value

/-- Compares two values that are not NULL. -/
def compare : Value → Value → Outcome Ordering
  | string a, string b => .ok (Ord.compare a b)
  | boolean a, boolean b => .ok (Ord.compare a b)
  | l, r =>
    match NumberPair.of? l r with
    | some pair => .ok pair.compare
    | none => .error (.typeMismatch l.kind.name r.kind.name (some r.text))

/-- Compares two values, with NULL at one end. -/
def compareWithNulls (placement : NullPlacement) (l r : Value) : Outcome Ordering :=
  match l.isNull, r.isNull with
  | true, true => .ok .eq
  | true, false => .ok (match placement with | .first => .lt | .last => .gt)
  | false, true => .ok (match placement with | .first => .gt | .last => .lt)
  | false, false => compare l r

mutual

/-- Equality of values, numbers after widening. -/
def equals : Value → Value → Bool
  | null, null => true
  | list xs, list ys => equalItems xs ys
  | map xs, map ys => equalEntries xs ys
  | l, r => match compare l r with
    | .ok .eq => true
    | _ => false

/-- Equality of lists, item by item. -/
def equalItems : List Value → List Value → Bool
  | [], [] => true
  | x :: xs, y :: ys => x.equals y && equalItems xs ys
  | _, _ => false

/-- Equality of maps, entry by entry. -/
def equalEntries : List (String × Value) → List (String × Value) → Bool
  | [], [] => true
  | (k, x) :: xs, (l, y) :: ys => k == l && x.equals y && equalEntries xs ys
  | _, _ => false

end

mutual

/-- Sameness of kind and content, floating-point numbers by their own equality: a number that is
not one differs from itself, and the two zeros are the same. -/
def same : Value → Value → Bool
  | null, null => true
  | boolean a, boolean b => a == b
  | integer a, integer b => a == b
  | long a, long b => a == b
  | float a, float b => a.same b
  | double a, double b => a.same b
  | string a, string b => a == b
  | list xs, list ys => sameItems xs ys
  | map xs, map ys => sameEntries xs ys
  | _, _ => false

/-- Sameness of lists, item by item. -/
def sameItems : List Value → List Value → Bool
  | [], [] => true
  | x :: xs, y :: ys => x.same y && sameItems xs ys
  | _, _ => false

/-- Sameness of maps, entry by entry. -/
def sameEntries : List (String × Value) → List (String × Value) → Bool
  | [], [] => true
  | (k, x) :: xs, (l, y) :: ys => k == l && x.same y && sameEntries xs ys
  | _, _ => false

end

end Value

end StreamQuery
