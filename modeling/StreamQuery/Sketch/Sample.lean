import StreamQuery.Keyed
import StreamQuery.Numeric.Conversion
import StreamQuery.Transition
set_option autoImplicit false

/-!
# Samples by hash

A sample keeps values under 64-bit hashes, and of all hashes offered to it the
smallest, as many as its capacity allows.  As long as nothing was dropped it is
exact.  From then on its bound is the smallest hash that was dropped: only hashes
below it are admitted, so that what is kept is a uniform sample and the number of
all hashes can be estimated from the bound.
-/

namespace StreamQuery

/-- Values of which two under one hash become one. -/
class Combine (α : Type) where
  /-- Folds the second value into the first; what is left of the first may have changed even if that
  fails. -/
  combine : α → α → Transition α Unit

instance : Combine Unit := ⟨fun _ _ => .done () ()⟩

/-- A sample of values under hashes. -/
structure HashSample (α : Type) where
  capacity : Nat
  /-- Only hashes below the bound are admitted; the largest word stands for no bound. -/
  bound : UInt64
  entries : Keyed UInt64 α

namespace HashSample

variable {α : Type}

/-- The word that stands for no bound. -/
def noBound : UInt64 := 0xffffffffffffffff

/-- An empty sample; its capacity is at least one. -/
def new (capacity : Nat) : HashSample α := ⟨max capacity 1, noBound, .empty⟩

instance : Inhabited (HashSample α) := ⟨new 1⟩

/-- The number of values kept. -/
def retained (s : HashSample α) : Nat := s.entries.size

/-- The value under a hash. -/
def get? (s : HashSample α) (hash : UInt64) : Option α := s.entries.get? hash

/-- The values kept, in the order of their hashes. -/
def values (s : HashSample α) : List α := s.entries.values

/-- The empty sample of the same capacity. -/
def clear (s : HashSample α) : HashSample α := ⟨s.capacity, noBound, .empty⟩

/-- Drops the largest hashes beyond the capacity; the smallest of them becomes the bound. -/
def trim (s : HashSample α) : HashSample α :=
  match s.entries.entries[s.capacity]? with
  | none => s
  | some (hash, _) => ⟨s.capacity, hash, s.entries.take s.capacity⟩

/-! ## Filling -/

variable [Combine α]

/-- Puts a value under a hash, or folds it into the one that is there. -/
def absorb (t : Keyed UInt64 α) (hash : UInt64) (a : α) : Transition (Keyed UInt64 α) Unit :=
  match t.get? hash with
  | some present => (Combine.combine present a).within (t.insert hash)
  | none => .done () (t.insert hash a)

/-- Puts in values one after another, up to the first that fails. -/
def absorbAll (t : Keyed UInt64 α) : List (UInt64 × α) → Transition (Keyed UInt64 α) Unit
  | [] => .done () t
  | (hash, a) :: rest => (absorb t hash a).andThen fun _ t => absorbAll t rest

/-- Offers a value under a hash; the answer is whether the hash is kept. -/
def add (s : HashSample α) (hash : UInt64) (a : α) : Transition (HashSample α) Bool :=
  if s.bound ≤ hash then .done false s
  else
    ((absorb s.entries hash a).within fun entries => { s with entries }).andThen fun _ s =>
      let s := s.trim
      .done (s.entries.contains hash) s

/-- Offers all of another sample.  The smaller of the bounds holds for both. -/
def merge (s other : HashSample α) : Transition (HashSample α) Unit :=
  let bound := min s.bound other.bound
  let below (e : UInt64 × α) : Bool := e.1 < bound
  ((absorbAll (s.entries.filter below) (other.entries.filter below).entries).within
    fun entries => ⟨s.capacity, bound, entries⟩).andThen fun _ s => .done () s.trim

end HashSample

/-! ## Estimates -/

namespace HashSample

variable {α : Type}

/-- Whether values were dropped. -/
def isEstimating (s : HashSample α) : Bool := s.bound != noBound

/-- The share of all hashes that lie below the bound, in double precision. -/
def fraction (s : HashSample α) : Numeric.Double :=
  if s.isEstimating then
    Numeric.doubleOfRatio (Numeric.significant s.bound.toNat) (2 ^ 64)
  else Numeric.doubleOfInt 1

/-- The estimated number of hashes offered: the number kept over the fraction. -/
def estimate (s : HashSample α) : Numeric.Double :=
  if s.isEstimating then
    Numeric.doubleOfRatio (s.retained * 2 ^ 64) (Numeric.significant s.bound.toNat)
  else Numeric.doubleOfInt s.retained

/-- The relative standard error of the estimate. -/
def standardError (s : HashSample α) : Numeric.Double :=
  if s.isEstimating then
    Numeric.doubleOfInt 1 / (Numeric.doubleOfInt (max s.retained 2 - 1 : Nat)).sqrt
  else Numeric.doubleOfInt 0

end HashSample

end StreamQuery
