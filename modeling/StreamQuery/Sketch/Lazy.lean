import StreamQuery.Transition
set_option autoImplicit false

/-!
# Lazy merging

A lazily merged sketch has parts that take updates and parts that take unions.  They
are merged into one result when the sketch is read, and only if something was
offered since the last merge.  What merging does to the parts is left to their type.
-/

namespace StreamQuery

/-- Parts that are merged into a result. -/
class Merging (σ : Type) where
  /-- Merges when updates and unions are pending. -/
  mergeBoth : σ → Transition σ Unit
  /-- Merges when at most updates are pending. -/
  mergeUpdates : σ → Transition σ Unit
  /-- Merges when only unions are pending. -/
  mergeUnions : σ → Transition σ Unit
  /-- Comes before every merge and makes a present result a pending union; the answer is whether
  there was one. -/
  foldResult : σ → Transition σ Bool
  /-- Forgets all. -/
  reset : σ → σ

/-- A lazily merged sketch. -/
structure Lazy (σ : Type) where
  parts : σ
  /-- Updates are pending. -/
  updated : Bool
  /-- Unions are pending. -/
  unioned : Bool
  /-- There is something to merge before the next read. -/
  stale : Bool
  mergeCount : Nat
  deriving Inhabited

namespace Lazy

variable {σ α : Type}

/-- A sketch to which nothing was offered; its first read merges nonetheless. -/
def new (parts : σ) : Lazy σ := ⟨parts, false, false, true, 0⟩

/-- Applies an update to the parts; it counts as pending even if it fails. -/
def update (s : Lazy σ) (apply : σ → Transition σ α) : Transition (Lazy σ) α :=
  (apply s.parts).within fun parts => { s with parts, updated := true, stale := true }

/-- Applies a union to the parts; it counts as pending even if it fails. -/
def union (s : Lazy σ) (apply : σ → Transition σ α) : Transition (Lazy σ) α :=
  (apply s.parts).within fun parts => { s with parts, unioned := true, stale := true }

variable [Merging σ]

/-- Forgets all that was offered. -/
def reset (s : Lazy σ) : Lazy σ :=
  ⟨Merging.reset s.parts, false, false, true, s.mergeCount⟩

/-- Makes a present result a pending union. -/
def foldResult (s : Lazy σ) : Transition (Lazy σ) Unit :=
  ((Merging.foldResult s.parts).within fun parts => { s with parts }).andThen fun folded s =>
    .done () { s with unioned := s.unioned || folded }

/-- Merges what is pending, in the way that suits it. -/
def mergePending (s : Lazy σ) : Transition (Lazy σ) Unit :=
  let merged := match s.updated, s.unioned with
    | true, true => Merging.mergeBoth s.parts
    | false, true => Merging.mergeUnions s.parts
    | _, false => Merging.mergeUpdates s.parts
  merged.within fun parts => { s with parts }

/-- Nothing is pending any more. -/
def settle (s : Lazy σ) : Lazy σ := ⟨s.parts, false, false, false, s.mergeCount + 1⟩

/-- Merges unless nothing was offered since the last merge.  A merge that fails leaves what is
pending so. -/
def merge (s : Lazy σ) : Transition (Lazy σ) Unit :=
  if s.stale then
    s.foldResult.andThen fun _ s => s.mergePending.andThen fun _ s => .done () s.settle
  else .done () s

/-- The parts after merging what is pending. -/
def read (s : Lazy σ) : Transition (Lazy σ) σ :=
  s.merge.andThen fun _ s => .done s.parts s

/-- Without anything to merge, merging changes nothing. -/
theorem merge_of_not_stale {s : Lazy σ} (h : s.stale = false) : s.merge = .done () s := by
  simp [merge, h]

end Lazy

end StreamQuery
