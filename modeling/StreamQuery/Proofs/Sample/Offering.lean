import StreamQuery.Sketch.Sample
import Mathlib.Data.Finset.Card
import Mathlib.Data.Finset.Lattice.Basic
import Mathlib.Data.Finset.Dedup
set_option autoImplicit false

/-!
# What is offered to a sample

A sample is judged against the items that were offered to it.  An item has a hash, and
the items of one hash make one value together.  Which hashes a sample keeps is said by
their ranks: the rank of a word among the hashes offered is how many of them are
smaller, so the `k` smallest hashes are those of a rank below `k`.
-/

namespace StreamQuery

/-! ## Ranks -/

/-- How many words of a set are smaller than a given one. -/
def rank (words : Finset UInt64) (h : UInt64) : Nat := (words.filter (· < h)).card

/-- More words give no smaller rank. -/
theorem rank_mono {s t : Finset UInt64} (h : s ⊆ t) (m : UInt64) : rank s m ≤ rank t m :=
  Finset.card_le_card (Finset.filter_subset_filter _ h)

/-- Above a word of the set the rank has grown past the rank of that word. -/
theorem rank_lt_rank {s : Finset UInt64} {m n : UInt64} (hm : m ∈ s) (hlt : m < n) :
    rank s m < rank s n := by
  apply Finset.card_lt_card
  rw [Finset.ssubset_iff_of_subset]
  · exact ⟨m, by simp [hm, hlt], by simp⟩
  · intro h hh
    rw [Finset.mem_filter] at hh ⊢
    exact ⟨hh.1, UInt64.lt_trans hh.2 hlt⟩

/-- A rank below a word depends on the smaller words alone. -/
theorem rank_congr {s t : Finset UInt64} {m : UInt64} (h : ∀ x, x < m → (x ∈ s ↔ x ∈ t)) :
    rank s m = rank t m := by
  unfold rank
  congr 1
  ext x
  rw [Finset.mem_filter, Finset.mem_filter]
  constructor
  · rintro ⟨hx, hlt⟩
    exact ⟨(h x hlt).1 hx, hlt⟩
  · rintro ⟨hx, hlt⟩
    exact ⟨(h x hlt).2 hx, hlt⟩

/-! ## Offerings -/

/-- How items are offered: the hash of an item, and the value that the items of one hash make, which
are given as the first and the others in the order of their coming. -/
structure Offering (ρ α : Type) where
  hash : ρ → UInt64
  value : ρ → List ρ → α

namespace Offering

variable {ρ α : Type} (o : Offering ρ α)

/-- The items of one hash. -/
def under (items : List ρ) (h : UInt64) : List ρ := items.filter fun x => o.hash x == h

/-- The value that items make, if there are any. -/
def value? : List ρ → Option α
  | [] => none
  | x :: rest => some (o.value x rest)

/-- The value that was offered under a hash. -/
def offered (items : List ρ) (h : UInt64) : Option α := o.value? (o.under items h)

/-- The hashes that were offered. -/
def hashes (items : List ρ) : Finset UInt64 := (items.map o.hash).toFinset

/-- The items that fit combine to what they make together, in the order of their coming. -/
structure Combines [Combine α] (fits : ρ → Prop) : Prop where
  combine_value : ∀ {x y : ρ} {xs ys : List ρ},
    (∀ z ∈ x :: xs ++ y :: ys, fits z ∧ o.hash z = o.hash x) →
    Combine.combine (o.value x xs) (o.value y ys) = .done () (o.value x (xs ++ y :: ys))

/-- The items that fit combine to what they make together, and make the same in any order. -/
structure Lawful [Combine α] (fits : ρ → Prop) : Prop extends o.Combines fits where
  value_perm : ∀ {x y : ρ} {xs ys : List ρ}, (x :: xs).Perm (y :: ys) →
    (∀ z ∈ x :: xs, fits z ∧ o.hash z = o.hash x) → o.value x xs = o.value y ys

variable {o}

@[simp] theorem offered_nil (h : UInt64) : o.offered [] h = none := rfl

@[simp] theorem hashes_nil : o.hashes [] = ∅ := rfl

theorem mem_under {items : List ρ} {h : UInt64} {x : ρ} :
    x ∈ o.under items h ↔ x ∈ items ∧ o.hash x = h := by
  simp [under]

theorem mem_hashes {items : List ρ} {h : UInt64} :
    h ∈ o.hashes items ↔ ∃ x ∈ items, o.hash x = h := by
  simp [hashes]

@[simp] theorem hashes_append (items more : List ρ) :
    o.hashes (items ++ more) = o.hashes items ∪ o.hashes more := by
  simp [hashes]

theorem under_append (items more : List ρ) (h : UInt64) :
    o.under (items ++ more) h = o.under items h ++ o.under more h := by
  simp [under]

/-- A single item is offered under its hash and nowhere else. -/
theorem offered_singleton (x : ρ) (h : UInt64) :
    o.offered [x] h = if o.hash x = h then some (o.value x []) else none := by
  by_cases hx : o.hash x = h <;> simp [offered, under, value?, hx]

/-- Something was offered under a hash exactly if the hash was offered. -/
theorem isSome_offered_iff {items : List ρ} {h : UInt64} :
    (o.offered items h).isSome = true ↔ h ∈ o.hashes items := by
  rw [mem_hashes]
  unfold offered
  cases hu : o.under items h with
  | nil =>
    simp only [value?, Option.isSome_none, Bool.false_eq_true, false_iff, not_exists, not_and]
    intro x hx he
    have : x ∈ o.under items h := mem_under.2 ⟨hx, he⟩
    rw [hu] at this
    cases this
  | cons x rest =>
    have hx : x ∈ o.under items h := hu ▸ List.mem_cons_self
    simp only [value?, Option.isSome_some, true_iff]
    exact ⟨x, mem_under.1 hx⟩

theorem offered_eq_none_iff {items : List ρ} {h : UInt64} :
    o.offered items h = none ↔ h ∉ o.hashes items := by
  rw [← isSome_offered_iff, Option.not_isSome_iff_eq_none]

/-- What is offered later under a hash that was not offered before is all there is. -/
theorem offered_append_of_none {items more : List ρ} {h : UInt64}
    (hn : o.offered items h = none) : o.offered (items ++ more) h = o.offered more h := by
  unfold offered at hn ⊢
  rw [under_append]
  cases hu : o.under items h with
  | nil => rfl
  | cons x rest =>
    rw [hu] at hn
    cases hn

/-- Under a hash that is not offered later all stays as it was. -/
theorem offered_append_of_none_right {items more : List ρ} {h : UInt64}
    (hn : o.offered more h = none) : o.offered (items ++ more) h = o.offered items h := by
  unfold offered at hn ⊢
  rw [under_append]
  cases hu : o.under more h with
  | nil => rw [List.append_nil]
  | cons x rest =>
    rw [hu] at hn
    cases hn

theorem mem_hashes_concat {items : List ρ} {x : ρ} {h : UInt64} :
    h ∈ o.hashes (items ++ [x]) ↔ h ∈ o.hashes items ∨ h = o.hash x := by
  have hone : o.hashes [x] = {o.hash x} := rfl
  rw [hashes_append, hone, Finset.mem_union, Finset.mem_singleton]

/-- An item leaves what was offered under the other hashes. -/
theorem offered_concat_of_ne {items : List ρ} {x : ρ} {h : UInt64} (hne : o.hash x ≠ h) :
    o.offered (items ++ [x]) h = o.offered items h := by
  apply offered_append_of_none_right
  rw [offered_singleton, if_neg hne]

/-- The hashes offered do not depend on the order. -/
theorem hashes_perm {items items' : List ρ} (hp : items.Perm items') :
    o.hashes items = o.hashes items' := by
  ext h
  rw [mem_hashes, mem_hashes]
  constructor
  · rintro ⟨x, hx, rfl⟩
    exact ⟨x, hp.mem_iff.1 hx, rfl⟩
  · rintro ⟨x, hx, rfl⟩
    exact ⟨x, hp.mem_iff.2 hx, rfl⟩

variable [Combine α] {fits : ρ → Prop}

/-- What is offered under one hash before and after combines to what is offered in all. -/
theorem Combines.combine_offered (combines : o.Combines fits) {items more : List ρ} {h : UInt64}
    {a b : α} (hfit : ∀ x ∈ items ++ more, fits x) (ha : o.offered items h = some a)
    (hb : o.offered more h = some b) :
    ∃ c, Combine.combine a b = .done () c ∧ o.offered (items ++ more) h = some c := by
  unfold offered at ha hb ⊢
  rw [under_append]
  cases hx : o.under items h with
  | nil =>
    rw [hx] at ha
    cases ha
  | cons x xs =>
    cases hy : o.under more h with
    | nil =>
      rw [hy] at hb
      cases hb
    | cons y ys =>
      rw [hx] at ha
      rw [hy] at hb
      cases ha
      cases hb
      have hall : ∀ z ∈ x :: xs ++ y :: ys, fits z ∧ o.hash z = h := by
        intro z hz
        rw [← hx, ← hy, ← under_append, mem_under] at hz
        exact ⟨hfit z hz.1, hz.2⟩
      have hhead : o.hash x = h := (hall x (by simp)).2
      refine ⟨o.value x (xs ++ y :: ys), combines.combine_value ?_, rfl⟩
      intro z hz
      rw [hhead]
      exact hall z hz

/-- What is offered does not depend on the order. -/
theorem Lawful.offered_perm (lawful : o.Lawful fits) {items items' : List ρ}
    (hfit : ∀ x ∈ items, fits x) (hp : items.Perm items') (h : UInt64) :
    o.offered items h = o.offered items' h := by
  have hpu : (o.under items h).Perm (o.under items' h) := hp.filter _
  unfold offered
  cases hx : o.under items h with
  | nil =>
    rw [hx] at hpu
    rw [hpu.nil_eq]
  | cons x xs =>
    cases hy : o.under items' h with
    | nil =>
      rw [hx, hy] at hpu
      exact absurd hpu.eq_nil (List.cons_ne_nil _ _)
    | cons y ys =>
      rw [hx, hy] at hpu
      have hall : ∀ z ∈ x :: xs, fits z ∧ o.hash z = h := by
        intro z hz
        rw [← hx, mem_under] at hz
        exact ⟨hfit z hz.1, hz.2⟩
      have hhead : o.hash x = h := (hall x List.mem_cons_self).2
      refine congrArg some (lawful.value_perm hpu ?_)
      intro z hz
      rw [hhead]
      exact hall z hz

end Offering

end StreamQuery
