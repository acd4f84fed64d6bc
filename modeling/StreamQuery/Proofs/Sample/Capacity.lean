import StreamQuery.Proofs.Sample.Merge
set_option autoImplicit false

/-!
# Samples of a capacity

A sketch asks for a capacity when it is made, and all its samples have that one.  What is
proved of samples is put together here for them, with the bounds that stand for none.
-/

namespace StreamQuery

/-! ## Bounds -/

/-- Every bound is at most the word that stands for none. -/
theorem le_noBound (m : UInt64) : m ≤ HashSample.noBound :=
  UInt64.le_iff_toNat_le.2 (Nat.le_of_lt_succ m.toNat_lt)

@[simp] theorem min_noBound (m : UInt64) : min m HashSample.noBound = m :=
  UInt64.le_antisymm Std.min_le_left (Std.le_min_iff.2 ⟨UInt64.le_refl m, le_noBound m⟩)

@[simp] theorem noBound_min (m : UInt64) : min HashSample.noBound m = m :=
  UInt64.le_antisymm Std.min_le_right (Std.le_min_iff.2 ⟨le_noBound m, UInt64.le_refl m⟩)

theorem min_right_comm (l m n : UInt64) : min (min l m) n = min (min l n) m := by
  apply UInt64.le_antisymm <;> simp only [Std.le_min_iff]
  · have hl := Std.min_le_left (a := min l m) (b := n)
    exact ⟨⟨(Std.le_min_iff.1 hl).1, Std.min_le_right⟩, (Std.le_min_iff.1 hl).2⟩
  · have hl := Std.min_le_left (a := min l n) (b := m)
    exact ⟨⟨(Std.le_min_iff.1 hl).1, Std.min_le_right⟩, (Std.le_min_iff.1 hl).2⟩

/-! ## Samples of items -/

variable {ρ α : Type}

/-- A sample of items with a capacity that is asked for. -/
structure SampleOf (o : Offering ρ α) (capacity : Nat) (items : List ρ) (bound : UInt64)
    (s : HashSample α) : Prop extends Samples o items bound s where
  capacity_eq : s.capacity = max capacity 1

variable {o : Offering ρ α} {capacity : Nat} {items more : List ρ} {bound bound' : UInt64}
  {s t : HashSample α}

theorem sampleOf_new (capacity : Nat) :
    SampleOf o capacity [] HashSample.noBound (HashSample.new capacity) :=
  ⟨samples_new capacity, rfl⟩

/-- A sample that is cleared is a sample of nothing. -/
theorem sampleOf_clear (h : s.capacity = max capacity 1) :
    SampleOf o capacity [] HashSample.noBound s.clear := by
  have hclear : s.clear = HashSample.new capacity := by
    simp only [HashSample.clear, HashSample.new, h]
  rw [hclear]
  exact sampleOf_new capacity

/-- Samples of one capacity to which the same was offered are equal. -/
theorem SampleOf.unique (h : SampleOf o capacity items bound s)
    (h' : SampleOf o capacity items bound t) : s = t :=
  h.toSamples.unique h'.toSamples (h.capacity_eq.trans h'.capacity_eq.symm) fun _ => rfl

/-- A sample covers its own items. -/
theorem SampleOf.covers (h : SampleOf o capacity items bound s) :
    Covers o items bound (max capacity 1) s := by
  rw [← h.capacity_eq]
  exact h.toCovers

variable [Combine α] {fits : ρ → Prop}

/-- A sample of items is one of the same items in another order. -/
theorem SampleOf.perm (lawful : o.Lawful fits) (h : SampleOf o capacity items bound s)
    (hfit : ∀ x ∈ items, fits x) (hp : items.Perm more) : SampleOf o capacity more bound s where
  below x hx := (h.below x hx).trans (lawful.offered_perm hfit hp x)
  le := h.le
  cause := by
    rw [← Offering.hashes_perm hp]
    exact h.cause
  above := h.above
  room := by
    rw [← Offering.hashes_perm hp]
    exact h.room
  capacity_eq := h.capacity_eq

/-- Adding an item to a sample. -/
theorem SampleOf.add (combines : o.Combines fits) (h : SampleOf o capacity items bound s) {x : ρ}
    (hfit : ∀ y ∈ items ++ [x], fits y) :
    ∃ kept s', s.add (o.hash x) (o.value x []) = .done kept s' ∧
      SampleOf o capacity (items ++ [x]) bound s' := by
  obtain ⟨kept, s', hadd, hcap, hs', -⟩ := h.toSamples.add combines hfit
  exact ⟨kept, s', hadd, hs', hcap.trans h.capacity_eq⟩

/-- Merging what covers other items into a sample. -/
theorem SampleOf.merge (combines : o.Combines fits) (h : SampleOf o capacity items bound s)
    (hother : Covers o more bound' (max capacity 1) t) (hfit : ∀ y ∈ items ++ more, fits y) :
    ∃ s', s.merge t = .done () s' ∧ SampleOf o capacity (items ++ more) (min bound bound') s' := by
  rw [← h.capacity_eq] at hother
  obtain ⟨s', hmerge, hcap, hs'⟩ := h.toSamples.merge combines hother hfit
  exact ⟨s', hmerge, hs', hcap.trans h.capacity_eq⟩

end StreamQuery
