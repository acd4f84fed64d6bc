import StreamQuery.Proofs.Keyed
import StreamQuery.Proofs.Sample.Offering
set_option autoImplicit false

/-!
# What a sample holds

A sample of the items offered to it holds, below its bound, exactly what they make under
each hash, and nothing else.  Its bound is the least of the bounds it was given, or else
the hash offered that has as many smaller ones as the sample has room for.  That leaves
no freedom (`Samples.unique`), so it is enough to show that adding and merging keep it.

A sample that is merged into another one need only be right below its own bound
(`Covers`): it may come from elsewhere and have any capacity.
-/

namespace StreamQuery

variable {ρ α : Type}

/-- Below its bound a sample holds what was offered.  The bound is the one given for all items, or a
hash offered that at least `k` smaller ones were offered with. -/
structure Covers (o : Offering ρ α) (items : List ρ) (bound : UInt64) (k : Nat)
    (s : HashSample α) : Prop where
  below : ∀ h, h < s.bound → s.get? h = o.offered items h
  le : s.bound ≤ bound
  cause : s.bound = bound ∨
    (s.bound ∈ o.hashes items ∧ k ≤ rank (o.hashes items) s.bound)

/-- A sample is the sample of items: it covers them, it holds nothing from its bound on, and what it
holds fits its capacity. -/
structure Samples (o : Offering ρ α) (items : List ρ) (bound : UInt64) (s : HashSample α) : Prop
    extends Covers o items bound s.capacity s where
  above : ∀ h, s.bound ≤ h → s.get? h = none
  room : rank (o.hashes items) s.bound ≤ s.capacity

variable {o : Offering ρ α} {items : List ρ} {bound : UInt64} {s : HashSample α}

/-- A hash is kept exactly if it was offered and lies below the bound. -/
theorem Samples.isSome_get?_iff (h : Samples o items bound s) {hash : UInt64} :
    (s.get? hash).isSome = true ↔ hash ∈ o.hashes items ∧ hash < s.bound := by
  by_cases hlt : hash < s.bound
  · rw [h.below hash hlt, Offering.isSome_offered_iff]
    simp [hlt]
  · rw [h.above hash (UInt64.not_lt.1 hlt)]
    simp [hlt]

/-! ## The bound leaves no freedom -/

/-- A sample has the bound of another one of the same hashes and capacity, or a greater one,
whatever the values are. -/
theorem Samples.bound_le {ρ' α' : Type} {o' : Offering ρ' α'} {items' : List ρ'}
    {s' : HashSample α'} (h : Samples o items bound s) (h' : Samples o' items' bound s')
    (hcap : s.capacity = s'.capacity) (hashes : o.hashes items = o'.hashes items') :
    s'.bound ≤ s.bound := by
  rw [← UInt64.not_lt]
  intro hlt
  rcases h.cause with heq | ⟨hmem, hfull⟩
  · -- the least bound of all cannot lie below another one
    rw [heq] at hlt
    exact absurd (UInt64.lt_of_lt_of_le hlt h'.le) (UInt64.lt_irrefl _)
  · have hgrow := rank_lt_rank hmem hlt
    have hroom := h'.room
    rw [← hashes] at hroom
    omega

/-- Two samples of the same capacity to which the same was offered are equal. -/
theorem Samples.unique {s' : HashSample α} {items' : List ρ} (h : Samples o items bound s)
    (h' : Samples o items' bound s') (hcap : s.capacity = s'.capacity)
    (same : ∀ x, o.offered items x = o.offered items' x) : s = s' := by
  have hhashes : o.hashes items = o.hashes items' := by
    ext x
    rw [← Offering.isSome_offered_iff, ← Offering.isSome_offered_iff, same x]
  have hbound : s.bound = s'.bound :=
    UInt64.le_antisymm (h'.bound_le h hcap.symm hhashes.symm) (h.bound_le h' hcap hhashes)
  have hentries : s.entries = s'.entries := by
    apply Keyed.ext_get?
    intro x
    by_cases hx : x < s.bound
    · have hl : s.entries.get? x = o.offered items x := h.below x hx
      have hr : s'.entries.get? x = o.offered items' x := h'.below x (hbound ▸ hx)
      rw [hl, hr, same x]
    · have hle : s.bound ≤ x := UInt64.not_lt.1 hx
      have hl : s.entries.get? x = none := h.above x hle
      have hr : s'.entries.get? x = none := h'.above x (hbound ▸ hle)
      rw [hl, hr]
  cases s
  cases s'
  simp_all

/-! ## Trimming -/

/-- The keys of a table that holds what was offered below a bound are the hashes below it. -/
theorem card_keys {t : Keyed UInt64 α} {m : UInt64}
    (below : ∀ h, h < m → t.get? h = o.offered items h) (above : ∀ h, m ≤ h → t.get? h = none) :
    t.size = rank (o.hashes items) m := by
  have hkeys : t.keys.toFinset = (o.hashes items).filter (· < m) := by
    ext h
    rw [List.mem_toFinset, Keyed.mem_keys_iff, Finset.mem_filter]
    by_cases hlt : h < m
    · rw [below h hlt, Offering.isSome_offered_iff]
      simp [hlt]
    · rw [above h (UInt64.not_lt.1 hlt)]
      simp [hlt]
  rw [rank, ← hkeys, List.toFinset_card_of_nodup t.nodup_keys]
  simp [Keyed.size, Keyed.keys]

/-- A sample that holds what was offered below its bound, with a bound that has a cause, becomes a
sample of the items when it is trimmed. -/
theorem samples_trim (covers : Covers o items bound s.capacity s)
    (above : ∀ h, s.bound ≤ h → s.get? h = none) : Samples o items bound s.trim := by
  have hsize : s.entries.size = rank (o.hashes items) s.bound := card_keys covers.below above
  unfold HashSample.trim
  split
  · rename_i hnone
    have hroom : s.entries.entries.length ≤ s.capacity := List.getElem?_eq_none_iff.1 hnone
    exact { covers with above := above, room := by rw [← hsize]; exact hroom }
  · rename_i h a hsome
    -- the hash at the place of the capacity was offered, and is the new bound
    have hget : s.entries.get? h = some a :=
      Keyed.get?_eq_some_iff.2 (List.mem_of_getElem? hsome)
    have hlt : h < s.bound := by
      rw [← UInt64.not_le]
      intro hle
      have hnone : s.entries.get? h = none := above h hle
      rw [hget] at hnone
      cases hnone
    have htake : ∀ x, (s.entries.take s.capacity).get? x = if x < h then s.get? x else none := by
      intro x
      simp only [Keyed.get?_take hsome, Std.compare_eq_lt, HashSample.get?]
    have hbelow : ∀ x, x < h → (s.entries.take s.capacity).get? x = o.offered items x := by
      intro x hx
      rw [htake, if_pos hx]
      exact covers.below x (UInt64.lt_trans hx hlt)
    have habove : ∀ x, h ≤ x → (s.entries.take s.capacity).get? x = none := by
      intro x hx
      rw [htake, if_neg (UInt64.not_lt.2 hx)]
    have hrank : rank (o.hashes items) h = s.capacity := by
      have hlen : (s.entries.take s.capacity).size = s.capacity := by
        have := (List.getElem?_eq_some_iff.1 hsome).1
        simp only [Keyed.size, Keyed.take, List.length_take]
        omega
      rw [← card_keys hbelow habove, hlen]
    have hoffered : h ∈ o.hashes items := by
      rw [← Offering.isSome_offered_iff, ← covers.below h hlt]
      exact Option.isSome_iff_exists.2 ⟨a, hget⟩
    exact {
      below := hbelow
      above := habove
      le := UInt64.le_trans (UInt64.le_of_lt hlt) covers.le
      cause := .inr ⟨hoffered, Nat.le_of_eq hrank.symm⟩
      room := Nat.le_of_eq hrank }

@[simp] theorem capacity_trim (s : HashSample α) : s.trim.capacity = s.capacity := by
  unfold HashSample.trim
  split <;> rfl

/-! ## The empty sample -/

/-- An empty sample is the sample of no items. -/
theorem samples_new (capacity : Nat) :
    Samples o [] HashSample.noBound (HashSample.new capacity : HashSample α) where
  below _ _ := rfl
  le := UInt64.le_refl _
  cause := .inl rfl
  above _ _ := rfl
  room := by simp [rank]

end StreamQuery
