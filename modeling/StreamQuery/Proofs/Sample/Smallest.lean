import StreamQuery.Proofs.Sample.Samples
set_option autoImplicit false

/-!
# A sample keeps the smallest hashes

When all hashes that were offered lie below the bound that was given, the sample keeps
of them the smallest, as many as its capacity allows.  Its bound is then the next hash
after those, or the given one if there is no next.
-/

namespace StreamQuery

/-! ## Ranks among all words -/

/-- Of a set of smaller words all count for the rank. -/
theorem rank_eq_card {words : Finset UInt64} {m : UInt64} (h : ∀ x ∈ words, x < m) :
    rank words m = words.card := by
  rw [rank, Finset.filter_true_of_mem h]

/-- A word of a set does not count for its own rank. -/
theorem rank_lt_card {words : Finset UInt64} {m : UInt64} (h : m ∈ words) :
    rank words m < words.card := by
  apply Finset.card_lt_card
  rw [Finset.ssubset_iff_of_subset (Finset.filter_subset _ _)]
  exact ⟨m, h, by simp⟩

/-- A greater word has no smaller rank. -/
theorem rank_le_rank (words : Finset UInt64) {m n : UInt64} (h : m ≤ n) :
    rank words m ≤ rank words n := by
  apply Finset.card_le_card
  intro x hx
  rw [Finset.mem_filter] at hx ⊢
  exact ⟨hx.1, UInt64.lt_of_lt_of_le hx.2 h⟩

namespace Samples

variable {ρ α : Type} {o : Offering ρ α} {items : List ρ} {bound : UInt64} {s : HashSample α}

/-- The value kept under a hash is what was offered there. -/
theorem offered_of_get? (h : Samples o items bound s) {hash : UInt64} {a : α}
    (hget : s.get? hash = some a) : o.offered items hash = some a := by
  have hlt : hash < s.bound := (h.isSome_get?_iff.1 (Option.isSome_iff_exists.2 ⟨a, hget⟩)).2
  rw [← h.below hash hlt, hget]

/-- The number of hashes kept is the rank of the bound. -/
theorem retained_eq_rank (h : Samples o items bound s) :
    s.retained = rank (o.hashes items) s.bound :=
  card_keys h.below h.above

/-- With room for all hashes the bound is the given one. -/
theorem bound_eq_of_card_le (h : Samples o items bound s)
    (hroom : (o.hashes items).card ≤ s.capacity) : s.bound = bound := by
  rcases h.cause with heq | ⟨hmem, hfull⟩
  · exact heq
  · have hlt := rank_lt_card hmem
    omega

/-- Without room for all hashes the bound is the one after those that fit. -/
theorem bound_of_lt_card (h : Samples o items bound s) (below : ∀ x ∈ o.hashes items, x < bound)
    (hfull : s.capacity < (o.hashes items).card) :
    s.bound ∈ o.hashes items ∧ rank (o.hashes items) s.bound = s.capacity := by
  have hroom := h.room
  rcases h.cause with heq | ⟨hmem, hrank⟩
  · rw [heq, rank_eq_card below] at hroom
    omega
  · exact ⟨hmem, Nat.le_antisymm hroom hrank⟩

/-- The sample keeps the smallest hashes. -/
theorem kept_iff (h : Samples o items bound s) (below : ∀ x ∈ o.hashes items, x < bound)
    {hash : UInt64} : (s.get? hash).isSome = true ↔
      hash ∈ o.hashes items ∧ rank (o.hashes items) hash < s.capacity := by
  rw [h.isSome_get?_iff]
  apply and_congr_right
  intro hmem
  by_cases hroom : (o.hashes items).card ≤ s.capacity
  · have hlt := below hash hmem
    have hrank := rank_lt_card hmem
    rw [h.bound_eq_of_card_le hroom]
    exact ⟨fun _ => by omega, fun _ => hlt⟩
  · obtain ⟨-, hrank⟩ := h.bound_of_lt_card below (by omega)
    rw [← hrank]
    constructor
    · exact rank_lt_rank hmem
    · intro hless
      rw [← UInt64.not_le]
      intro hle
      have := rank_le_rank (o.hashes items) hle
      omega

/-- The sample keeps as many hashes as there are, up to its capacity. -/
theorem retained_eq_min (h : Samples o items bound s) (below : ∀ x ∈ o.hashes items, x < bound) :
    s.retained = min s.capacity (o.hashes items).card := by
  rw [h.retained_eq_rank]
  by_cases hroom : (o.hashes items).card ≤ s.capacity
  · rw [h.bound_eq_of_card_le hroom, rank_eq_card below, Nat.min_eq_right hroom]
  · obtain ⟨-, hrank⟩ := h.bound_of_lt_card below (by omega)
    rw [hrank, Nat.min_eq_left (by omega)]

end Samples

end StreamQuery
