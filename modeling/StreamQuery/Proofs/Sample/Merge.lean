import StreamQuery.Proofs.Sample.Samples
set_option autoImplicit false

/-!
# Adding and merging keep samples

Items that combine without failing can be offered one by one, or as a sample that covers
them: either way the result is the sample of all items, with the smaller of the bounds.
A hash that was dropped lies at or above the bound ever after, so no value that is kept
lacks a part that was dropped earlier.
-/

namespace StreamQuery

/-! ## The smaller of two bounds -/

/-- Among the entries of smaller hashes those hashes are found, and no others. -/
theorem get?_filter_lt {α : Type} (t : Keyed UInt64 α) (m h : UInt64) :
    (t.filter fun e => decide (e.1 < m)).get? h = if h < m then t.get? h else none := by
  have hget := t.get?_filter (fun x => decide (x < m)) h
  simpa only [decide_eq_true_eq] using hget

/-- The smaller of two bounds has a cause among all hashes. -/
theorem cause_min {S T : Finset UInt64} {k : Nat} {m n b c : UInt64} (hle : min m n ≤ min b c)
    (cause : m = b ∨ (m ∈ S ∧ k ≤ rank S m)) (cause' : n = c ∨ (n ∈ T ∧ k ≤ rank T n)) :
    min m n = min b c ∨ (min m n ∈ S ∪ T ∧ k ≤ rank (S ∪ T) (min m n)) := by
  rcases Std.min_eq_or (a := m) (b := n) with hmin | hmin
  · rw [hmin] at hle ⊢
    rcases cause with rfl | ⟨hmem, hrank⟩
    · exact .inl (UInt64.le_antisymm hle Std.min_le_left)
    · exact .inr ⟨Finset.mem_union_left _ hmem,
        Nat.le_trans hrank (rank_mono Finset.subset_union_left m)⟩
  · rw [hmin] at hle ⊢
    rcases cause' with rfl | ⟨hmem, hrank⟩
    · exact .inl (UInt64.le_antisymm hle Std.min_le_right)
    · exact .inr ⟨Finset.mem_union_right _ hmem,
        Nat.le_trans hrank (rank_mono Finset.subset_union_right n)⟩

variable {ρ α : Type} {o : Offering ρ α} {items more : List ρ} {bound : UInt64}
  {s : HashSample α}

/-- Below a bound that is no greater than its own, a sample holds what it covers. -/
theorem Covers.get?_filter {k : Nat} (h : Covers o items bound k s) {m : UInt64}
    (hm : m ≤ s.bound) (x : UInt64) :
    (s.entries.filter fun e => decide (e.1 < m)).get? x
      = if x < m then o.offered items x else none := by
  rw [get?_filter_lt]
  split
  · rename_i hx
    exact h.below x (UInt64.lt_of_lt_of_le hx hm)
  · rfl

/-! ## One more item -/

/-- An item at or above the bound changes nothing. -/
theorem Samples.ignore (h : Samples o items bound s) {x : ρ} (hx : s.bound ≤ o.hash x) :
    Samples o (items ++ [x]) bound s := by
  have hrank : rank (o.hashes (items ++ [x])) s.bound = rank (o.hashes items) s.bound := by
    apply rank_congr
    intro y hy
    rw [Offering.mem_hashes_concat]
    constructor
    · rintro (hin | rfl)
      · exact hin
      · exact absurd hy (UInt64.not_lt.2 hx)
    · exact .inl
  exact {
    below := by
      intro y hy
      have hne : o.hash x ≠ y := by
        rintro rfl
        exact UInt64.not_lt.2 hx hy
      rw [h.below y hy, Offering.offered_concat_of_ne hne]
    le := h.le
    cause := by
      rw [hrank, Offering.mem_hashes_concat]
      exact h.cause.imp id fun hc => ⟨.inl hc.1, hc.2⟩
    above := h.above
    room := by
      rw [hrank]
      exact h.room }

/-- An item below the bound is put in, and what is too much then is dropped. -/
theorem Samples.insert (h : Samples o items bound s) {x : ρ} {c : α} (hx : o.hash x < s.bound)
    (hc : o.offered (items ++ [x]) (o.hash x) = some c) :
    Samples o (items ++ [x]) bound { s with entries := s.entries.insert (o.hash x) c }.trim := by
  let s' : HashSample α := { s with entries := s.entries.insert (o.hash x) c }
  have hget : ∀ y, s'.get? y = if o.hash x = y then some c else s.get? y := by
    intro y
    unfold HashSample.get?
    rw [Keyed.get?_insert]
    simp only [Std.LawfulEqCmp.compare_eq_iff_eq]
  have hcovers : Covers o (items ++ [x]) bound s'.capacity s' := by
    refine ⟨?_, h.le, ?_⟩
    · intro y hy
      rw [hget]
      split
      · rename_i heq
        rw [← heq, hc]
      · rename_i hne
        rw [Offering.offered_concat_of_ne hne, h.below y hy]
    · rw [Offering.mem_hashes_concat]
      refine h.cause.imp id ?_
      rintro ⟨hmem, hfull⟩
      refine ⟨.inl hmem, Nat.le_trans hfull (rank_mono ?_ _)⟩
      rw [Offering.hashes_append]
      exact Finset.subset_union_left
  apply samples_trim hcovers
  intro y hy
  rw [hget, if_neg]
  · exact h.above y hy
  · rintro rfl
    exact UInt64.not_lt.2 hy hx

variable [Combine α] {fits : ρ → Prop}

open HashSample

/-! ## Absorbing entries -/

/-- Absorbing values of ascending hashes, each of which combines with the present one, does not fail
and changes nothing else. -/
theorem absorbAll_done {f : UInt64 → Option α} {entries : List (UInt64 × α)} {t : Keyed UInt64 α}
    (ascending : entries.Pairwise fun a b => compare a.1 b.1 = .lt)
    (combines : ∀ e ∈ entries, (t.get? e.1 = none ∧ f e.1 = some e.2) ∨
      ∃ p c, t.get? e.1 = some p ∧ Combine.combine p e.2 = .done () c ∧ f e.1 = some c) :
    ∃ t', absorbAll t entries = .done () t' ∧
      ∀ h, t'.get? h = if h ∈ entries.map (·.1) then f h else t.get? h := by
  induction entries generalizing t with
  | nil => exact ⟨t, rfl, by simp⟩
  | cons e rest ih =>
    obtain ⟨hash, a⟩ := e
    rw [List.pairwise_cons] at ascending
    obtain ⟨c, habsorb, hc⟩ : ∃ c, absorb t hash a = .done () (t.insert hash c) ∧
        f hash = some c := by
      rcases combines (hash, a) List.mem_cons_self with ⟨hnone, hf⟩ | ⟨p, c, hp, hcomb, hf⟩
      · exact ⟨a, by simp only [absorb, hnone], hf⟩
      · exact ⟨c, by simp only [absorb, hp, hcomb]; rfl, hf⟩
    have hother : ∀ e ∈ rest, (t.insert hash c).get? e.1 = t.get? e.1 := by
      intro e he
      apply Keyed.get?_insert_of_ne
      intro heq
      have hlt := ascending.1 e he
      rw [← heq, Keyed.compare_refl] at hlt
      cases hlt
    obtain ⟨t', hrest, hget⟩ := ih (t := t.insert hash c) ascending.2 (by
      intro e he
      rw [hother e he]
      exact combines e (List.mem_cons_of_mem _ he))
    refine ⟨t', ?_, ?_⟩
    · rw [absorbAll, habsorb, Transition.andThen_done, hrest]
    · intro h
      simp only [hget h, List.map_cons, List.mem_cons]
      by_cases hmem : h ∈ rest.map (·.1)
      · rw [if_pos hmem, if_pos (.inr hmem)]
      · rw [if_neg hmem, Keyed.get?_insert]
        by_cases heq : hash = h
        · subst heq
          rw [if_pos (Keyed.compare_refl hash), if_pos (.inl rfl), hc]
        · have hne : ¬ (h = hash ∨ h ∈ rest.map (·.1)) := by
            rintro (rfl | hin)
            · exact heq rfl
            · exact hmem hin
          rw [if_neg hne, if_neg fun hcmp => heq (Std.LawfulEqCmp.eq_of_compare hcmp)]

/-- The value under a hash after more was offered, from the values before and of the others. -/
theorem absorb_cases (combines : o.Combines fits) (hfit : ∀ x ∈ items ++ more, fits x) {h : UInt64}
    {a : α} (hmore : o.offered more h = some a) :
    (o.offered items h = none ∧ o.offered (items ++ more) h = some a) ∨
      ∃ p c, o.offered items h = some p ∧ Combine.combine p a = .done () c ∧
        o.offered (items ++ more) h = some c := by
  cases hitems : o.offered items h with
  | none => exact .inl ⟨rfl, by rw [Offering.offered_append_of_none hitems, hmore]⟩
  | some p =>
    obtain ⟨c, hcomb, hc⟩ := combines.combine_offered hfit hitems hmore
    exact .inr ⟨p, c, rfl, hcomb, hc⟩

/-! ## Merging -/

/-- Absorbing what was offered later below a bound gives what was offered in all. -/
theorem absorbAll_offered (combines : o.Combines fits) (hfit : ∀ x ∈ items ++ more, fits x)
    {m : UInt64} {kept new : Keyed UInt64 α}
    (hkept : ∀ x, kept.get? x = if x < m then o.offered items x else none)
    (hnew : ∀ x, new.get? x = if x < m then o.offered more x else none) :
    ∃ t, absorbAll kept new.entries = .done () t ∧
      ∀ x, t.get? x = if x < m then o.offered (items ++ more) x else none := by
  have hcombines : ∀ e ∈ new.entries,
      (kept.get? e.1 = none ∧ o.offered (items ++ more) e.1 = some e.2) ∨
        ∃ p c, kept.get? e.1 = some p ∧ Combine.combine p e.2 = .done () c ∧
          o.offered (items ++ more) e.1 = some c := by
    rintro ⟨x, a⟩ hmem
    have hget : new.get? x = some a := Keyed.get?_eq_some_iff.2 hmem
    rw [hnew] at hget
    split at hget
    · rename_i hx
      rw [hkept, if_pos hx]
      exact absorb_cases combines hfit hget
    · cases hget
  obtain ⟨t, habsorb, ht⟩ := absorbAll_done new.ascending hcombines
  refine ⟨t, habsorb, ?_⟩
  intro x
  rw [ht x]
  split
  · rename_i hmem
    have hsome := Keyed.mem_keys_iff.1 hmem
    rw [hnew] at hsome
    split at hsome
    · rename_i hx
      rw [if_pos hx]
    · cases hsome
  · rename_i hmem
    have hnone : new.get? x = none := by
      rw [← Option.not_isSome_iff_eq_none, ← Keyed.mem_keys_iff]
      exact hmem
    rw [hkept]
    by_cases hx : x < m
    · rw [hnew, if_pos hx] at hnone
      rw [if_pos hx, if_pos hx, Offering.offered_append_of_none_right hnone]
    · rw [if_neg hx, if_neg hx]

/-- Merging a sample that covers more items gives the sample of all items. -/
theorem Samples.merge (combines : o.Combines fits) {other : HashSample α} {bound' : UInt64}
    (h : Samples o items bound s) (h' : Covers o more bound' s.capacity other)
    (hfit : ∀ x ∈ items ++ more, fits x) :
    ∃ s', s.merge other = .done () s' ∧ s'.capacity = s.capacity ∧
      Samples o (items ++ more) (min bound bound') s' := by
  let m := min s.bound other.bound
  have hms : m ≤ s.bound := Std.min_le_left
  have hmo : m ≤ other.bound := Std.min_le_right
  obtain ⟨t, habsorb, ht⟩ :=
    absorbAll_offered combines hfit (h.toCovers.get?_filter hms) (h'.get?_filter hmo)
  have hbelow : ∀ x, x < m → t.get? x = o.offered (items ++ more) x := by
    intro x hx
    rw [ht x, if_pos hx]
  have habove : ∀ x, m ≤ x → t.get? x = none := by
    intro x hx
    rw [ht x, if_neg (UInt64.not_lt.2 hx)]
  have hle : m ≤ min bound bound' :=
    Std.le_min_iff.2 ⟨UInt64.le_trans hms h.le, UInt64.le_trans hmo h'.le⟩
  have hcause := cause_min hle h.cause h'.cause
  rw [← Offering.hashes_append] at hcause
  refine ⟨(⟨s.capacity, m, t⟩ : HashSample α).trim, ?_, capacity_trim _, ?_⟩
  · unfold HashSample.merge
    simp only
    rw [habsorb]
    rfl
  · exact samples_trim (s := ⟨s.capacity, m, t⟩)
      { below := hbelow, le := hle, cause := hcause } habove

/-! ## Adding -/

/-- Absorbing one more item keeps what is held below the bound. -/
theorem absorb_item (combines : o.Combines fits) (h : Samples o items bound s) {x : ρ}
    (hfit : ∀ y ∈ items ++ [x], fits y) (hx : o.hash x < s.bound) :
    ∃ c, absorb s.entries (o.hash x) (o.value x []) = .done () (s.entries.insert (o.hash x) c) ∧
      o.offered (items ++ [x]) (o.hash x) = some c := by
  have hget : s.entries.get? (o.hash x) = o.offered items (o.hash x) := h.below _ hx
  have hone : o.offered [x] (o.hash x) = some (o.value x []) := by
    rw [Offering.offered_singleton, if_pos rfl]
  rcases absorb_cases combines hfit hone with ⟨hnone, hc⟩ | ⟨p, c, hp, hcomb, hc⟩
  · refine ⟨o.value x [], ?_, hc⟩
    simp only [absorb, hget, hnone]
  · refine ⟨c, ?_, hc⟩
    simp only [absorb, hget, hp, hcomb]
    rfl

/-- Adding an item gives the sample of the items with it. -/
theorem Samples.add (combines : o.Combines fits) (h : Samples o items bound s) {x : ρ}
    (hfit : ∀ y ∈ items ++ [x], fits y) :
    ∃ kept s', s.add (o.hash x) (o.value x []) = .done kept s' ∧ s'.capacity = s.capacity ∧
      Samples o (items ++ [x]) bound s' ∧ (kept = true ↔ o.hash x < s'.bound) := by
  by_cases hx : s.bound ≤ o.hash x
  · refine ⟨false, s, by simp only [HashSample.add, if_pos hx], rfl, h.ignore hx, ?_⟩
    simpa using hx
  · obtain ⟨c, habsorb, hc⟩ := absorb_item combines h hfit (UInt64.not_le.1 hx)
    have hsamples := h.insert (UInt64.not_le.1 hx) hc
    have hmem : o.hash x ∈ o.hashes (items ++ [x]) := Offering.mem_hashes_concat.2 (.inr rfl)
    let s' : HashSample α := { s with entries := s.entries.insert (o.hash x) c }
    refine ⟨s'.trim.entries.contains (o.hash x), s'.trim, ?_, capacity_trim _, hsamples, ?_⟩
    · simp only [HashSample.add, if_neg hx, habsorb]
      rfl
    · exact hsamples.isSome_get?_iff.trans (and_iff_right hmem)

end StreamQuery
