import StreamQuery.Proofs.Sample.Merge
import StreamQuery.Proofs.Sketch.Outcomes
set_option autoImplicit false

/-!
# Reading a sketch twice

A merge takes samples out of their places before the step that may fail, and what was taken
out does not come back.  So a read that fails leaves less behind than there was, and another
read right after it need not fail.  Here it is worked out what the second read answers, for
every way in which the first one can fail.
-/

namespace StreamQuery

variable {α : Type}

/-! ## Merges that cannot fail -/

namespace HashSample

variable [Combine α] {s other : HashSample α}

/-- A merge answers as the absorbing of entries does. -/
theorem merge_done_of_absorbAll {t : Keyed UInt64 α}
    (h : absorbAll (s.entries.filter fun e => decide (e.1 < min s.bound other.bound))
      (other.entries.filter fun e => decide (e.1 < min s.bound other.bound)).entries = .done () t) :
    ∃ s', s.merge other = .done () s' := by
  refine ⟨HashSample.trim ⟨s.capacity, min s.bound other.bound, t⟩, ?_⟩
  show ((absorbAll _ _).within _).andThen _ = _
  rw [h]
  rfl

/-- Nothing stands in the way of entries that come into an empty sample. -/
theorem merge_of_empty_left (h : s.entries = .empty) : ∃ s', s.merge other = .done () s' := by
  let m := min s.bound other.bound
  let incoming := other.entries.filter fun e => decide (e.1 < m)
  obtain ⟨t, ht, -⟩ := absorbAll_done (f := incoming.get?) incoming.ascending
    (t := (Keyed.empty : Keyed UInt64 α).filter fun e => decide (e.1 < m))
    fun e he => .inl ⟨rfl, Keyed.get?_eq_some_iff.2 he⟩
  apply merge_done_of_absorbAll (t := t)
  rw [h]
  exact ht

theorem merge_of_empty_right (h : other.entries = .empty) : ∃ s', s.merge other = .done () s' := by
  apply merge_done_of_absorbAll
    (t := s.entries.filter fun e => decide (e.1 < min s.bound other.bound))
  rw [h]
  rfl

end HashSample

/-! ## What holds of every sketch -/

/-- Samples that no flag tells of are empty, and a sketch that was merged since it was last offered
something has its result. -/
structure Coherent (k : Sketch α) : Prop where
  blank_empty : k.parts.blank.entries = .empty
  updates_empty : k.updated = false → k.parts.updates.entries = .empty
  unions_empty : k.unioned = false → k.parts.unions.entries = .empty
  idle : k.stale = false → k.parts.result ≠ none

theorem coherent_new (capacity : Nat) : Coherent (Sketch.new capacity : Sketch α) where
  blank_empty := rfl
  updates_empty _ := rfl
  unions_empty _ := rfl
  idle h := nomatch h

variable {k : Sketch α}

/-- What is left of a sketch when a result was folded. -/
theorem Coherent.withoutResult (h : Coherent k) (hstale : k.stale = true) (u : HashSample α)
    {unioned : Bool} (hu : unioned = true) :
    Coherent { k.withoutResult u with unioned } where
  blank_empty := h.blank_empty
  updates_empty := h.updates_empty
  unions_empty hu' := by
    have hfalse : unioned = false := hu'
    rw [hu] at hfalse
    cases hfalse
  idle hi := by
    have hfalse : k.stale = false := hi
    rw [hstale] at hfalse
    cases hfalse

/-- What is left of a sketch whose updates were taken out. -/
theorem Coherent.withoutUpdates (h : Coherent k) (hstale : k.stale = true) (u : HashSample α) :
    Coherent (k.withoutUpdates u) where
  blank_empty := h.blank_empty
  updates_empty _ := h.blank_empty
  unions_empty hu := nomatch hu
  idle hi := by
    have hfalse : k.stale = false := hi
    rw [hstale] at hfalse
    cases hfalse

/-- A sketch whose working samples are empty and that has a result is settled. -/
theorem Coherent.settle (hblank : k.parts.blank.entries = .empty)
    (hupdates : k.parts.updates.entries = .empty) (hunions : k.parts.unions.entries = .empty)
    (hres : k.parts.result ≠ none) : Coherent k.settle where
  blank_empty := hblank
  updates_empty _ := hupdates
  unions_empty _ := hunions
  idle _ := hres

variable [Combine α]

theorem Coherent.reset (h : Coherent k) : Coherent (Lazy.reset k) where
  blank_empty := h.blank_empty
  updates_empty _ := rfl
  unions_empty _ := rfl
  idle hi := nomatch hi

theorem Coherent.add (h : Coherent k) (hash : UInt64) (a : α) :
    Coherent (Sketch.add k hash a).2 where
  blank_empty := h.blank_empty
  updates_empty hu := nomatch hu
  unions_empty := h.unions_empty
  idle hi := nomatch hi

theorem Coherent.unionBytes [JsonForm α] (h : Coherent k) (bs : Bytes) :
    Coherent (Sketch.unionBytes k bs).2 where
  blank_empty := h.blank_empty
  updates_empty := h.updates_empty
  unions_empty hu := nomatch hu
  idle hi := nomatch hi

/-! ## The ways of a merge -/

/-- Merging what is pending without a result: it succeeds, or the unions refuse the updates. -/
theorem Coherent.mergePending_cases (h : Coherent k) (hres : k.parts.result = none) :
    (∃ k', Lazy.mergePending k = .done () k' ∧ Coherent k'.settle) ∨
      ∃ e u, k.updated = true ∧ k.unioned = true ∧
        k.parts.unions.merge k.parts.updates = .fail e u ∧
        Lazy.mergePending k = .fail e (k.withoutUpdates u) := by
  cases hunioned : k.unioned with
  | false =>
    refine .inl ⟨_, mergePending_of_not_unioned hunioned, ?_⟩
    exact .settle h.blank_empty h.blank_empty (h.unions_empty hunioned) nofun
  | true =>
    cases hupdated : k.updated with
    | false =>
      refine .inl ⟨_, mergePending_of_not_updated hunioned hupdated, ?_⟩
      exact .settle h.blank_empty (h.updates_empty hupdated) h.blank_empty nofun
    | true =>
      rcases hmerge : k.parts.unions.merge k.parts.updates with ⟨⟨e⟩ | ⟨⟨⟩⟩, u⟩
      · exact .inr ⟨e, u, rfl, rfl, rfl, mergePending_of_fail hres hunioned hupdated hmerge⟩
      · refine .inl ⟨_, mergePending_of_done hunioned hupdated hmerge, ?_⟩
        exact .settle h.blank_empty h.blank_empty h.blank_empty nofun

/-- The unions take an empty result or empty updates without failing. -/
theorem merge_fail_left {s t u : HashSample α} {e : QueryError} (h : s.merge t = .fail e u) :
    s.entries ≠ .empty := by
  intro hempty
  obtain ⟨s', hdone⟩ : ∃ s', s.merge t = .done () s' := HashSample.merge_of_empty_left hempty
  rw [h] at hdone
  cases hdone

/-- What a merge of a sketch that needs one can do: it succeeds, or the unions refuse the result,
or they refuse the updates when the result, if there was one, is folded already. -/
theorem Coherent.merge_cases (h : Coherent k) (hstale : k.stale = true) :
    (∃ k', Lazy.merge k = .done () k' ∧ Coherent k' ∧ k'.stale = false) ∨
      (∃ r e u, k.parts.result = some r ∧ k.unioned = true ∧
        k.parts.unions.merge r = .fail e u ∧ Lazy.merge k = .fail e (k.withoutResult u)) ∨
      ∃ e u, k.updated = true ∧ Lazy.merge k = .fail e (k.withoutUpdates u) ∧
        ∀ r e' u', k.parts.result = some r → k.parts.unions.merge r ≠ .fail e' u' := by
  have hmerge : Lazy.merge k = (Lazy.foldResult k).andThen fun _ s =>
      s.mergePending.andThen fun _ s => .done () s.settle := by
    rw [Lazy.merge, if_pos hstale]
  -- after the fold all depends on the pending merge
  have hpending : ∀ k₁, Coherent k₁ → k₁.parts.result = none →
      Lazy.foldResult k = .done () k₁ →
      (∃ k', Lazy.merge k = .done () k' ∧ Coherent k' ∧ k'.stale = false) ∨
        ∃ e u, k₁.updated = true ∧ k₁.unioned = true ∧
          Lazy.merge k = .fail e (k₁.withoutUpdates u) := by
    intro k₁ hk₁ hres hfold
    rcases hk₁.mergePending_cases hres with ⟨k', hdone, hk'⟩ | ⟨e, u, hupdated, hunioned, -, hfail⟩
    · refine .inl ⟨k'.settle, ?_, hk', rfl⟩
      rw [hmerge, hfold, Transition.andThen_done, hdone, Transition.andThen_done]
    · refine .inr ⟨e, u, hupdated, hunioned, ?_⟩
      rw [hmerge, hfold, Transition.andThen_done, hfail, Transition.andThen_fail]
  cases hres : k.parts.result with
  | none =>
    rcases hpending k h hres (foldResult_of_none hres) with hdone | ⟨e, u, hupdated, -, hfail⟩
    · exact .inl hdone
    · refine .inr (.inr ⟨e, u, hupdated, hfail, ?_⟩)
      rintro r e' u' ⟨⟩
  | some r =>
    rcases hfold : k.parts.unions.merge r with ⟨⟨e⟩ | ⟨⟨⟩⟩, u⟩
    · refine .inr (.inl ⟨r, e, u, rfl, ?_, hfold, ?_⟩)
      · cases hunioned : k.unioned with
        | true => rfl
        | false => exact absurd (h.unions_empty hunioned) (merge_fail_left hfold)
      · rw [hmerge, foldResult_of_fail hres hfold, Transition.andThen_fail]
    · rcases hpending _ (h.withoutResult hstale u rfl) rfl (foldResult_of_done hres hfold) with
        hdone | ⟨e, u', hupdated, -, hfail⟩
      · exact .inl hdone
      · refine .inr (.inr ⟨e, u', hupdated, hfail, ?_⟩)
        rintro r' e' u'' ⟨⟩ hfail'
        rw [hfold] at hfail'
        cases hfail'

/-! ## Reads -/

/-- What a read can do, and what it leaves behind. -/
theorem Coherent.result_cases (h : Coherent k) :
    (∃ t k', Sketch.result k = .done t k' ∧ Coherent k' ∧ Sketch.result k' = .done t k') ∨
      (k.stale = true ∧ ∃ r e u, k.parts.result = some r ∧ k.unioned = true ∧
        k.parts.unions.merge r = .fail e u ∧ Sketch.result k = .fail e (k.withoutResult u)) ∨
      (k.stale = true ∧ ∃ e u, k.updated = true ∧ Sketch.result k = .fail e (k.withoutUpdates u) ∧
        ∀ r e' u', k.parts.result = some r → k.parts.unions.merge r ≠ .fail e' u') := by
  cases hstale : k.stale with
  | false =>
    obtain ⟨t, ht⟩ := Option.ne_none_iff_exists'.1 (h.idle hstale)
    have hread := result_of_not_stale hstale ht
    exact .inl ⟨t, k, hread, h, hread⟩
  | true =>
    rcases h.merge_cases hstale with ⟨k', hdone, hk', hidle⟩ | ⟨r, e, u, hres, hu, hfold, hfail⟩ |
      ⟨e, u, hupdated, hfail, hfold⟩
    · obtain ⟨t, ht⟩ := Option.ne_none_iff_exists'.1 (hk'.idle hidle)
      exact .inl ⟨t, k', result_of_done hdone ht, hk', result_of_not_stale hidle ht⟩
    · exact .inr (.inl ⟨rfl, r, e, u, hres, hu, hfold, result_of_fail hfail⟩)
    · exact .inr (.inr ⟨rfl, e, u, hupdated, result_of_fail hfail, hfold⟩)

theorem Coherent.result (h : Coherent k) : Coherent (Sketch.result k).2 := by
  rcases h.result_cases with ⟨t, k', hread, hk', -⟩ | ⟨hstale, r, e, u, -, hunioned, -, hread⟩ |
    ⟨hstale, e, u, hupdated, hread, -⟩
  · rw [hread]
    exact hk'
  · rw [hread]
    have hk' := h.withoutResult hstale u hunioned
    exact hk'
  · rw [hread]
    exact h.withoutUpdates hstale u

/-! ## Second reads -/

/-- Without a result, and with unions pending, a merge asks the unions to take the updates. -/
theorem Coherent.merge_fst (h : Coherent k) (hstale : k.stale = true) (hunioned : k.unioned = true)
    (hres : k.parts.result = none) :
    (Lazy.merge k).1 = (k.parts.unions.merge k.parts.updates).1 := by
  have hmerge : Lazy.merge k = k.mergePending.andThen fun _ s => .done () s.settle := by
    rw [Lazy.merge, if_pos hstale, foldResult_of_none hres, Transition.andThen_done]
  rcases h.mergePending_cases hres with ⟨k', hdone, -⟩ | ⟨e, u, -, -, hfold, hfail⟩
  · rw [hmerge, hdone]
    cases hupdated : k.updated with
    | false =>
      obtain ⟨s', hs'⟩ := HashSample.merge_of_empty_right (s := k.parts.unions)
        (h.updates_empty hupdated)
      rw [hs']
      rfl
    | true =>
      rcases hfold : k.parts.unions.merge k.parts.updates with ⟨⟨e⟩ | ⟨⟨⟩⟩, u⟩
      · have hparts : SampleParts.mergeBoth k.parts
            = .fail e { k.parts with unions := u, updates := k.parts.blank } := by
          simp only [SampleParts.mergeBoth, SampleParts.mergeIntoUnions, hfold]
          rfl
        simp only [Lazy.mergePending, hunioned, hupdated, Merging.mergeBoth, hparts] at hdone
        cases hdone
      · rfl
  · rw [hmerge, hfail, hfold]
    rfl

/-- A read fails exactly with the errors of the merge. -/
theorem Coherent.result_eq_error_iff (h : Coherent k) {e : QueryError} :
    (Sketch.result k).1 = .error e ↔ (Lazy.merge k).1 = .error e := by
  cases hstale : k.stale with
  | false =>
    obtain ⟨t, ht⟩ := Option.ne_none_iff_exists'.1 (h.idle hstale)
    rw [result_of_not_stale hstale ht, Lazy.merge_of_not_stale hstale]
    exact ⟨nofun, nofun⟩
  | true =>
    rcases h.merge_cases hstale with ⟨k', hdone, hk', hidle⟩ | ⟨r, e', u, -, -, -, hfail⟩ |
      ⟨e', u, -, hfail, -⟩
    · obtain ⟨t, ht⟩ := Option.ne_none_iff_exists'.1 (hk'.idle hidle)
      rw [result_of_done hdone ht, hdone]
      exact ⟨nofun, nofun⟩
    · rw [result_of_fail hfail, hfail]
      constructor <;> exact fun he => congrArg Except.error (Except.error.inj he)
    · rw [result_of_fail hfail, hfail]
      constructor <;> exact fun he => congrArg Except.error (Except.error.inj he)

/-- The unions refuse the result, and what they are then refuses the updates. -/
def Sketch.RefusesTwice (k : Sketch α) : Prop :=
  ∃ r e u, k.parts.result = some r ∧ k.parts.unions.merge r = .fail e u ∧
    (u.merge k.parts.updates).1 = .error e

/-- A second read right after a first one has its outcome exactly if the first one succeeded, or if
the unions refuse first the result and then the updates, with the same error. -/
theorem Coherent.reads_alike_iff (h : Coherent k) :
    (Sketch.result (Sketch.result k).2).1 = (Sketch.result k).1 ↔
      (∃ t, (Sketch.result k).1 = .ok t) ∨ k.RefusesTwice := by
  rcases h.result_cases with ⟨t, k', hread, -, hagain⟩ |
    ⟨hstale, r, e, u, hres, hunioned, hfold, hread⟩ | ⟨hstale, e, u, hupdated, hread, hfold⟩
  · rw [hread]
    refine ⟨fun _ => .inl ⟨t, rfl⟩, fun _ => ?_⟩
    show (Sketch.result k').1 = _
    rw [hagain]
  · have hk' : Coherent (k.withoutResult u) := h.withoutResult hstale u hunioned
    have hmerge := hk'.merge_fst hstale hunioned rfl
    rw [hread]
    show (Sketch.result (k.withoutResult u)).1 = .error e ↔ _
    rw [hk'.result_eq_error_iff, hmerge]
    constructor
    · intro hagain
      exact .inr ⟨r, e, u, hres, hfold, hagain⟩
    · rintro (⟨t, ht⟩ | ⟨r', e', u', hres', hfold', hagain⟩)
      · cases ht
      · cases hres.symm.trans hres'
        cases hfold.symm.trans hfold'
        exact hagain
  · have hk' : Coherent (k.withoutUpdates u) := h.withoutUpdates hstale u
    have hmerge := hk'.merge_fst hstale rfl rfl
    obtain ⟨s', hdone⟩ := HashSample.merge_of_empty_right (s := u) h.blank_empty
    have hblank : (k.withoutUpdates u).parts.unions.merge (k.withoutUpdates u).parts.updates
        = .done () s' := hdone
    rw [hread]
    show (Sketch.result (k.withoutUpdates u)).1 = .error e ↔ _
    rw [hk'.result_eq_error_iff, hmerge, hblank]
    constructor
    · rintro ⟨⟩
    · rintro (⟨t, ht⟩ | ⟨r', e', u', hres', hfold', -⟩)
      · cases ht
      · exact absurd hfold' (hfold r' e' u' hres')

end StreamQuery
