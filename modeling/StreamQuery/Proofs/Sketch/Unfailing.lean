import StreamQuery.Proofs.Sketch.Keeping
import StreamQuery.Proofs.Sketch.Rereading
set_option autoImplicit false

/-!
# Reads that cannot fail

A sketch fails to merge only where one of its samples refuses another one.  So it can always be read
as long as its samples keep a property of which any two samples take each other.  And an empty
sketch that takes a single sample reads that sample.
-/

namespace StreamQuery

variable {α : Type} [Combine α] {blank t : HashSample α} {U V : HashSample α → Prop}
  {k k' : Sketch α}

/-- Samples that all merge with each other. -/
def Mergeable (V : HashSample α → Prop) : Prop :=
  ∀ s t, V s → V t → ∃ u, s.merge t = .done () u

/-- A sketch of samples that take each other does not fail to merge. -/
theorem Lasting.merge_done (lasting : Lasting blank U V) (hmergeable : Mergeable V)
    (h : k.parts.Have blank U V) : ∃ k', Lazy.merge k = .done () k' := by
  have hpending (k₁ : Sketch α) (h₁ : k₁.parts.Have blank U V) :
      ∃ k', Lazy.mergePending k₁ = .done () k' := by
    cases hunioned : k₁.unioned with
    | false => exact ⟨_, mergePending_of_not_unioned hunioned⟩
    | true =>
      cases hupdated : k₁.updated with
      | false => exact ⟨_, mergePending_of_not_updated hunioned hupdated⟩
      | true =>
        obtain ⟨u, hu⟩ := hmergeable _ _ h₁.unions (lasting.publish h₁.updates)
        exact ⟨_, mergePending_of_done hunioned hupdated hu⟩
  cases hstale : k.stale with
  | false => exact ⟨k, Lazy.merge_of_not_stale hstale⟩
  | true =>
    have hfold : ∃ k₁, Lazy.foldResult k = .done () k₁ ∧ k₁.parts.Have blank U V := by
      cases hres : k.parts.result with
      | none => exact ⟨k, foldResult_of_none hres, h⟩
      | some r =>
        obtain ⟨u, hu⟩ := hmergeable _ _ h.unions (h.result r hres)
        have hV := lasting.merge h.unions (h.result r hres)
        rw [hu] at hV
        exact ⟨_, foldResult_of_done hres hu, { h with unions := hV, result := nofun }⟩
    obtain ⟨k₁, hk₁, h₁⟩ := hfold
    obtain ⟨k₂, hk₂⟩ := hpending k₁ h₁
    exact ⟨k₂.settle, by
      rw [Lazy.merge_of_stale hstale, hk₁, Transition.andThen_done, hk₂, Transition.andThen_done]⟩

/-- What was read is the result of the sketch. -/
theorem parts_result_of_done (h : Sketch.result k = .done t k') : k'.parts.result = some t := by
  rcases hmerge : Lazy.merge k with ⟨⟨e⟩ | ⟨⟨⟩⟩, k₁⟩
  · rw [result_of_fail hmerge] at h
    cases h
  · cases hres : k₁.parts.result with
    | none =>
      have hdone : Lazy.merge k = .done () k₁ := hmerge
      have hnone : Sketch.result k = .fail (.sketch .noResult) k₁ := by
        simp only [Sketch.result, Lazy.read, hdone, Transition.andThen_done]
        simp only [Transition.mapOutcome, Transition.done, Except.bind, hres]
        rfl
      rw [hnone] at h
      cases h
    | some r =>
      rw [result_of_done hmerge hres] at h
      cases h
      exact hres

/-- A sketch of samples that take each other can be read, and read again. -/
theorem Lasting.result_done (lasting : Lasting blank U V) (hmergeable : Mergeable V)
    (h : k.parts.Have blank U V) (hk : Coherent k) :
    ∃ t k', Sketch.result k = .done t k' ∧ V t ∧ Sketch.result k' = .done t k' := by
  obtain ⟨k₁, hmerge⟩ := lasting.merge_done hmergeable h
  have hok {e : QueryError} : (Sketch.result k).1 ≠ .error e := by
    rw [Ne, hk.result_eq_error_iff, hmerge]
    nofun
  have hkept := lasting.result h
  rcases hk.result_cases with ⟨t, k', hread, -, hagain⟩ | ⟨-, r, e, u, -, -, -, hread⟩ |
    ⟨-, e, u, -, hread, -⟩
  · rw [hread] at hkept
    exact ⟨t, k', hread, hkept.result t (parts_result_of_done hread), hagain⟩
  · exact absurd (congrArg Prod.fst hread) hok
  · exact absurd (congrArg Prod.fst hread) hok

/-! ## A single sample -/

/-- An empty sketch that takes a sample of its capacity reads that sample. -/
theorem unionBytes_new [JsonForm α] {capacity used : Nat} {bs : Bytes}
    (hread : HashSample.ofBytes bs = .ok (t, used)) (ht : t.Formed capacity) (hfits : t.Fits) :
    ∃ k k', Sketch.unionBytes (Sketch.new capacity) bs = .done used k ∧
      Sketch.result k = .done t k' ∧ Sketch.result k' = .done t k' := by
  have hmerge : (HashSample.new capacity).merge t = .done () t := by
    rw [HashSample.merge_new ht, HashSample.trim_of_fits hfits]
  let k : Sketch α := { (Sketch.new capacity : Sketch α) with
    parts := { (Sketch.new capacity : Sketch α).parts with unions := t }, unioned := true }
  have hunion : Sketch.unionBytes (Sketch.new capacity) bs = .done used k := by
    have hsample : (Sketch.new capacity : Sketch α).parts.unions.unionBytes bs = .done used t := by
      show HashSample.unionBytes (.new capacity) bs = _
      rw [HashSample.unionBytes, hread]
      simp only [hmerge]
      rfl
    simp only [Sketch.unionBytes, Lazy.union, hsample]
    rfl
  have hfold : Lazy.foldResult k = .done () k := foldResult_of_none rfl
  have hpending : Lazy.mergePending k = .done () { k with parts := k.parts.publishUnions } :=
    mergePending_of_not_updated rfl rfl
  have hmerged : Lazy.merge k
      = .done () (Lazy.settle { k with parts := k.parts.publishUnions }) := by
    rw [Lazy.merge_of_stale rfl, hfold, Transition.andThen_done, hpending, Transition.andThen_done]
  exact ⟨k, _, hunion, result_of_done hmerged rfl, result_of_not_stale rfl rfl⟩

end StreamQuery
