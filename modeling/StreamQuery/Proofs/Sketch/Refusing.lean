import StreamQuery.Proofs.Sketch.Keeping
import StreamQuery.Proofs.Sketch.Rereading
set_option autoImplicit false

/-!
# Unions that a sketch refuses

A sketch counts a union as pending even if it refuses it.  Where the bytes cannot be read that is
all that is left of them, and it makes the next read merge once more; the merge finds blank unions
and so it makes no difference, unless it trims a result that an earlier refusal had left with more
than there is room for.  Where a value is refused the union stops, and what came before stays.
-/

namespace StreamQuery

variable {σ α : Type}

/-! ## The number of merges -/

section Recount

variable [Merging σ]

/-- The number of merges is told by nothing but itself. -/
theorem Lazy.merge_recount (s : Lazy σ) (n : Nat) : ∃ m, Lazy.merge { s with mergeCount := n }
    = (Lazy.merge s).within fun s' => { s' with mergeCount := m } := by
  have hfold : Lazy.foldResult { s with mergeCount := n }
      = (Lazy.foldResult s).within fun s' => { s' with mergeCount := n } := by
    unfold Lazy.foldResult
    rcases Merging.foldResult s.parts with ⟨⟨e⟩ | ⟨folded⟩, p⟩ <;> rfl
  have hpending (s : Lazy σ) : Lazy.mergePending { s with mergeCount := n }
      = (Lazy.mergePending s).within fun s' => { s' with mergeCount := n } := rfl
  unfold Lazy.merge
  split
  · rw [hfold]
    rcases Lazy.foldResult s with ⟨⟨e⟩ | ⟨⟨⟩⟩, s₁⟩
    · exact ⟨n, rfl⟩
    · show ∃ m, (Lazy.mergePending { s₁ with mergeCount := n }).andThen _
        = (s₁.mergePending.andThen _).within _
      rw [hpending]
      rcases Lazy.mergePending s₁ with ⟨⟨e⟩ | ⟨⟨⟩⟩, s₂⟩
      · exact ⟨n, rfl⟩
      · exact ⟨n + 1, rfl⟩
  · exact ⟨n, rfl⟩

end Recount

variable [Combine α] {k : Sketch α} {capacity : Nat}

theorem Sketch.result_recount (k : Sketch α) (n : Nat) :
    ∃ m, Sketch.result { k with mergeCount := n }
      = (Sketch.result k).within fun k' => { k' with mergeCount := m } := by
  obtain ⟨m, hmerge⟩ := Lazy.merge_recount k n
  refine ⟨m, ?_⟩
  simp only [Sketch.result, Lazy.read, hmerge]
  rcases Lazy.merge k with ⟨⟨e⟩ | ⟨⟨⟩⟩, k'⟩ <;> rfl

/-! ## Flags -/

/-- A working sample that no flag tells of is blank, and a sketch that was merged since it was last
offered something has its result and nothing else. -/
structure Tidy (k : Sketch α) : Prop where
  updates : k.updated = false → k.parts.updates = k.parts.blank
  unions : k.unioned = false → k.parts.unions = k.parts.blank
  idle : k.stale = false → k.updated = false ∧ k.unioned = false ∧ k.parts.result ≠ none

omit [Combine α] in
theorem tidy_new (capacity : Nat) : Tidy (Sketch.new capacity : Sketch α) where
  updates _ := rfl
  unions _ := rfl
  idle h := nomatch h

theorem Tidy.add (h : Tidy k) (hash : UInt64) (a : α) : Tidy (Sketch.add k hash a).2 where
  updates hu := nomatch hu
  unions := h.unions
  idle hi := nomatch hi

theorem Tidy.unionBytes [JsonForm α] (h : Tidy k) (bs : Bytes) :
    Tidy (Sketch.unionBytes k bs).2 where
  updates := h.updates
  unions hu := nomatch hu
  idle hi := nomatch hi

/-- A sketch is reset to blank samples. -/
theorem Tidy.reset (hupdates : k.parts.updates.clear = k.parts.blank)
    (hunions : k.parts.unions.clear = k.parts.blank) : Tidy (Lazy.reset k) where
  updates _ := hupdates
  unions _ := hunions
  idle hi := nomatch hi

omit [Combine α] in
/-- A sketch whose working samples are blank and that has a result is settled. -/
theorem Tidy.settle (hupdates : k.parts.updates = k.parts.blank)
    (hunions : k.parts.unions = k.parts.blank) (hres : k.parts.result ≠ none) :
    Tidy k.settle where
  updates _ := hupdates
  unions _ := hunions
  idle _ := ⟨rfl, rfl, hres⟩

/-- Merging what is pending leaves a sketch settled, or its unions as they refused the updates. -/
theorem Tidy.mergePending_cases (h : Tidy k) (hres : k.parts.result = none) :
    (∃ k', Lazy.mergePending k = .done () k' ∧ Tidy k'.settle) ∨
      ∃ e u, Lazy.mergePending k = .fail e (k.withoutUpdates u) := by
  cases hunioned : k.unioned with
  | false =>
    exact .inl ⟨_, mergePending_of_not_unioned hunioned, .settle rfl (h.unions hunioned) nofun⟩
  | true =>
    cases hupdated : k.updated with
    | false =>
      exact .inl ⟨_, mergePending_of_not_updated hunioned hupdated,
        .settle (h.updates hupdated) rfl nofun⟩
    | true =>
      rcases hmerge : k.parts.unions.merge k.parts.updates with ⟨⟨e⟩ | ⟨⟨⟩⟩, u⟩
      · exact .inr ⟨e, u, mergePending_of_fail hres hunioned hupdated hmerge⟩
      · exact .inl ⟨_, mergePending_of_done hunioned hupdated hmerge, .settle rfl rfl nofun⟩

/-- Whatever becomes of a merge, the sketch is tidy after it. -/
theorem Tidy.merge (h : Tidy k) (hblank : k.parts.blank.entries = .empty) :
    Tidy (Lazy.merge k).2 := by
  cases hstale : k.stale with
  | false =>
    rw [Lazy.merge_of_not_stale hstale]
    exact h
  | true =>
    have hpending : ∀ k₁ : Sketch α, Tidy k₁ → k₁.parts.result = none → k₁.stale = true →
        Tidy (k₁.mergePending.andThen fun _ s => .done () s.settle).2 := by
      intro k₁ hk₁ hres hstale₁
      rcases hk₁.mergePending_cases hres with ⟨k', hdone, hk'⟩ | ⟨e, u, hfail⟩
      · rw [hdone]
        exact hk'
      · rw [hfail]
        exact {
          updates := fun _ => rfl
          unions := nofun
          idle := fun hi => nomatch hstale₁.symm.trans hi }
    rw [Lazy.merge_of_stale hstale]
    cases hres : k.parts.result with
    | none =>
      rw [foldResult_of_none hres]
      exact hpending k h hres hstale
    | some r =>
      rcases hfold : k.parts.unions.merge r with ⟨⟨e⟩ | ⟨⟨⟩⟩, u⟩
      · rw [foldResult_of_fail hres hfold]
        refine ⟨h.updates, ?_, fun hi => nomatch hstale.symm.trans hi⟩
        intro hunioned
        -- blank unions refuse nothing
        exact absurd (h.unions hunioned ▸ hblank) (merge_fail_left hfold)
      · rw [foldResult_of_done hres hfold]
        exact hpending _ {
          updates := h.updates
          unions := nofun
          idle := fun hi => nomatch hstale.symm.trans hi } rfl hstale

/-! ## Bytes that cannot be read -/

/-- The sketch with unions pending. -/
def Sketch.alerted (k : Sketch α) : Sketch α := { k with unioned := true, stale := true }

omit [Combine α] in
theorem Sketch.stale_alerted (k : Sketch α) : k.alerted.stale = true := rfl

omit [Combine α] in
theorem Sketch.unioned_alerted (k : Sketch α) : k.alerted.unioned = true := rfl

/-- All that is left of bytes that cannot be read is that unions are pending. -/
theorem unionBytes_of_unreadable [JsonForm α] {bs : Bytes} {e : QueryError}
    (h : HashSample.ofBytes (α := α) bs = .error e) :
    Sketch.unionBytes k bs = .fail e k.alerted := by
  simp only [Sketch.unionBytes, Lazy.union, HashSample.unionBytes, h]
  rfl

/-- The result of the merge before is settled and holds more than there is room for, which a merge
may leave if the one before it failed. -/
def Sketch.Overfull (k : Sketch α) : Prop :=
  k.stale = false ∧ ∃ r, k.parts.result = some r ∧ ¬r.Fits

/-- The samples of a sketch, as far as their capacity, bounds and sizes go. -/
abbrev Sketch.Formed (capacity : Nat) (k : Sketch α) : Prop :=
  k.parts.Have (.new capacity) (fun s => s.Formed capacity ∧ s.Fits) (HashSample.Formed capacity)

/-- A settled result that is merged once more comes out trimmed. -/
theorem result_alerted_of_settled (h : k.Formed capacity) (tidy : Tidy k) (hstale : k.stale = false)
    {r : HashSample α} (hres : k.parts.result = some r) :
    Sketch.result k.alerted = .done r.trim { k with
      parts := { k.parts with result := some r.trim }, mergeCount := k.mergeCount + 1 } := by
  obtain ⟨hupdated, hunioned, -⟩ := tidy.idle hstale
  have hunions := tidy.unions hunioned
  have hfold : k.alerted.parts.unions.merge r = .done () r.trim := by
    show k.parts.unions.merge r = _
    rw [hunions, h.blank_eq]
    exact HashSample.merge_new (h.result r hres)
  have hmerge : Lazy.merge k.alerted = .done () { k with
      parts := { k.parts with result := some r.trim }, mergeCount := k.mergeCount + 1 } := by
    have hfolded : Lazy.foldResult k.alerted = .done () _ := foldResult_of_done hres hfold
    have hpending : Lazy.mergePending { k.alerted.withoutResult r.trim with unioned := true }
        = .done () _ := mergePending_of_not_updated rfl hupdated
    rw [Lazy.merge_of_stale k.stale_alerted, hfolded, Transition.andThen_done, hpending,
      Transition.andThen_done]
    obtain ⟨⟨updates, unions, result, blank⟩, updated, unioned, stale, count⟩ := k
    cases hunions
    cases hupdated
    cases hunioned
    cases hstale
    rfl
  exact result_of_done hmerge rfl

/-- Blank unions that count as pending take the updates without changing them. -/
theorem merge_alerted_of_blank (h : k.Formed capacity) (tidy : Tidy k)
    (hunioned : k.unioned = false) (hstale : k.stale = true) (hres : k.parts.result = none) :
    Lazy.merge k.alerted = Lazy.merge k := by
  have hunions := tidy.unions hunioned
  have hpending : Lazy.mergePending k.alerted
      = .done () { k.alerted with parts := k.parts.publishUpdates } := by
    cases hupdated : k.updated with
    | false =>
      have hupdates := tidy.updates hupdated
      rw [mergePending_of_not_updated k.unioned_alerted hupdated]
      simp only [SampleParts.publishUnions, SampleParts.publishUpdates, Sketch.alerted, hunions,
        hupdates]
    | true =>
      have hmerge : k.alerted.parts.unions.merge k.alerted.parts.updates
          = .done () k.parts.updates := by
        show k.parts.unions.merge k.parts.updates = _
        rw [hunions, h.blank_eq, HashSample.merge_new h.updates.1,
          HashSample.trim_of_fits h.updates.2]
      rw [mergePending_of_done k.unioned_alerted hupdated hmerge]
      simp only [SampleParts.publishUnions, SampleParts.publishUpdates, Sketch.alerted, hunions]
  have hfold : Lazy.foldResult k.alerted = .done () k.alerted := foldResult_of_none hres
  rw [Lazy.merge_of_stale k.stale_alerted, Lazy.merge_of_stale hstale, foldResult_of_none hres,
    hfold, Transition.andThen_done, Transition.andThen_done, hpending,
    mergePending_of_not_unioned hunioned]
  rfl

/-- Pending unions that are none change no read, unless a settled result is overfull. -/
theorem result_alerted (h : k.Formed capacity) (tidy : Tidy k) (hroom : ¬k.Overfull) :
    ∃ n, Sketch.result k.alerted
      = (Sketch.result k).within fun k' => { k' with mergeCount := n } := by
  cases hstale : k.stale with
  | false =>
    obtain ⟨-, -, hresult⟩ := tidy.idle hstale
    obtain ⟨r, hres⟩ := Option.ne_none_iff_exists'.1 hresult
    have hfits : r.Fits := by
      by_contra hover
      exact hroom ⟨hstale, r, hres, hover⟩
    refine ⟨k.mergeCount + 1, ?_⟩
    rw [result_alerted_of_settled h tidy hstale hres, result_of_not_stale hstale hres,
      HashSample.trim_of_fits hfits, ← hres]
    rfl
  | true =>
    have hsame : Sketch.result k.alerted = Sketch.result k → ∃ n, Sketch.result k.alerted
        = (Sketch.result k).within fun k' => { k' with mergeCount := n } := by
      intro heq
      rw [heq]
      exact Sketch.result_recount k k.mergeCount
    apply hsame
    cases hunioned : k.unioned with
    | true =>
      have halerted : k.alerted = k := by
        obtain ⟨parts, updated, unioned, stale, count⟩ := k
        cases hunioned
        cases hstale
        rfl
      rw [halerted]
    | false =>
      cases hres : k.parts.result with
      | none =>
        simp only [Sketch.result, Lazy.read, merge_alerted_of_blank h tidy hunioned hstale hres]
      | some r =>
        -- a result that is folded makes unions pending anyway
        have hfold : k.parts.unions.merge r = .done () r.trim := by
          rw [tidy.unions hunioned, h.blank_eq]
          exact HashSample.merge_new (h.result r hres)
        have hsame : Lazy.foldResult k.alerted = Lazy.foldResult k := by
          rw [foldResult_of_done hres hfold, foldResult_of_done (k := k.alerted) hres hfold]
          simp only [Sketch.alerted, Sketch.withoutResult, hstale]
        have hmerge : Lazy.merge k.alerted = Lazy.merge k := by
          rw [Lazy.merge_of_stale k.stale_alerted, Lazy.merge_of_stale hstale, hsame]
        simp only [Sketch.result, Lazy.read, hmerge]

/-! ## Sketches that read alike -/

/-- The second sketch is the first one but for the number of merges, or but for unions that count as
pending and are none. -/
def Sketch.Follows (k k' : Sketch α) : Prop :=
  ∃ n, k' = { k with mergeCount := n } ∨ (k' = { k.alerted with mergeCount := n } ∧ ¬k.Overfull)

namespace Sketch.Follows

variable {k' : Sketch α}

omit [Combine α] in
theorem of_stale (hstale : k.stale = true) {n : Nat} (h : k' = { k.alerted with mergeCount := n }) :
    k.Follows k' :=
  ⟨n, .inr ⟨h, fun hover => nomatch hstale.symm.trans hover.1⟩⟩

theorem add (h : k.Follows k') (hash : UInt64) (a : α) :
    (Sketch.add k' hash a).1 = (Sketch.add k hash a).1 ∧
      (Sketch.add k hash a).2.Follows (Sketch.add k' hash a).2 := by
  obtain ⟨n, rfl | ⟨rfl, -⟩⟩ := h
  · exact ⟨rfl, n, .inl rfl⟩
  · exact ⟨rfl, .of_stale rfl rfl⟩

theorem unionBytes [JsonForm α] (h : k.Follows k') (bs : Bytes) :
    (Sketch.unionBytes k' bs).1 = (Sketch.unionBytes k bs).1 ∧
      (Sketch.unionBytes k bs).2.Follows (Sketch.unionBytes k' bs).2 := by
  obtain ⟨n, rfl | ⟨rfl, -⟩⟩ := h
  · exact ⟨rfl, n, .inl rfl⟩
  · exact ⟨rfl, n, .inl rfl⟩

theorem reset (h : k.Follows k') : Sketch.Follows (Lazy.reset k) (Lazy.reset k') := by
  obtain ⟨n, rfl | ⟨rfl, -⟩⟩ := h
  · exact ⟨n, .inl rfl⟩
  · exact ⟨n, .inl rfl⟩

theorem result (h : k.Follows k') (hk : k.Formed capacity) (tidy : Tidy k) :
    (Sketch.result k').1 = (Sketch.result k).1 ∧
      (Sketch.result k).2.Follows (Sketch.result k').2 := by
  obtain ⟨n, rfl | ⟨rfl, hroom⟩⟩ := h
  · obtain ⟨m, hresult⟩ := Sketch.result_recount k n
    rw [hresult]
    exact ⟨rfl, m, .inl rfl⟩
  · obtain ⟨m, hresult⟩ := Sketch.result_recount k.alerted n
    obtain ⟨m', halerted⟩ := result_alerted hk tidy hroom
    rw [hresult, halerted]
    exact ⟨rfl, m, .inl rfl⟩

end Sketch.Follows

/-! ## Values that are refused -/

/-- What is left of a sample when a value of another one is refused: the smaller of the bounds
holds, the values under smaller hashes are absorbed, and the value that refuses is what its refusal
left. -/
def HashSample.StopsAt (s t : HashSample α) (e : QueryError) (u : HashSample α) : Prop :=
  ∃ before hash a after kept p p',
    (t.entries.filter fun entry => decide (entry.1 < min s.bound t.bound)).entries
      = before ++ (hash, a) :: after ∧
    HashSample.absorbAll (s.entries.filter fun entry => decide (entry.1 < min s.bound t.bound))
      before = .done () kept ∧
    kept.get? hash = some p ∧ Combine.combine p a = .fail e p' ∧
    u = ⟨s.capacity, min s.bound t.bound, kept.insert hash p'⟩

/-- Absorbing stops at the first value that is refused. -/
theorem absorbAll_fail {t u : Keyed UInt64 α} {entries : List (UInt64 × α)} {e : QueryError}
    (h : HashSample.absorbAll t entries = .fail e u) :
    ∃ before hash a after kept p p', entries = before ++ (hash, a) :: after ∧
      HashSample.absorbAll t before = .done () kept ∧ kept.get? hash = some p ∧
      Combine.combine p a = .fail e p' ∧ u = kept.insert hash p' := by
  induction entries generalizing t with
  | nil => cases h
  | cons entry rest ih =>
    obtain ⟨hash, a⟩ := entry
    unfold HashSample.absorbAll at h
    rcases habsorb : HashSample.absorb t hash a with ⟨⟨error⟩ | ⟨⟨⟩⟩, t'⟩
    · rw [habsorb] at h
      cases h
      unfold HashSample.absorb at habsorb
      split at habsorb
      · rename_i p hget
        rcases hcombine : Combine.combine p a with ⟨⟨error⟩ | ⟨⟨⟩⟩, p'⟩
        · rw [hcombine] at habsorb
          cases habsorb
          exact ⟨[], hash, a, rest, t, p, p', rfl, rfl, hget, hcombine, rfl⟩
        · rw [hcombine] at habsorb
          cases habsorb
      · cases habsorb
    · rw [habsorb] at h
      obtain ⟨before, hash', a', after, kept, p, p', rfl, hbefore, hget, hcombine, rfl⟩ := ih h
      refine ⟨(hash, a) :: before, hash', a', after, kept, p, p', rfl, ?_, hget, hcombine, rfl⟩
      unfold HashSample.absorbAll
      rw [habsorb]
      exact hbefore

/-- A merge that fails stops at a value that is refused. -/
theorem HashSample.stopsAt_of_merge {s t u : HashSample α} {e : QueryError}
    (h : s.merge t = .fail e u) : s.StopsAt t e u := by
  have hmerge : s.merge t = ((absorbAll
      (s.entries.filter fun entry => decide (entry.1 < min s.bound t.bound))
      (t.entries.filter fun entry => decide (entry.1 < min s.bound t.bound)).entries).within
        fun entries => (⟨s.capacity, min s.bound t.bound, entries⟩ : HashSample α)).andThen
      fun _ s => .done () s.trim := rfl
  rw [hmerge] at h
  rcases habsorb : absorbAll
      (s.entries.filter fun entry => decide (entry.1 < min s.bound t.bound))
      (t.entries.filter fun entry => decide (entry.1 < min s.bound t.bound)).entries with
    ⟨⟨error⟩ | ⟨⟨⟩⟩, entries⟩
  · rw [habsorb] at h
    cases h
    obtain ⟨before, hash, a, after, kept, p, p', hsplit, hbefore, hget, hcombine, rfl⟩ :=
      absorbAll_fail habsorb
    exact ⟨before, hash, a, after, kept, p, p', hsplit, hbefore, hget, hcombine, rfl⟩
  · rw [habsorb] at h
    cases h

/-- Only a sketch whose unions are pending can refuse a sample that was read, and it is left with
its unions as the refusal left them. -/
theorem unionBytes_of_refused [JsonForm α] (h : Coherent k) (tidy : Tidy k) {bs : Bytes}
    {t u : HashSample α} {used : Nat} {e : QueryError}
    (hread : HashSample.ofBytes bs = .ok (t, used)) (hmerge : k.parts.unions.merge t = .fail e u) :
    Sketch.unionBytes k bs = .fail e { k with parts := { k.parts with unions := u } } := by
  have hunioned : k.unioned = true := by
    by_contra hnot
    exact absurd (h.unions_empty (Bool.not_eq_true _ ▸ hnot)) (merge_fail_left hmerge)
  have hstale : k.stale = true := by
    by_contra hnot
    have hidle := (tidy.idle (Bool.not_eq_true _ ▸ hnot)).2.1
    rw [hunioned] at hidle
    cases hidle
  have hunion : Sketch.unionBytes k bs = .fail e { k with
      parts := { k.parts with unions := u }, unioned := true, stale := true } := by
    simp only [Sketch.unionBytes, Lazy.union, HashSample.unionBytes, hread, hmerge]
    rfl
  rw [hunion]
  obtain ⟨parts, updated, unioned, stale, count⟩ := k
  cases hunioned
  cases hstale
  rfl

end StreamQuery
