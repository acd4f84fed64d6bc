import StreamQuery.Proofs.Sample.Contents
import StreamQuery.Sketch
set_option autoImplicit false

/-!
# What a sketch keeps true of its samples

The updates of a sketch are only ever added to, and come from a blank sample; what is merged,
wherever it is from, goes into the unions and from there into the result.  So a sketch keeps one
property of its updates and another, weaker one, of its unions and its result, also when a merge
fails half-way.
-/

namespace StreamQuery

/-! ## Merges of parts -/

/-- A property of parts that merging keeps, whether it succeeds or not. -/
structure Merging.Keeps {σ : Type} [Merging σ] (Q : σ → Prop) : Prop where
  both : ∀ {p}, Q p → Q (mergeBoth p).2
  updates : ∀ {p}, Q p → Q (mergeUpdates p).2
  unions : ∀ {p}, Q p → Q (mergeUnions p).2
  fold : ∀ {p}, Q p → Q (foldResult p).2

/-- What merging keeps of the parts, a merge of the sketch keeps. -/
theorem Merging.Keeps.merge {σ : Type} [Merging σ] {Q : σ → Prop} (hkeeps : Keeps Q) {s : Lazy σ}
    (h : Q s.parts) : Q (Lazy.merge s).2.parts := by
  have hpending (s : Lazy σ) (h : Q s.parts) : Q (Lazy.mergePending s).2.parts := by
    simp only [Lazy.mergePending, Transition.within]
    split
    · exact hkeeps.both h
    · exact hkeeps.unions h
    · exact hkeeps.updates h
  have hfold : Q (Lazy.foldResult s).2.parts :=
    Transition.andThen_keeps (Q := fun s : Lazy σ => Q s.parts) (hkeeps.fold h) fun _ _ hs => hs
  unfold Lazy.merge
  split
  · exact Transition.andThen_keeps (Q := fun s : Lazy σ => Q s.parts) hfold fun _ s hs =>
      Transition.andThen_keeps (Q := fun s : Lazy σ => Q s.parts) (hpending s hs) fun _ _ hs => hs
  · exact h

/-! ## Properties of samples -/

variable {α : Type} {blank : HashSample α} {U V : HashSample α → Prop}

/-- The samples of a sketch come from a blank one; the updates have one property, and the unions and
the result another one. -/
structure SampleParts.Have (blank : HashSample α) (U V : HashSample α → Prop)
    (p : SampleParts α) : Prop where
  blank_eq : p.blank = blank
  updates : U p.updates
  unions : V p.unions
  result : ∀ r, p.result = some r → V r

theorem SampleParts.Have.mono {U' V' : HashSample α → Prop} {p : SampleParts α}
    (h : p.Have blank U V) (hU : ∀ s, U s → U' s) (hV : ∀ s, V s → V' s) : p.Have blank U' V' where
  blank_eq := h.blank_eq
  updates := hU _ h.updates
  unions := hV _ h.unions
  result r hr := hV r (h.result r hr)

/-- Two properties that a sketch keeps: one of samples as they are added to, and one that such
samples have too and that is left when samples that have it are merged. -/
structure Lasting [Combine α] (blank : HashSample α) (U V : HashSample α → Prop) : Prop where
  blank : U blank
  clear : ∀ {s}, U s → U s.clear
  clear_unions : ∀ {s}, V s → V s.clear
  publish : ∀ {s}, U s → V s
  merge : ∀ {s t}, V s → V t → V (s.merge t).2

variable [Combine α] {k : Sketch α} {p : SampleParts α}

theorem Lasting.mergeIntoUnions (lasting : Lasting blank U V) (h : p.Have blank U V)
    {s : HashSample α} (hs : V s) : (p.mergeIntoUnions s).2.Have blank U V :=
  { h with unions := lasting.merge h.unions hs }

theorem Lasting.publishUpdates (lasting : Lasting blank U V) (h : p.Have blank U V) :
    p.publishUpdates.Have blank U V :=
  { h with
    updates := by
      show U p.blank
      rw [h.blank_eq]
      exact lasting.blank
    result := fun _ hr => Option.some.inj hr ▸ lasting.publish h.updates }

theorem Lasting.publishUnions (lasting : Lasting blank U V) (h : p.Have blank U V) :
    p.publishUnions.Have blank U V :=
  { h with
    unions := by
      show V p.blank
      rw [h.blank_eq]
      exact lasting.publish lasting.blank
    result := fun _ hr => Option.some.inj hr ▸ h.unions }

theorem Lasting.keeps (lasting : Lasting blank U V) :
    Merging.Keeps (SampleParts.Have (α := α) blank U V) where
  both {p} h := by
    have htaken : { p with updates := p.blank }.Have blank U V :=
      { h with updates := h.blank_eq ▸ lasting.blank }
    have hmerged := lasting.mergeIntoUnions htaken (lasting.publish h.updates)
    exact Transition.andThen_keeps hmerged fun _ _ hp => lasting.publishUnions hp
  updates h := lasting.publishUpdates h
  unions h := lasting.publishUnions h
  fold {p} h := by
    show (SampleParts.foldResult p).2.Have blank U V
    unfold SampleParts.foldResult
    split
    · rename_i r hr
      have htaken : { p with result := none }.Have blank U V :=
        { h with result := fun _ hr => nomatch hr }
      exact lasting.mergeIntoUnions htaken (h.result r hr)
    · exact h

/-! ## Operations of a sketch -/

theorem Lasting.new {capacity : Nat} (lasting : Lasting (HashSample.new capacity) U V) :
    (Sketch.new capacity : Sketch α).parts.Have (HashSample.new capacity) U V where
  blank_eq := rfl
  updates := lasting.blank
  unions := lasting.publish lasting.blank
  result _ hr := nomatch hr

/-- A read leaves what a merge leaves. -/
theorem Sketch.snd_result (k : Sketch α) : (Sketch.result k).2 = (Lazy.merge k).2 := by
  simp only [Sketch.result, Lazy.read, Transition.mapOutcome]
  rcases Lazy.merge k with ⟨⟨e⟩ | ⟨⟨⟩⟩, k'⟩ <;> rfl

theorem Lasting.result (lasting : Lasting blank U V) (h : k.parts.Have blank U V) :
    (Sketch.result k).2.parts.Have blank U V := by
  rw [Sketch.snd_result]
  exact lasting.keeps.merge h

theorem Lasting.reset (lasting : Lasting blank U V) (h : k.parts.Have blank U V) :
    (Lazy.reset k).parts.Have blank U V where
  blank_eq := h.blank_eq
  updates := lasting.clear h.updates
  unions := lasting.clear_unions h.unions
  result _ hr := nomatch hr

/-- A union keeps what any merge into the unions keeps. -/
theorem SampleParts.Have.unionBytes [JsonForm α] (h : k.parts.Have blank U V)
    (hmerge : ∀ {s} (t), V s → V (s.merge t).2) (bs : Bytes) :
    (Sketch.unionBytes k bs).2.parts.Have blank U V :=
  { h with
    unions := by
      show V (k.parts.unions.unionBytes bs).2
      unfold HashSample.unionBytes
      split
      · exact hmerge _ h.unions
      · exact h.unions }

/-- What the updates take, the sketch takes. -/
theorem SampleParts.Have.add_done (h : k.parts.Have blank U V) {hash : UInt64} {a : α}
    (hadd : ∃ kept s, k.parts.updates.add hash a = .done kept s ∧ U s) :
    ∃ kept k', Sketch.add k hash a = .done kept k' ∧ k'.parts.Have blank U V := by
  obtain ⟨kept, s, hs, hU⟩ := hadd
  refine ⟨kept, { k with
    parts := { k.parts with updates := s }, updated := true, stale := true }, ?_, ?_⟩
  · simp only [Sketch.add, Lazy.update, hs]
    rfl
  · exact { h with updates := hU }

end StreamQuery
