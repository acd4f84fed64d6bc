import StreamQuery.Sketch
set_option autoImplicit false

/-!
# What the steps of a merge come to

A merge folds the result of the merge before into the unions, and then empties the working
samples.  What each of the two steps leaves behind depends on the flags, and on whether the
unions take what is merged into them.
-/

namespace StreamQuery

variable {α : Type} {k : Sketch α} {r u : HashSample α} {e : QueryError}

/-! ## Samples that are taken out -/

/-- The sketch after its result was merged into the unions, with success or not. -/
def Sketch.withoutResult (k : Sketch α) (unions : HashSample α) : Sketch α :=
  { k with parts := { k.parts with unions, result := none } }

/-- The sketch after the unions refused its updates, which are gone. -/
def Sketch.withoutUpdates (k : Sketch α) (unions : HashSample α) : Sketch α :=
  { k with
    parts := { k.parts with unions, result := none, updates := k.parts.blank }
    unioned := true }

variable [Combine α]

/-! ## Folding a result -/

/-- Without a result there is nothing to fold. -/
theorem foldResult_of_none (h : k.parts.result = none) : Lazy.foldResult k = .done () k := by
  have hparts : SampleParts.foldResult k.parts = .done false k.parts := by
    simp only [SampleParts.foldResult, h]
  simp only [Lazy.foldResult, Merging.foldResult, hparts]
  show Transition.done () { k with parts := k.parts, unioned := k.unioned || false } = _
  rw [Bool.or_false]

/-- A result that the unions take is folded into them. -/
theorem foldResult_of_done (h : k.parts.result = some r)
    (hmerge : k.parts.unions.merge r = .done () u) :
    Lazy.foldResult k = .done () { k.withoutResult u with unioned := true } := by
  have hparts : SampleParts.foldResult k.parts
      = .done true { k.parts with unions := u, result := none } := by
    simp only [SampleParts.foldResult, h, SampleParts.mergeIntoUnions, hmerge]
    rfl
  simp only [Lazy.foldResult, Merging.foldResult, hparts]
  show Transition.done () { k.withoutResult u with unioned := k.unioned || true } = _
  rw [Bool.or_true]

/-- A result that the unions refuse is gone. -/
theorem foldResult_of_fail (h : k.parts.result = some r)
    (hmerge : k.parts.unions.merge r = .fail e u) :
    Lazy.foldResult k = .fail e (k.withoutResult u) := by
  have hparts : SampleParts.foldResult k.parts
      = .fail e { k.parts with unions := u, result := none } := by
    simp only [SampleParts.foldResult, h, SampleParts.mergeIntoUnions, hmerge]
    rfl
  simp only [Lazy.foldResult, Merging.foldResult, hparts]
  rfl

/-! ## Merging what is pending -/

/-- Without unions the updates become the result, whether there are any or not. -/
theorem mergePending_of_not_unioned (hunioned : k.unioned = false) :
    Lazy.mergePending k = .done () { k with parts := k.parts.publishUpdates } := by
  simp only [Lazy.mergePending, hunioned]
  cases k.updated <;> rfl

/-- Without updates the unions become the result. -/
theorem mergePending_of_not_updated (hunioned : k.unioned = true) (hupdated : k.updated = false) :
    Lazy.mergePending k = .done () { k with parts := k.parts.publishUnions } := by
  simp only [Lazy.mergePending, hunioned, hupdated]
  rfl

/-- Updates that the unions take become the result together with them. -/
theorem mergePending_of_done (hunioned : k.unioned = true) (hupdated : k.updated = true)
    (hmerge : k.parts.unions.merge k.parts.updates = .done () u) :
    Lazy.mergePending k = .done () { k with
      parts := { k.parts with updates := k.parts.blank, unions := u }.publishUnions } := by
  have hparts : SampleParts.mergeBoth k.parts
      = .done () { k.parts with updates := k.parts.blank, unions := u }.publishUnions := by
    simp only [SampleParts.mergeBoth, SampleParts.mergeIntoUnions, hmerge]
    rfl
  simp only [Lazy.mergePending, hunioned, hupdated, Merging.mergeBoth, hparts]
  rfl

/-- Updates that the unions refuse are gone. -/
theorem mergePending_of_fail (hres : k.parts.result = none) (hunioned : k.unioned = true)
    (hupdated : k.updated = true) (hmerge : k.parts.unions.merge k.parts.updates = .fail e u) :
    Lazy.mergePending k = .fail e (k.withoutUpdates u) := by
  have hparts : SampleParts.mergeBoth k.parts
      = .fail e { k.parts with unions := u, updates := k.parts.blank } := by
    simp only [SampleParts.mergeBoth, SampleParts.mergeIntoUnions, hmerge]
    rfl
  simp only [Lazy.mergePending, hunioned, hupdated, Merging.mergeBoth, hparts,
    Sketch.withoutUpdates, ← hres]
  rfl

/-! ## Merges -/

/-- What a merge does when there is something to merge. -/
theorem Lazy.merge_of_stale {σ : Type} [Merging σ] {s : Lazy σ} (h : s.stale = true) :
    s.merge = s.foldResult.andThen fun _ s => s.mergePending.andThen fun _ s => .done () s.settle :=
  if_pos h

/-! ## Reads -/

/-- A read that merges with success answers the result of the merge. -/
theorem result_of_done {k' : Sketch α} (hmerge : Lazy.merge k = .done () k')
    (hr : k'.parts.result = some r) : Sketch.result k = .done r k' := by
  simp only [Sketch.result, Lazy.read, hmerge, Transition.andThen_done]
  simp only [Transition.mapOutcome, Transition.done, Except.bind, hr]

theorem result_of_fail {k' : Sketch α} (hmerge : Lazy.merge k = .fail e k') :
    Sketch.result k = .fail e k' := by
  simp only [Sketch.result, Lazy.read, hmerge, Transition.andThen_fail]
  rfl

/-- A sketch that was read answers the same again. -/
theorem result_of_not_stale (hstale : k.stale = false) (hr : k.parts.result = some r) :
    Sketch.result k = .done r k :=
  result_of_done (Lazy.merge_of_not_stale hstale) hr

/-- The bytes of a sketch are those of the sample that it reads. -/
theorem bytes_of_result [JsonForm α] {k' : Sketch α} (h : Sketch.result k = .done r k') :
    Sketch.bytes k = (r.toBytes, k') := by
  unfold Sketch.bytes
  rw [h]
  simp only [Transition.mapOutcome, Transition.done, Except.bind]

end StreamQuery
