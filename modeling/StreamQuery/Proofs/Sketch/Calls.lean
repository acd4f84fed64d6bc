import StreamQuery.Sketch.Lazy
set_option autoImplicit false

/-!
# What a lazy sketch asks of its parts

Whatever the parts of a sketch are and however their hooks fail, the calls that the parts receive
tell the state of the sketch: what is pending, whether there is anything to merge, and how often it
was merged.  And the state tells which hooks the next merge calls (`Lazy.driven_by_calls`).

To speak of calls, the parts are given a log in which each hook writes itself down together with
its outcome.  The log changes nothing else.
-/

namespace StreamQuery

variable {σ α : Type}

/-! ## Calls -/

/-- The ways to merge parts. -/
inductive MergeWay where
  | both
  | updates
  | unions
  deriving DecidableEq, Repr

/-- The way to merge that suits what is pending. -/
def MergeWay.suiting (updated unioned : Bool) : MergeWay :=
  if unioned then if updated then .both else .unions else .updates

/-- The hook for a way to merge. -/
def MergeWay.hook [Merging σ] : MergeWay → σ → Transition σ Unit
  | both => Merging.mergeBoth
  | updates => Merging.mergeUpdates
  | unions => Merging.mergeUnions

/-- A call that parts receive, hooks with their outcome. -/
inductive Call where
  | update
  | union
  | reset
  | fold (answer : Outcome Bool)
  | merge (way : MergeWay) (answer : Outcome Unit)

namespace Call

/-- Whether a call offers something or forgets all. -/
def isMutation : Call → Bool
  | update | union | reset => true
  | _ => false

/-- Whether a call is a merge that succeeded. -/
def isMerged : Call → Bool
  | merge _ (.ok _) => true
  | _ => false

/-- Whether a call leaves nothing pending. -/
def settles (c : Call) : Bool :=
  match c with
  | reset => true
  | c => c.isMerged

/-- Whether a call makes updates pending. -/
def bringsUpdate : Call → Bool
  | update => true
  | _ => false

/-- Whether a call makes unions pending: a union, or the answer that a result was folded in. -/
def bringsUnion : Call → Bool
  | union | fold (.ok true) => true
  | _ => false

/-- The calls since the last one that left nothing pending.  The latest call comes first. -/
def unsettled (calls : List Call) : List Call := calls.takeWhile fun c => !c.settles

/-- The calls since something was last offered or forgotten. -/
def sinceMutation (calls : List Call) : List Call := calls.takeWhile fun c => !c.isMutation

/-- At most one merge succeeds between two mutations. -/
def MergesApart (calls : List Call) : Prop :=
  ∀ between, between <:+: calls → (∀ c ∈ between, c.isMutation = false) →
    between.countP isMerged ≤ 1

/-- One more call keeps merges apart if it is none, or if none came since the last mutation. -/
theorem MergesApart.cons {calls : List Call} {c : Call} (h : MergesApart calls)
    (hc : c.isMerged = true → (sinceMutation calls).any isMerged = false) :
    MergesApart (c :: calls) := by
  intro between hbetween hquiet
  rcases List.infix_cons_iff.1 hbetween with hprefix | hinfix
  · rcases List.prefix_cons_iff.1 hprefix with rfl | ⟨rest, rfl, hrest⟩
    · exact Nat.zero_le 1
    · have hquiet' : ∀ c ∈ rest, c.isMutation = false := fun c hc =>
        hquiet c (List.mem_cons_of_mem _ hc)
      cases hmerged : c.isMerged with
      | false =>
        rw [List.countP_cons_of_neg (by simp [hmerged])]
        exact h rest hrest.isInfix hquiet'
      | true =>
        have hsince : rest <+: sinceMutation calls := by
          obtain ⟨more, rfl⟩ := hrest
          rw [sinceMutation, List.takeWhile_append_of_pos fun c hc => by rw [hquiet' c hc]; rfl]
          exact List.prefix_append _ _
        have hnone : rest.countP isMerged = 0 := by
          rw [List.countP_eq_zero]
          intro c' hc'
          exact List.any_eq_false.1 (hc hmerged) c' (hsince.subset hc')
        exact Nat.le_of_eq (by rw [List.countP_cons_of_pos hmerged, hnone])
  · exact h between hinfix hquiet

/-- A call that is no merge keeps merges apart. -/
theorem MergesApart.cons_other {calls : List Call} {c : Call} (h : MergesApart calls)
    (hc : c.isMerged = false) : MergesApart (c :: calls) :=
  h.cons fun hmerged => absurd (hc.symm.trans hmerged) Bool.false_ne_true

end Call

/-! ## Parts with a log -/

/-- Parts with the calls that they received, the latest one first. -/
structure Logged (σ : Type) where
  parts : σ
  calls : List Call

namespace Logged

/-- Writes a call down with what it does to the parts. -/
def record (p : Logged σ) (t : Transition σ α) (call : Outcome α → Call) :
    Transition (Logged σ) α :=
  t.within fun parts => ⟨parts, call t.1 :: p.calls⟩

instance [Merging σ] : Merging (Logged σ) where
  mergeBoth p := p.record (Merging.mergeBoth p.parts) (.merge .both)
  mergeUpdates p := p.record (Merging.mergeUpdates p.parts) (.merge .updates)
  mergeUnions p := p.record (Merging.mergeUnions p.parts) (.merge .unions)
  foldResult p := p.record (Merging.foldResult p.parts) .fold
  reset p := ⟨Merging.reset p.parts, .reset :: p.calls⟩

end Logged

/-- A sketch without its log. -/
def Lazy.unlogged (s : Lazy (Logged σ)) : Lazy σ := { s with parts := s.parts.parts }

/-! ## Steps -/

/-- What can be done to a sketch; updates and unions may fail. -/
inductive LazyStep (σ : Type) : Type 1 where
  | update {α : Type} (apply : σ → Transition σ α)
  | union {α : Type} (apply : σ → Transition σ α)
  | reset
  | merge

namespace LazyStep

/-- The sketch that a step leaves behind, whether it fails or not. -/
def apply [Merging σ] (s : Lazy σ) : LazyStep σ → Lazy σ
  | update change => (s.update change).2
  | union change => (s.union change).2
  | reset => s.reset
  | merge => s.merge.2

/-- The step on parts with a log. -/
def logged : LazyStep σ → LazyStep (Logged σ)
  | update change => .update fun p => p.record (change p.parts) fun _ => .update
  | union change => .union fun p => p.record (change p.parts) fun _ => .union
  | reset => .reset
  | merge => .merge

end LazyStep

/-- The sketch that steps leave behind. -/
def Lazy.run [Merging σ] (s : Lazy σ) (steps : List (LazyStep σ)) : Lazy σ :=
  steps.foldl LazyStep.apply s

/-! ## What the calls tell -/

/-- A sketch is as its calls tell: updates and unions are pending that came since nothing was, there
is something to merge unless a merge succeeded since the last mutation, successful merges are
counted, and there is at most one of them between two mutations. -/
structure ToldByCalls (s : Lazy (Logged σ)) : Prop where
  updated : s.updated = (Call.unsettled s.parts.calls).any Call.bringsUpdate
  unioned : s.unioned = (Call.unsettled s.parts.calls).any Call.bringsUnion
  stale : s.stale = !(Call.sinceMutation s.parts.calls).any Call.isMerged
  mergeCount : s.mergeCount = s.parts.calls.countP Call.isMerged
  apart : Call.MergesApart s.parts.calls

theorem told_new (p : σ) : ToldByCalls (Lazy.new ⟨p, []⟩) where
  updated := rfl
  unioned := rfl
  stale := rfl
  mergeCount := rfl
  apart between h _ := by
    rw [List.infix_nil.1 h]
    exact Nat.zero_le 1

variable [Merging σ] {s : Lazy (Logged σ)}

/-! ## One merge -/

/-- The rules of merging.  The hook that folds the result comes first, and the merge hook after it
only if it succeeded; a failure keeps what is pending so. -/
inductive MergesTo (s : Lazy (Logged σ)) : Transition (Lazy (Logged σ)) Unit → Prop
  /-- Nothing was offered since the last merge: no hook is called and nothing changes. -/
  | idle (hstale : s.stale = false) : MergesTo s (.done () s)
  /-- The result cannot be folded. -/
  | notFolded {e : QueryError} {p : σ} (hstale : s.stale = true)
      (hfold : Merging.foldResult s.parts.parts = .fail e p) :
      MergesTo s (.fail e { s with parts := ⟨p, .fold (.error e) :: s.parts.calls⟩ })
  /-- The merge hook fails; a result that was folded is a pending union from then on. -/
  | notMerged {folded : Bool} {way : MergeWay} {e : QueryError} {p p' : σ}
      (hstale : s.stale = true) (hfold : Merging.foldResult s.parts.parts = .done folded p)
      (hway : way = .suiting s.updated (s.unioned || folded)) (hmerge : way.hook p = .fail e p') :
      MergesTo s (.fail e { s with
        parts := ⟨p', .merge way (.error e) :: .fold (.ok folded) :: s.parts.calls⟩
        unioned := s.unioned || folded })
  /-- The merge hook succeeds and nothing is pending any more. -/
  | merged {folded : Bool} {way : MergeWay} {p p' : σ}
      (hstale : s.stale = true) (hfold : Merging.foldResult s.parts.parts = .done folded p)
      (hway : way = .suiting s.updated (s.unioned || folded)) (hmerge : way.hook p = .done () p') :
      MergesTo s (.done () ⟨⟨p', .merge way (.ok ()) :: .fold (.ok folded) :: s.parts.calls⟩,
        false, false, false, s.mergeCount + 1⟩)

/-- What is pending decides on the merge hook. -/
theorem mergePending_eq_hook (s : Lazy σ) :
    s.mergePending
      = ((MergeWay.suiting s.updated s.unioned).hook s.parts).within fun parts =>
          { s with parts } := by
  obtain ⟨parts, updated, unioned, stale, count⟩ := s
  cases updated <;> cases unioned <;> rfl

/-- A logged merge hook writes down its way. -/
theorem hook_logged (way : MergeWay) (p : Logged σ) :
    way.hook p = p.record (way.hook p.parts) (.merge way) := by
  cases way <;> rfl

/-- A merge goes by the rules. -/
theorem mergesTo_merge (s : Lazy (Logged σ)) : MergesTo s s.merge := by
  unfold Lazy.merge
  split
  · rename_i hstale
    have hfolding : Lazy.foldResult s
        = ((s.parts.record (Merging.foldResult s.parts.parts) .fold).within fun parts =>
            { s with parts }).andThen fun folded s =>
              .done () { s with unioned := s.unioned || folded } := rfl
    rw [hfolding]
    rcases hfold : Merging.foldResult s.parts.parts with ⟨⟨e⟩ | ⟨folded⟩, p⟩
    · exact .notFolded hstale hfold
    · show MergesTo s (Transition.andThen (Lazy.mergePending { s with
        parts := ⟨p, .fold (.ok folded) :: s.parts.calls⟩, unioned := s.unioned || folded })
          fun _ s => .done () s.settle)
      rw [mergePending_eq_hook, hook_logged]
      rcases hmerge : (MergeWay.suiting s.updated (s.unioned || folded)).hook p with
        ⟨⟨e⟩ | ⟨⟨⟩⟩, p'⟩
      · exact .notMerged hstale hfold rfl hmerge
      · exact .merged hstale hfold rfl hmerge
  · rename_i hstale
    exact .idle (Bool.eq_false_iff.2 hstale)

/-! ## The log is only a log -/

/-- The log has no part in a merge. -/
theorem merge_unlogged (s : Lazy (Logged σ)) :
    s.merge.within Lazy.unlogged = s.unlogged.merge := by
  have hfolding : (Lazy.foldResult s).within Lazy.unlogged = s.unlogged.foldResult :=
    Transition.within_andThen fun _ _ => rfl
  have hpending (s : Lazy (Logged σ)) :
      s.mergePending.within Lazy.unlogged = s.unlogged.mergePending := by
    rw [mergePending_eq_hook, mergePending_eq_hook, hook_logged]
    rfl
  unfold Lazy.merge
  show Transition.within Lazy.unlogged (if s.stale = true then _ else _)
    = if s.stale = true then _ else _
  split
  · rw [Transition.within_andThen, hfolding]
    intro _ s
    rw [Transition.within_andThen, hpending]
    intro _ s
    rfl
  · rfl

/-- The log has no part in a step. -/
theorem apply_logged (s : Lazy (Logged σ)) (step : LazyStep σ) :
    (step.logged.apply s).unlogged = step.apply s.unlogged := by
  cases step with
  | update change => rfl
  | union change => rfl
  | reset => rfl
  | merge => exact congrArg Prod.snd (merge_unlogged s)

/-! ## Runs -/

/-- Every step keeps a sketch as its calls tell. -/
theorem ToldByCalls.apply (h : ToldByCalls s) (step : LazyStep σ) :
    ToldByCalls (step.logged.apply s) := by
  obtain ⟨hupdated, hunioned, hstale, hcount, hapart⟩ := h
  cases step with
  | update change => exact ⟨rfl, hunioned, rfl, hcount, hapart.cons_other rfl⟩
  | union change => exact ⟨hupdated, rfl, rfl, hcount, hapart.cons_other rfl⟩
  | reset => exact ⟨rfl, rfl, rfl, hcount, hapart.cons_other rfl⟩
  | merge =>
    show ToldByCalls s.merge.2
    have hrules := mergesTo_merge s
    generalize s.merge = t at hrules ⊢
    cases hrules with
    | idle => exact ⟨hupdated, hunioned, hstale, hcount, hapart⟩
    | notFolded => exact ⟨hupdated, hunioned, hstale, hcount, hapart.cons_other rfl⟩
    | @notMerged folded way e p p' _ hfold hway hmerge =>
      have hunioned' : (s.unioned || folded) = (Call.unsettled (.merge way (.error e) ::
          .fold (.ok folded) :: s.parts.calls)).any Call.bringsUnion := by
        rw [hunioned]
        cases folded with
        | false => exact Bool.or_false _
        | true => exact Bool.or_true _
      exact ⟨hupdated, hunioned', hstale, hcount,
        (hapart.cons_other rfl).cons_other rfl⟩
    | @merged folded way p p' hstale' =>
      rw [hstale', eq_comm, Bool.not_eq_true'] at hstale
      have hcount' : s.mergeCount + 1 = (Call.merge way (.ok ()) :: .fold (.ok folded) ::
          s.parts.calls).countP Call.isMerged := by
        rw [hcount, List.countP_cons_of_pos rfl, List.countP_cons_of_neg Bool.false_ne_true]
      exact ⟨rfl, rfl, rfl, hcount',
        (hapart.cons_other rfl).cons fun _ => hstale⟩

theorem ToldByCalls.run (h : ToldByCalls s) (steps : List (LazyStep σ)) :
    ToldByCalls (s.run (steps.map .logged)) := by
  induction steps generalizing s with
  | nil => exact h
  | cons step steps ih => exact ih (h.apply step)

/-- The log has no part in a run. -/
theorem run_unlogged (s : Lazy (Logged σ)) (steps : List (LazyStep σ)) :
    (s.run (steps.map .logged)).unlogged = s.unlogged.run steps := by
  induction steps generalizing s with
  | nil => rfl
  | cons step steps ih =>
    show ((step.logged.apply s).run (steps.map .logged)).unlogged = _
    rw [ih, apply_logged]
    rfl

/-- The parts of a sketch drive it and are driven by it as the rules say, whatever their hooks do:
after any steps, failing ones included, the sketch is as its calls tell, and the next merge goes by
the rules.  Logging the calls changes nothing. -/
theorem Lazy.driven_by_calls (p : σ) (steps : List (LazyStep σ)) :
    ((Lazy.new (⟨p, []⟩ : Logged σ)).run (steps.map .logged)).unlogged = (Lazy.new p).run steps ∧
      ToldByCalls ((Lazy.new (⟨p, []⟩ : Logged σ)).run (steps.map .logged)) ∧
      MergesTo ((Lazy.new (⟨p, []⟩ : Logged σ)).run (steps.map .logged))
        ((Lazy.new (⟨p, []⟩ : Logged σ)).run (steps.map .logged)).merge :=
  ⟨run_unlogged _ steps, (told_new p).run steps, mergesTo_merge _⟩

end StreamQuery
