import Mathlib.Data.List.Forall2
import StreamQuery.Transition
set_option autoImplicit false

/-!
# Successful outcomes

When operations that go on from each other succeed, said by what they answer: one after another,
on every item of a list, and in a state that is part of a larger one.
-/

namespace StreamQuery

variable {α β : Type} {f : α → Outcome β} {xs : List α}

/-- What goes on from an outcome succeeds exactly if the outcome does and what goes on from it. -/
theorem bind_eq_ok_iff {x : Outcome α} {b : β} :
    (x >>= f) = .ok b ↔ ∃ a, x = .ok a ∧ f a = .ok b := by
  cases x <;> simp [bind, Except.bind]

/-- What goes on from an outcome fails if the outcome does, or if what goes on from it does. -/
theorem bind_eq_error_iff {x : Outcome α} {e : QueryError} :
    (x >>= f) = .error e ↔ x = .error e ∨ ∃ a, x = .ok a ∧ f a = .error e := by
  cases x <;> simp [bind, Except.bind]

/-- Every item has an outcome, and together they are the list of the outcomes. -/
theorem mapM_eq_ok_iff {ys : List β} :
    xs.mapM f = .ok ys ↔ List.Forall₂ (fun x y => f x = .ok y) xs ys := by
  induction xs generalizing ys with
  | nil =>
    rw [List.forall₂_nil_left_iff]
    exact ⟨fun h => (Except.ok.inj h).symm, fun h => h ▸ rfl⟩
  | cons x xs ih =>
    rw [List.mapM_cons, List.forall₂_cons_left_iff]
    cases hx : f x with
    | error e => simp [bind, Except.bind]
    | ok y =>
      cases hxs : xs.mapM f with
      | error e =>
        have hnone : ∀ ys', ¬ List.Forall₂ (fun x y => f x = .ok y) xs ys' := fun ys' h => by
          rw [← ih, hxs] at h
          cases h
        simp [bind, Except.bind, hnone]
      | ok ys' =>
        rw [hxs] at ih
        simp [bind, Except.bind, pure, Except.pure, ← ih, eq_comm]

/-- There are outcomes for all items exactly if there is one for each. -/
theorem exists_forall₂_iff {R : α → β → Prop} :
    (∃ ys, List.Forall₂ R xs ys) ↔ ∀ x ∈ xs, ∃ y, R x y := by
  induction xs with
  | nil => simp
  | cons x xs ih =>
    simp only [List.forall₂_cons_left_iff, List.forall_mem_cons, ← ih]
    constructor
    · rintro ⟨_, y, ys, hy, hys, -⟩
      exact ⟨⟨y, hy⟩, ys, hys⟩
    · rintro ⟨⟨y, hy⟩, ys, hys⟩
      exact ⟨y :: ys, y, ys, hy, hys, rfl⟩

/-- An item is matched by one of the other list. -/
theorem exists_mem_of_forall₂ {R : α → β → Prop} {ys : List β} (h : List.Forall₂ R xs ys) {x : α}
    (hx : x ∈ xs) : ∃ y ∈ ys, R x y := by
  induction h with
  | nil => cases hx
  | @cons x' y xs ys hy _ ih =>
    rcases List.mem_cons.1 hx with rfl | hx
    · exact ⟨y, List.mem_cons_self, hy⟩
    · obtain ⟨y', hy', hR⟩ := ih hx
      exact ⟨y', List.mem_cons_of_mem _ hy', hR⟩

/-- What holds between items and items in between, and between these and further ones. -/
theorem exists_forall₂_comp_iff {γ : Type} {R : α → β → Prop} {S : β → γ → Prop} {zs : List γ} :
    (∃ ys, List.Forall₂ R xs ys ∧ List.Forall₂ S ys zs)
      ↔ List.Forall₂ (fun x z => ∃ y, R x y ∧ S y z) xs zs := by
  constructor
  · rintro ⟨ys, hys, hzs⟩
    induction hys generalizing zs with
    | nil =>
      cases hzs
      exact .nil
    | cons hy _ ih =>
      cases hzs with
      | cons hz hzs => exact .cons ⟨_, hy, hz⟩ (ih hzs)
  · intro h
    induction h with
    | nil => exact ⟨[], .nil, .nil⟩
    | cons hz _ ih =>
      obtain ⟨y, hy, hz⟩ := hz
      obtain ⟨ys, hys, hzs⟩ := ih
      exact ⟨y :: ys, .cons hy hys, .cons hz hzs⟩

/-- Where there are not outcomes for all items, it is for the error of one of them. -/
theorem exists_mem_of_mapM_eq_error {e : QueryError} (h : xs.mapM f = .error e) :
    ∃ x ∈ xs, f x = .error e := by
  induction xs with
  | nil => cases h
  | cons x xs ih =>
    rw [List.mapM_cons] at h
    cases hx : f x with
    | error e' =>
      rw [hx] at h
      cases h
      exact ⟨x, List.mem_cons_self, hx⟩
    | ok y =>
      have hrest : xs.mapM f = .error e := by
        cases hxs : xs.mapM f with
        | error e' =>
          rw [hx, hxs] at h
          cases h
          rfl
        | ok ys =>
          rw [hx, hxs] at h
          cases h
      obtain ⟨x', hx', he⟩ := ih hrest
      exact ⟨x', List.mem_cons_of_mem _ hx', he⟩

namespace Transition

variable {σ τ : Type}

/-- A transition in a part of a state succeeds exactly if it does so on that part. -/
theorem within_eq_done_iff {t : Transition σ α} {g : σ → τ} {a : α} {s' : τ} :
    t.within g = .done a s' ↔ ∃ s, t = .done a s ∧ g s = s' := by
  obtain ⟨outcome, s⟩ := t
  simp [within, done]

/-- What goes on from a transition succeeds exactly if the transition does and what goes on. -/
theorem andThen_eq_done_iff {t : Transition σ α} {next : α → σ → Transition σ β} {b : β} {s' : σ} :
    t.andThen next = .done b s' ↔ ∃ a s, t = .done a s ∧ next a s = .done b s' := by
  obtain ⟨⟨e⟩ | ⟨a⟩, s⟩ := t <;> simp [andThen, done]

end Transition

end StreamQuery
