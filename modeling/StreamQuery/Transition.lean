import StreamQuery.Error
set_option autoImplicit false

/-!
# Transitions

An operation on a state that may fail leaves a state behind either way, and that
state may have changed before the failure.  A transition keeps both: the outcome,
and the state left behind.
-/

namespace StreamQuery

/-- The outcome of an operation, and the state that it leaves behind. -/
abbrev Transition (σ α : Type) := Outcome α × σ

namespace Transition

variable {σ τ α β : Type}

/-- A transition that succeeds. -/
def done (a : α) (s : σ) : Transition σ α := (.ok a, s)

/-- A transition that fails. -/
def fail (e : QueryError) (s : σ) : Transition σ α := (.error e, s)

/-- Goes on with the state left behind, unless the outcome is an error. -/
def andThen (t : Transition σ α) (next : α → σ → Transition σ β) : Transition σ β :=
  match t with
  | (.ok a, s) => next a s
  | (.error e, s) => (.error e, s)

/-- Changes the answer. -/
def map (f : α → β) (t : Transition σ α) : Transition σ β := (t.1.map f, t.2)

/-- Puts the state left behind into a larger one. -/
def within (f : σ → τ) (t : Transition σ α) : Transition τ α := (t.1, f t.2)

/-- Replaces the answer of a successful transition by an outcome that its answer determines. -/
def mapOutcome (f : α → Outcome β) (t : Transition σ α) : Transition σ β := (t.1.bind f, t.2)

@[simp] theorem andThen_done (a : α) (s : σ) (next : α → σ → Transition σ β) :
    (done a s).andThen next = next a s := rfl

@[simp] theorem andThen_fail (e : QueryError) (s : σ) (next : α → σ → Transition σ β) :
    (fail e s).andThen next = fail e s := rfl

/-- What holds of the state that a transition leaves and is kept by what goes on from there holds of
the state in the end, whether or not it goes on. -/
theorem andThen_keeps {Q : σ → Prop} {t : Transition σ α} {next : α → σ → Transition σ β}
    (h : Q t.2) (hnext : ∀ a s, Q s → Q (next a s).2) : Q (t.andThen next).2 := by
  obtain ⟨⟨e⟩ | ⟨a⟩, s⟩ := t
  · exact h
  · exact hnext a s h

/-- Putting the state into a larger one goes step by step. -/
theorem within_andThen {f : σ → τ} {t : Transition σ α} {next : α → σ → Transition σ β}
    {next' : α → τ → Transition τ β} (h : ∀ a s, (next a s).within f = next' a (f s)) :
    (t.andThen next).within f = (t.within f).andThen next' := by
  obtain ⟨⟨e⟩ | ⟨a⟩, s⟩ := t
  · rfl
  · exact h a s

end Transition

end StreamQuery
