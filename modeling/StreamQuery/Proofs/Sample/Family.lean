import StreamQuery.Proofs.Fold
import StreamQuery.Proofs.Sample.Merge
import StreamQuery.Proofs.Sample.Smallest
import Mathlib.Logic.Function.Basic
set_option autoImplicit false

/-!
# Families of samples

Samples of one capacity that take values and merge copies of one another, in any order.
Whatever the order, each of them holds the smallest hashes it received, directly or from
others, and under each hash everything that it received there.
-/

namespace StreamQuery

variable {ι α : Type}

/-! ## Values that combine in any order -/

/-- The second value folded into the first. -/
def combined [Combine α] (a b : α) : α := (Combine.combine a b).2

/-- Values that combine without failing, in any order and grouping. -/
class CommCombine (α : Type) [Combine α] : Prop where
  total : ∀ a b : α, (Combine.combine a b).1 = .ok ()
  comm : ∀ a b : α, combined a b = combined b a
  assoc : ∀ a b c : α, combined (combined a b) c = combined a (combined b c)

/-- The combination of values, if there are any. -/
def combineAll? [Combine α] : List α → Option α := foldAll? combined

section Laws

variable [Combine α] [CommCombine α]

theorem combine_eq_done (a b : α) : Combine.combine a b = .done () (combined a b) :=
  Prod.ext (CommCombine.total a b) rfl

instance : Std.Associative (combined : α → α → α) := ⟨CommCombine.assoc⟩

instance : Std.Commutative (combined : α → α → α) := ⟨CommCombine.comm⟩

end Laws

/-! ## The steps of a family -/

/-- A step of a family: one member takes a value under a hash, or merges a copy of another one. -/
inductive FamilyStep (ι α : Type) where
  | add (member : ι) (hash : UInt64) (a : α)
  | merge (member source : ι)

namespace FamilyStep

/-- Whether what a step offers has a hash that can be kept at all. -/
def HashBelow : FamilyStep ι α → Prop
  | add _ hash _ => hash < HashSample.noBound
  | merge _ _ => True

end FamilyStep

section Received

variable [DecidableEq ι]

/-- What the members have received after a step, directly or from another one. -/
def FamilyStep.receive (received : ι → List (UInt64 × α)) : FamilyStep ι α → ι → List (UInt64 × α)
  | add i hash a => Function.update received i (received i ++ [(hash, a)])
  | merge i j => Function.update received i (received i ++ received j)

/-- What the members of a family receive in a run. -/
def received (steps : List (FamilyStep ι α)) : ι → List (UInt64 × α) :=
  steps.foldl FamilyStep.receive fun _ => []

/-- What the members receive has the hashes of what the steps offer. -/
theorem received_lt_noBound {steps : List (FamilyStep ι α)}
    (hsteps : ∀ step ∈ steps, step.HashBelow) {received : ι → List (UInt64 × α)}
    (hreceived : ∀ i, ∀ e ∈ received i, e.1 < HashSample.noBound) (i : ι) :
    ∀ e ∈ steps.foldl FamilyStep.receive received i, e.1 < HashSample.noBound := by
  induction steps generalizing received with
  | nil => exact hreceived i
  | cons step rest ih =>
    refine ih (fun step hstep => hsteps step (List.mem_cons_of_mem _ hstep)) ?_
    have hfirst := hsteps step List.mem_cons_self
    intro j e he
    cases step with
    | add member hash a =>
      by_cases hj : j = member
      · subst hj
        simp only [FamilyStep.receive, Function.update_self, List.mem_append,
          List.mem_singleton] at he
        rcases he with he | rfl
        · exact hreceived j e he
        · exact hfirst
      · simp only [FamilyStep.receive, Function.update_of_ne hj] at he
        exact hreceived j e he
    | merge member source =>
      by_cases hj : j = member
      · subst hj
        simp only [FamilyStep.receive, Function.update_self, List.mem_append] at he
        exact he.elim (hreceived j e) (hreceived source e)
      · simp only [FamilyStep.receive, Function.update_of_ne hj] at he
        exact hreceived j e he

end Received

/-! ## Values under hashes as items -/

/-- A value with its hash is offered as it is; values of one hash combine. -/
def valueOffering (α : Type) [Combine α] : Offering (UInt64 × α) α where
  hash := Prod.fst
  value x rest := (rest.map Prod.snd).foldl combined x.2

/-- The values that were received under a hash, in the order of their coming. -/
def valuesUnder (received : List (UInt64 × α)) (hash : UInt64) : List α :=
  (received.filter fun e => e.1 == hash).map Prod.snd

variable [Combine α]

theorem offered_valueOffering (received : List (UInt64 × α)) (hash : UInt64) :
    (valueOffering α).offered received hash = combineAll? (valuesUnder received hash) := by
  show (valueOffering α).value? (received.filter fun e => e.1 == hash) = _
  unfold valuesUnder
  cases received.filter fun e => e.1 == hash with
  | nil => rfl
  | cons e rest => rfl

theorem lawful_valueOffering [CommCombine α] : (valueOffering α).Lawful fun _ => True where
  combine_value := by
    intro x y xs ys _
    have happend := foldl_append_cons combined x.2 (xs.map Prod.snd) y.2 (ys.map Prod.snd)
    show Combine.combine ((xs.map Prod.snd).foldl combined x.2)
      ((ys.map Prod.snd).foldl combined y.2) = .done () (((xs ++ y :: ys).map Prod.snd).foldl _ _)
    rw [combine_eq_done, List.map_append, List.map_cons, happend]
  value_perm := by
    intro x y xs ys hperm _
    have hall := foldAll?_perm combined (hperm.map Prod.snd)
    exact Option.some.inj hall

/-! ## The invariant of a run -/

/-- Every member is the sample of what it received. -/
def FamilySamples (capacity : Nat) (received : ι → List (UInt64 × α))
    (samples : ι → HashSample α) : Prop :=
  ∀ i, (samples i).capacity = capacity ∧
    Samples (valueOffering α) (received i) HashSample.noBound (samples i)

/-- The samples of an empty family are those of no items. -/
theorem familySamples_new {capacity : Nat} (h : 0 < capacity) :
    FamilySamples capacity (fun _ => []) fun _ : ι => (HashSample.new capacity : HashSample α) := by
  intro i
  refine ⟨?_, samples_new capacity⟩
  show max capacity 1 = capacity
  omega

variable [DecidableEq ι]

/-- Takes a step, unless its member refuses. -/
def FamilyStep.apply (samples : ι → HashSample α) : FamilyStep ι α → Outcome (ι → HashSample α)
  | add i hash a =>
    let (outcome, s) := (samples i).add hash a
    outcome.map fun _ => Function.update samples i s
  | merge i j =>
    let (outcome, s) := (samples i).merge (samples j)
    outcome.map fun _ => Function.update samples i s

/-- Runs a family of samples of one capacity, which are empty at first. -/
def runFamily (capacity : Nat) (steps : List (FamilyStep ι α)) : Outcome (ι → HashSample α) :=
  steps.foldlM FamilyStep.apply fun _ => HashSample.new capacity

/-- Replacing one member and what it received keeps the others. -/
theorem FamilySamples.update {capacity : Nat} {received : ι → List (UInt64 × α)}
    {samples : ι → HashSample α} (h : FamilySamples capacity received samples) (i : ι)
    {items : List (UInt64 × α)} {s : HashSample α} (hcap : s.capacity = (samples i).capacity)
    (hs : Samples (valueOffering α) items HashSample.noBound s) :
    FamilySamples capacity (Function.update received i items) (Function.update samples i s) := by
  intro j
  by_cases hj : j = i
  · subst hj
    rw [Function.update_self, Function.update_self, hcap]
    exact ⟨(h j).1, hs⟩
  · rw [Function.update_of_ne hj, Function.update_of_ne hj]
    exact h j

/-- A step does not fail and keeps the invariant. -/
theorem FamilySamples.step [CommCombine α] {capacity : Nat} {received : ι → List (UInt64 × α)}
    {samples : ι → HashSample α} (h : FamilySamples capacity received samples)
    (step : FamilyStep ι α) :
    ∃ samples', step.apply samples = .ok samples' ∧
      FamilySamples capacity (step.receive received) samples' := by
  cases step with
  | add i hash a =>
    obtain ⟨kept, s, hadd, hcap, hs, -⟩ :=
      (h i).2.add lawful_valueOffering.toCombines (x := (hash, a)) fun _ _ => trivial
    have hadd' : (samples i).add hash a = .done kept s := hadd
    refine ⟨Function.update samples i s, ?_, h.update i hcap hs⟩
    simp only [FamilyStep.apply, hadd']
    rfl
  | merge i j =>
    have hcover : Covers (valueOffering α) (received j) HashSample.noBound
        (samples i).capacity (samples j) := by
      rw [(h i).1, ← (h j).1]
      exact (h j).2.toCovers
    obtain ⟨s, hmerge, hcap, hs⟩ := (h i).2.merge lawful_valueOffering.toCombines hcover
      fun _ _ => trivial
    rw [Std.min_self] at hs
    refine ⟨Function.update samples i s, ?_, h.update i hcap hs⟩
    simp only [FamilyStep.apply, hmerge]
    rfl

/-- A run does not fail and keeps the invariant. -/
theorem FamilySamples.run [CommCombine α] {capacity : Nat} {received : ι → List (UInt64 × α)}
    {samples : ι → HashSample α} (h : FamilySamples capacity received samples)
    (steps : List (FamilyStep ι α)) :
    ∃ samples', steps.foldlM FamilyStep.apply samples = .ok samples' ∧
      FamilySamples capacity (steps.foldl FamilyStep.receive received) samples' := by
  induction steps generalizing received samples with
  | nil => exact ⟨samples, rfl, h⟩
  | cons step rest ih =>
    obtain ⟨next, hstep, hnext⟩ := h.step step
    obtain ⟨samples', hrest, hs⟩ := ih hnext
    refine ⟨samples', ?_, hs⟩
    rw [List.foldlM_cons, hstep]
    exact hrest

/-! ## The smallest hashes -/

/-- The hashes under which values were received. -/
def receivedHashes (received : List (UInt64 × α)) : Finset UInt64 :=
  (received.map Prod.fst).toFinset

/-- A sample that holds, of all values received, those of the `k` smallest hashes: the hashes with
fewer than `k` smaller ones.  Its bound is the next hash after these, the one with exactly `k`
smaller ones, or stands for no bound when there is none. -/
structure HoldsSmallest (k : Nat) (received : List (UInt64 × α)) (s : HashSample α) : Prop where
  retained : s.retained = min k (receivedHashes received).card
  kept : ∀ hash, (s.get? hash).isSome = true ↔
    hash ∈ receivedHashes received ∧ rank (receivedHashes received) hash < k
  unbounded : (receivedHashes received).card ≤ k → s.bound = HashSample.noBound
  bounded : k < (receivedHashes received).card →
    s.bound ∈ receivedHashes received ∧ rank (receivedHashes received) s.bound = k
  values : ∀ hash a, s.get? hash = some a → combineAll? (valuesUnder received hash) = some a

/-- The sample of what was received holds the values of the smallest hashes. -/
theorem Samples.holdsSmallest {k : Nat} {received : List (UInt64 × α)} {s : HashSample α}
    (h : Samples (valueOffering α) received HashSample.noBound s) (hcap : s.capacity = k)
    (hbelow : ∀ e ∈ received, e.1 < HashSample.noBound) : HoldsSmallest k received s := by
  have below : ∀ x ∈ (valueOffering α).hashes received, x < HashSample.noBound := by
    intro x hx
    obtain ⟨e, he, rfl⟩ := Offering.mem_hashes.1 hx
    exact hbelow e he
  subst hcap
  exact {
    retained := h.retained_eq_min below
    kept := fun _ => h.kept_iff below
    unbounded := h.bound_eq_of_card_le
    bounded := h.bound_of_lt_card below
    values := fun hash _ hget => offered_valueOffering received hash ▸ h.offered_of_get? hget }

/-- Whatever a family does, no step fails, and every member holds the smallest of all hashes it
received with everything that it received under them.  Members that received the same, in any order
and in any two runs, are equal. -/
theorem family_holds_smallest [CommCombine α] {k : Nat} (hk : 0 < k)
    {steps : List (FamilyStep ι α)} (hsteps : ∀ step ∈ steps, step.HashBelow) :
    ∃ samples, runFamily k steps = .ok samples ∧
      (∀ i, HoldsSmallest k (received steps i) (samples i)) ∧
      ∀ (steps' : List (FamilyStep ι α)) (samples' : ι → HashSample α),
        runFamily k steps' = .ok samples' →
        ∀ i j, (received steps i).Perm (received steps' j) → samples i = samples' j := by
  obtain ⟨samples, hrun, hsamples⟩ := (familySamples_new hk).run steps
  refine ⟨samples, hrun, ?_, ?_⟩
  · intro i
    refine (hsamples i).2.holdsSmallest (hsamples i).1 ?_
    exact received_lt_noBound hsteps (by simp) i
  · intro steps' samples' hrun' i j hperm
    obtain ⟨samples'', hrun'', hsamples''⟩ := (familySamples_new hk).run steps'
    cases hrun'.symm.trans hrun''
    refine (hsamples i).2.unique (hsamples'' j).2 ?_ ?_
    · rw [(hsamples i).1, (hsamples'' j).1]
    · exact lawful_valueOffering.offered_perm (fun _ _ => trivial) hperm

/-- A count under a hash; counts add up. -/
structure Tally where
  count : Nat

instance : Combine Tally := ⟨fun a b => .done () ⟨a.count + b.count⟩⟩

instance : CommCombine Tally where
  total _ _ := rfl
  comm a b := congrArg Tally.mk (Nat.add_comm a.count b.count)
  assoc a b c := congrArg Tally.mk (Nat.add_assoc a.count b.count c.count)

/-- Two samples of two hashes: the first drops the hash 9 before it merges the second, and drops 5
after that. -/
def tallySteps : List (FamilyStep Bool Tally) :=
  [.add false 5 ⟨1⟩, .add false 9 ⟨1⟩, .add false 1 ⟨1⟩, .add true 5 ⟨2⟩, .add true 3 ⟨1⟩,
    .merge false true, .merge true true]

theorem tallySteps_hashBelow : ∀ step ∈ tallySteps, step.HashBelow := by
  intro step hstep
  simp only [tallySteps, List.mem_cons, List.not_mem_nil, or_false] at hstep
  rcases hstep with rfl | rfl | rfl | rfl | rfl | rfl | rfl <;>
    first | exact trivial | (show _ < HashSample.noBound; decide)

theorem tally_family_holds_smallest :
    0 < 2 ∧ (∀ step ∈ tallySteps, step.HashBelow) ∧
      ∃ samples, runFamily 2 tallySteps = .ok samples ∧
        (∀ i, HoldsSmallest 2 (received tallySteps i) (samples i)) ∧
        ∀ (steps' : List (FamilyStep Bool Tally)) (samples' : Bool → HashSample Tally),
          runFamily 2 steps' = .ok samples' →
          ∀ i j, (received tallySteps i).Perm (received steps' j) → samples i = samples' j :=
  ⟨by decide, tallySteps_hashBelow,
    family_holds_smallest (by decide) tallySteps_hashBelow⟩

end StreamQuery
