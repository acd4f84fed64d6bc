import StreamQuery.Expr.Eval
import StreamQuery.Proofs.Value.Ordering
set_option autoImplicit false

/-!
# Comparisons

Equality of values and their order are told by different functions; on values that can be compared
they are two readings of one comparison (`Value.equals_of_compare`).  So every comparison operator
is a test of that comparison (`BinaryOperator.judge`), and how the operators are related to each
other is read off the tests (`Expr.comparisons_dual`).
-/

namespace StreamQuery

/-! ## Equality and order of values -/

namespace Value

variable {l r : Value} {o : Ordering}

theorem comparesEqual_refl (v : Value) : ComparesEqual v v := .inl ⟨rfl, rfl⟩

/-- Every value is equal to itself. -/
theorem equals_refl (v : Value) : v.equals v = true :=
  equals_iff.2 (matches_refl (fun v _ => comparesEqual_refl v) v)

/-- Equality does not depend on the side. -/
theorem equals_comm (l r : Value) : l.equals r = r.equals l := by
  rw [Bool.eq_iff_iff, equals_iff, equals_iff]
  exact ⟨fun h => h.symm comparesEqual_comm.1, fun h => h.symm comparesEqual_comm.1⟩

/-- Values that can be compared are equal if they compare equal. -/
theorem equals_of_compare (h : l.compare r = .ok o) : l.equals r = (o == .eq) := by
  have hequal : l.equals r = true ↔ l.compare r = .ok .eq := by
    apply equals_iff_compare
    · rintro xs rfl
      cases h
    · rintro xs rfl
      cases h
    · rintro rfl
      cases h
  rw [Bool.eq_iff_iff, hequal, h, Except.ok.injEq, beq_iff_eq]

/-- NULL cannot be compared. -/
theorem isNull_of_compare (h : l.compare r = .ok o) : l.isNull = false ∧ r.isNull = false := by
  cases l <;> cases r <;> first | exact ⟨rfl, rfl⟩ | cases h

/-- A comparison fails the one way round exactly if it does the other way round, and otherwise it
is reversed. -/
theorem compare_dual (l r : Value) :
    ((∃ e, r.compare l = .error e) ↔ ∃ e, l.compare r = .error e) ∧
      ∀ o, l.compare r = .ok o → r.compare l = .ok o.swap := by
  rcases compare_swap_or_error l r with ⟨o, ho, hswap⟩ | ⟨e, e', he, he'⟩
  · simp [ho, hswap]
  · simp [he, he']

end Value

/-! ## Operators -/

namespace BinaryOperator

/-- The operators that compare. -/
def isComparison : BinaryOperator → Bool
  | equal | notEqual | lessThan | lessThanOrEqual | greaterThan | greaterThanOrEqual => true
  | _ => false

/-- Whether a comparison is true of operands that compare in a given order. -/
def judge : BinaryOperator → Ordering → Bool
  | equal, o => o == .eq
  | notEqual, o => o != .eq
  | op, o => op.accepts o

/-- The comparison that is false where another one is true. -/
def negated : BinaryOperator → BinaryOperator
  | equal => notEqual
  | notEqual => equal
  | lessThan => greaterThanOrEqual
  | lessThanOrEqual => greaterThan
  | greaterThan => lessThanOrEqual
  | greaterThanOrEqual => lessThan
  | op => op

/-- The comparison that says the same of the operands the other way round. -/
def mirrored : BinaryOperator → BinaryOperator
  | lessThan => greaterThan
  | lessThanOrEqual => greaterThanOrEqual
  | greaterThan => lessThan
  | greaterThanOrEqual => lessThanOrEqual
  | op => op

variable {op : BinaryOperator}

theorem isComparison_negated (h : op.isComparison = true) : op.negated.isComparison = true := by
  cases op <;> first | rfl | cases h

theorem isComparison_mirrored (h : op.isComparison = true) : op.mirrored.isComparison = true := by
  cases op <;> first | rfl | cases h

theorem judge_negated (h : op.isComparison = true) (o : Ordering) :
    op.negated.judge o = !op.judge o := by
  cases op <;> cases h <;> cases o <;> rfl

theorem judge_mirrored (h : op.isComparison = true) (o : Ordering) :
    op.mirrored.judge o.swap = op.judge o := by
  cases op <;> cases h <;> cases o <;> rfl

/-- Operands are less, equal or greater, and only one of these. -/
theorem existsUnique_judge (o : Ordering) :
    ∃! op, op ∈ [lessThan, equal, greaterThan] ∧ op.judge o = true := by
  have honly (only : BinaryOperator) (h : only ∈ [lessThan, equal, greaterThan])
      (hjudge : only.judge o = true)
      (hothers : ∀ op ∈ [lessThan, equal, greaterThan], op.judge o = true → op = only) :
      ∃! op, op ∈ [lessThan, equal, greaterThan] ∧ op.judge o = true :=
    ⟨only, ⟨h, hjudge⟩, fun op hop => hothers op hop.1 hop.2⟩
  cases o with
  | lt => exact honly lessThan (by decide) rfl (by decide)
  | eq => exact honly equal (by decide) rfl (by decide)
  | gt => exact honly greaterThan (by decide) rfl (by decide)

end BinaryOperator

/-! ## Expressions -/

namespace Expr

open BinaryOperator

variable {lookup : Lookup} {r : Record} {a b : Expr} {u v : Value} {o : Ordering}
  {op : BinaryOperator}

/-- A comparison of operands that can be compared is a test of how they do. -/
theorem eval_comparison (ha : a.eval lookup r = .ok u) (hb : b.eval lookup r = .ok v)
    (h : u.compare v = .ok o) (hop : op.isComparison = true) :
    (binary a op b).eval lookup r = .ok (.boolean (op.judge o)) := by
  obtain ⟨hu, hv⟩ := Value.isNull_of_compare h
  cases op <;> cases hop <;>
    simp [eval, ha, hb, bind, Except.bind, isArithmetic, Value.comparison, hu, hv, h, Except.map,
      Value.equals_of_compare h, judge, bne]

/-- Comparisons are dual.  Values compare the other way round when they are swapped, or not at all
either way, and their equality is reflexive and symmetric.  So of two expressions with values that
can be compared, neither being NULL then, exactly one of less, equal and greater is true; every
comparison is true or false, the negated one is the opposite, and the mirrored one of the swapped
expressions is the same. -/
theorem comparisons_dual :
    (∀ l r : Value, ((∃ e, r.compare l = .error e) ↔ ∃ e, l.compare r = .error e) ∧
        ∀ o, l.compare r = .ok o → r.compare l = .ok o.swap) ∧
      (∀ v : Value, v.equals v = true) ∧ (∀ l r : Value, l.equals r = r.equals l) ∧
      ∀ (lookup : Lookup) (r : Record) (a b : Expr) (u v : Value) (o : Ordering),
        a.eval lookup r = .ok u → b.eval lookup r = .ok v → u.compare v = .ok o →
        (∃! op, op ∈ [lessThan, equal, greaterThan] ∧
          (binary a op b).eval lookup r = .ok (.boolean true)) ∧
        ∀ op : BinaryOperator, op.isComparison = true → ∃ t,
          (binary a op b).eval lookup r = .ok (.boolean t) ∧
          (binary a op.negated b).eval lookup r = .ok (.boolean !t) ∧
          (binary b op.mirrored a).eval lookup r = .ok (.boolean t) := by
  refine ⟨Value.compare_dual, Value.equals_refl, Value.equals_comm, ?_⟩
  intro lookup r a b u v o ha hb h
  have htest {op : BinaryOperator} (hop : op.isComparison = true) :
      (binary a op b).eval lookup r = .ok (.boolean (op.judge o)) := eval_comparison ha hb h hop
  constructor
  · obtain ⟨only, ⟨hmem, hjudge⟩, hothers⟩ := existsUnique_judge o
    have hcompares : ∀ op ∈ [lessThan, equal, greaterThan], op.isComparison = true := by decide
    refine ⟨only, ⟨hmem, by rw [htest (hcompares only hmem), hjudge]⟩, ?_⟩
    rintro op ⟨hop, htrue⟩
    rw [htest (hcompares op hop)] at htrue
    exact hothers op ⟨hop, Value.boolean.inj (Except.ok.inj htrue)⟩
  · intro op hop
    refine ⟨op.judge o, htest hop, ?_, ?_⟩
    · rw [htest (isComparison_negated hop), judge_negated hop]
    · rw [eval_comparison hb ha ((Value.compare_dual u v).2 o h) (isComparison_mirrored hop),
        judge_mirrored hop]

/-- The two zeros, of different kinds. -/
def zeros : Record := .ofList [("a", .integer 0), ("b", Value.negativeZero)]

/-- Zero with the negative sign is less than the other zero, and so not equal to it. -/
theorem comparisons_dual_zeros :
    (column "a").eval Record.lookup zeros = .ok (.integer 0) ∧
      (column "b").eval Record.lookup zeros = .ok Value.negativeZero ∧
      (Value.integer 0).compare Value.negativeZero = .ok .gt ∧
      Value.negativeZero.compare (.integer 0) = .ok .lt ∧
      (∃! op, op ∈ [lessThan, equal, greaterThan] ∧
        (binary (column "a") op (column "b")).eval Record.lookup zeros = .ok (.boolean true)) ∧
      ∃ t, (binary (column "a") .notEqual (column "b")).eval Record.lookup zeros
          = .ok (.boolean t) ∧
        (binary (column "a") .equal (column "b")).eval Record.lookup zeros = .ok (.boolean !t) ∧
        (binary (column "b") .notEqual (column "a")).eval Record.lookup zeros
          = .ok (.boolean t) := by
  have ha : (column "a").eval Record.lookup zeros = .ok (.integer 0) := rfl
  have hb : (column "b").eval Record.lookup zeros = .ok Value.negativeZero := rfl
  have hcompare : (Value.integer 0).compare Value.negativeZero = .ok .gt := by decide +kernel
  obtain ⟨hdual, -, -, heval⟩ := comparisons_dual
  obtain ⟨honly, htests⟩ := heval Record.lookup zeros _ _ _ _ _ ha hb hcompare
  exact ⟨ha, hb, hcompare, (hdual _ _).2 _ hcompare, honly, htests .notEqual rfl⟩

end Expr

end StreamQuery
