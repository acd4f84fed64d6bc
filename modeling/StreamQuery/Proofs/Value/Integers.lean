import StreamQuery.Proofs.Value.Equality
import StreamQuery.Value.Arithmetic
set_option autoImplicit false

/-!
# Arithmetic of integers

An operator on two integers has the exact result as far as the word of the wider kind can tell: the
value of that kind that is congruent to it modulo the size of the word.  Quotients are rounded down,
and only the least integer divided by minus one does not fit
(`Value.arithmetic_modulo_word`).
-/

namespace StreamQuery

/-! ## Quotients rounded down -/

namespace Numeric

theorem fdiv_eq_floor {a b : Int} (hb : b ≠ 0) : a.fdiv b = ⌊(a : ℚ) / b⌋ := by
  have hpositive : ∀ {m n : Int}, 0 < n → m.fdiv n = ⌊(m : ℚ) / n⌋ := by
    intro m n hn
    rw [Int.floor_div_cast_of_nonneg hn.le, Int.floor_intCast, Int.fdiv_eq_ediv_of_nonneg _ hn.le]
  rcases lt_or_gt_of_ne hb with hneg | hpos
  · rw [← Int.neg_fdiv_neg, hpositive (Int.neg_pos.2 hneg)]
    simp
  · exact hpositive hpos

/-- The quotient rounded down is the truncated one, less one where the signs differ and a remainder
is left. -/
theorem fdiv_eq_truncated {a b : Int} (hb : b ≠ 0) : a.fdiv b =
    if a.tmod b ≠ 0 ∧ decide (a < 0) ≠ decide (b < 0) then a.tdiv b - 1 else a.tdiv b := by
  rw [Int.fdiv_eq_tdiv]
  simp only [Int.dvd_iff_tmod_eq_zero]
  by_cases hremainder : a.tmod b = 0
  · simp [hremainder]
  · rcases lt_or_gt_of_ne hb with hneg | hpos
    · have hsign := Int.sign_eq_neg_one_of_neg hneg
      by_cases ha : a < 0
      · simp [hremainder, hneg, ha, hsign, Int.not_le.2 hneg, Int.not_le.2 ha]
      · simp [hremainder, hneg, ha, Int.not_le.2 hneg, Int.not_lt.1 ha]
    · have hsign := Int.sign_eq_one_of_pos hpos
      by_cases ha : a < 0
      · simp [hremainder, ha, hsign, hpos.le, Int.not_le.2 ha, Int.not_lt.2 hpos.le]
      · simp [hremainder, ha, hpos.le, Int.not_lt.1 ha, Int.not_lt.2 hpos.le]

/-- The quotient of integers of a symmetric range lies in it, unless the least one is divided by
minus one. -/
theorem fdiv_bounds {n a b : Int} (hlo : -n ≤ a) (hhi : a < n) (hb : b ≠ 0)
    (hwraps : ¬ (a = -n ∧ b = -1)) : -n ≤ a.fdiv b ∧ a.fdiv b < n := by
  rcases lt_or_gt_of_ne hb with hneg | hpos
  · have hpos : 0 < -b := by omega
    rw [← Int.neg_fdiv_neg, Int.fdiv_eq_ediv_of_nonneg _ hpos.le, Int.le_ediv_iff_mul_le hpos,
      Int.ediv_lt_iff_lt_mul hpos]
    refine ⟨by nlinarith, ?_⟩
    by_cases hone : b = -1
    · subst hone
      omega
    · have htwice : n * 2 ≤ n * -b := Int.mul_le_mul_of_nonneg_left (by omega) (by omega)
      linarith
  · rw [Int.fdiv_eq_ediv_of_nonneg _ hpos.le, Int.le_ediv_iff_mul_le hpos,
      Int.ediv_lt_iff_lt_mul hpos]
    exact ⟨by nlinarith, by nlinarith⟩

theorem floorDiv32_eq {a b : Int32} (hb : b ≠ 0) :
    floorDiv32 a b = Int32.ofInt (a.toInt.fdiv b.toInt) := by
  have hzero : b.toInt ≠ 0 := fun h => hb (Int32.toInt_inj.1 h)
  apply Int32.toInt_inj.1
  rw [Int32.toInt_ofInt, fdiv_eq_truncated hzero, floorDiv32, Int32.size]
  have hremainder : a % b ≠ 0 ↔ a.toInt.tmod b.toInt ≠ 0 := by
    rw [← Int32.toInt_mod, Ne, Ne, ← Int32.toInt_inj, Int32.toInt_zero]
  simp only [hremainder, Int32.lt_iff_toInt_lt, Int32.toInt_zero]
  split
  · rw [Int32.toInt_sub, Int32.toInt_div, Int32.toInt_one, Int.bmod_sub_bmod]
  · exact Int32.toInt_div a b

theorem floorDiv64_eq {a b : Int64} (hb : b ≠ 0) :
    floorDiv64 a b = Int64.ofInt (a.toInt.fdiv b.toInt) := by
  have hzero : b.toInt ≠ 0 := fun h => hb (Int64.toInt_inj.1 h)
  apply Int64.toInt_inj.1
  rw [Int64.toInt_ofInt, fdiv_eq_truncated hzero, floorDiv64, Int64.size]
  have hremainder : a % b ≠ 0 ↔ a.toInt.tmod b.toInt ≠ 0 := by
    rw [← Int64.toInt_mod, Ne, Ne, ← Int64.toInt_inj, Int64.toInt_zero]
  simp only [hremainder, Int64.lt_iff_toInt_lt, Int64.toInt_zero]
  split
  · rw [Int64.toInt_sub, Int64.toInt_div, Int64.toInt_one, Int.bmod_sub_bmod]
  · exact Int64.toInt_div a b

end Numeric

/-! ## Operators on integers -/

/-- The exact result of an arithmetic operator on two integers; a quotient is rounded down. -/
def BinaryOperator.exact (op : BinaryOperator) (a b : Int) : Int :=
  match op with
  | .add => a + b
  | .subtract => a - b
  | .multiply => a * b
  | _ => a.fdiv b

/-- The number of bits of a word of an integral kind. -/
def Kind.wordSize : Kind → Nat
  | .long => 64
  | _ => 32

namespace Value

/-- An integer as a value of an integral kind; it wraps around at the word. -/
def wrapped (k : Kind) (n : Int) : Value :=
  if k = .long then long (Int64.ofInt n) else integer (Int32.ofInt n)

variable {op : BinaryOperator} {k : Kind} {l r v : Value} {a b n : Int}

theorem integerArithmetic_eq (hop : op.isArithmetic = true) (x y : Int32) :
    integerArithmetic op x y = if op = .divide ∧ y.toInt = 0 then .error .divisionByZero
      else .ok (wrapped .integer (op.exact x.toInt y.toInt)) := by
  have hzero : y = 0 ↔ y.toInt = 0 := by rw [← Int32.toInt_inj, Int32.toInt_zero]
  cases op with
  | add => simp [integerArithmetic, wrapped, BinaryOperator.exact]
  | subtract => simp [integerArithmetic, wrapped, BinaryOperator.exact]
  | multiply => simp [integerArithmetic, wrapped, BinaryOperator.exact]
  | divide =>
    by_cases hy : y = 0
    · simp [integerArithmetic, hy]
    · simp [integerArithmetic, hy, mt hzero.2 hy, wrapped, BinaryOperator.exact,
        Numeric.floorDiv32_eq hy]
  | _ => cases hop

theorem longArithmetic_eq (hop : op.isArithmetic = true) (x y : Int64) :
    longArithmetic op x y = if op = .divide ∧ y.toInt = 0 then .error .divisionByZero
      else .ok (wrapped .long (op.exact x.toInt y.toInt)) := by
  have hzero : y = 0 ↔ y.toInt = 0 := by rw [← Int64.toInt_inj, Int64.toInt_zero]
  cases op with
  | add => simp [longArithmetic, wrapped, BinaryOperator.exact]
  | subtract => simp [longArithmetic, wrapped, BinaryOperator.exact]
  | multiply => simp [longArithmetic, wrapped, BinaryOperator.exact]
  | divide =>
    by_cases hy : y = 0
    · simp [longArithmetic, hy]
    · simp [longArithmetic, hy, mt hzero.2 hy, wrapped, BinaryOperator.exact,
        Numeric.floorDiv64_eq hy]
  | _ => cases hop

/-- The kind in which two integral kinds meet. -/
def widerKind (l r : Value) : Kind := if l.kind = .long ∨ r.kind = .long then .long else .integer

/-- An operator on integers has the exact result, wrapped around; only a division by zero fails. -/
theorem arithmetic_eq_wrapped (hl : l.integral? = some a) (hr : r.integral? = some b)
    (hop : op.isArithmetic = true) :
    arithmetic op l r = if op = .divide ∧ b = 0 then .error .divisionByZero
      else .ok (wrapped (widerKind l r) (op.exact a b)) := by
  cases l with
  | integer x =>
    cases hl
    cases r with
    | integer y =>
      cases hr
      simp only [arithmetic, hop, NumberPair.of?, if_true]
      exact integerArithmetic_eq hop x y
    | long y =>
      cases hr
      simp only [arithmetic, hop, NumberPair.of?, if_true, ← Int32.toInt_toInt64 x]
      exact longArithmetic_eq hop x.toInt64 y
    | _ => cases hr
  | long x =>
    cases hl
    cases r with
    | integer y =>
      cases hr
      simp only [arithmetic, hop, NumberPair.of?, if_true, ← Int32.toInt_toInt64 y]
      exact longArithmetic_eq hop x y.toInt64
    | long y =>
      cases hr
      simp only [arithmetic, hop, NumberPair.of?, if_true]
      exact longArithmetic_eq hop x y
    | _ => cases hr
  | _ => cases hl

/-! ## Values that are congruent -/

/-- The value of a kind is congruent to an integer modulo the size of the word. -/
def IsResidue (k : Kind) (n : Int) (v : Value) : Prop :=
  v.kind = k ∧ ∃ m, v.integral? = some m ∧ m ≡ n [ZMOD 2 ^ k.wordSize]

theorem integral?_wrapped (hk : k.isIntegral = true) (n : Int) :
    (wrapped k n).integral? = some (n.bmod (2 ^ k.wordSize)) := by
  cases k with
  | integer => exact congrArg some Int32.toInt_ofInt
  | long => exact congrArg some Int64.toInt_ofInt
  | _ => cases hk

theorem kind_wrapped (hk : k.isIntegral = true) (n : Int) : (wrapped k n).kind = k := by
  cases k <;> first | rfl | cases hk

/-- An integral value is what its own integer wraps to. -/
theorem eq_wrapped {m : Int} (hv : v.integral? = some m) : v = wrapped v.kind m := by
  cases v with
  | integer x =>
    cases hv
    exact congrArg integer (Int32.ofInt_toInt x).symm
  | long x =>
    cases hv
    exact congrArg long (Int64.ofInt_toInt x).symm
  | _ => cases hv

/-- Integers that are congruent wrap to the same value. -/
theorem wrapped_congr {m : Int} (hk : k.isIntegral = true) (h : m ≡ n [ZMOD 2 ^ k.wordSize]) :
    wrapped k m = wrapped k n := by
  have hbmod : m.bmod (2 ^ k.wordSize) = n.bmod (2 ^ k.wordSize) := by
    have hmod : m % (2 ^ k.wordSize : Nat) = n % (2 ^ k.wordSize : Nat) := by exact_mod_cast h
    rw [← Int.emod_bmod, hmod, Int.emod_bmod]
  cases k with
  | integer =>
    apply congrArg integer
    apply Int32.toInt_inj.1
    rw [Int32.toInt_ofInt, Int32.toInt_ofInt]
    exact hbmod
  | long =>
    apply congrArg long
    apply Int64.toInt_inj.1
    rw [Int64.toInt_ofInt, Int64.toInt_ofInt]
    exact hbmod
  | _ => cases hk

/-- There is one value of an integral kind that is congruent to an integer. -/
theorem isResidue_iff (hk : k.isIntegral = true) : IsResidue k n v ↔ v = wrapped k n := by
  constructor
  · rintro ⟨rfl, m, hm, hcongr⟩
    rw [eq_wrapped hm, kind_wrapped hk, wrapped_congr hk hcongr]
  · rintro rfl
    refine ⟨kind_wrapped hk n, _, integral?_wrapped hk n, ?_⟩
    have hmod := Int.bmod_emod (x := n) (m := 2 ^ k.wordSize)
    exact_mod_cast hmod

/-- An outcome is the one value of a kind that is congruent to an integer. -/
def Answers (x : Outcome Value) (k : Kind) (n : Int) : Prop :=
  ∃ v, x = .ok v ∧ ∀ v', IsResidue k n v' ↔ v' = v

theorem isIntegral_widerKind (l r : Value) : (widerKind l r).isIntegral = true := by
  unfold widerKind
  split <;> rfl

theorem answers_of_not_division (hl : l.integral? = some a) (hr : r.integral? = some b)
    (hop : op.isArithmetic = true) (hzero : ¬ (op = .divide ∧ b = 0)) :
    Answers (arithmetic op l r) (widerKind l r) (op.exact a b) := by
  refine ⟨_, ?_, fun v' => isResidue_iff (isIntegral_widerKind l r)⟩
  rw [arithmetic_eq_wrapped hl hr hop, if_neg hzero]

/-- The least integer of a kind. -/
def least (k : Kind) : Int := -2 ^ (k.wordSize - 1)

theorem integral?_bounds (hl : l.integral? = some a) (r : Value) :
    least (widerKind l r) ≤ a ∧ a < -least (widerKind l r) := by
  cases l with
  | integer x =>
    cases hl
    have hlo := x.le_toInt
    have hhi := x.toInt_lt
    unfold widerKind
    split <;> simp only [least, Kind.wordSize] <;> omega
  | long x =>
    cases hl
    have hlo := x.le_toInt
    have hhi := x.toInt_lt
    exact ⟨hlo, hhi⟩
  | _ => cases hl

/-- A quotient fits the word, unless the least integer is divided by minus one. -/
theorem bmod_fdiv (hk : k.isIntegral = true) (hlo : least k ≤ a) (hhi : a < -least k) (hb : b ≠ 0) :
    (a.fdiv b).bmod (2 ^ k.wordSize) = if a = least k ∧ b = -1 then a else a.fdiv b := by
  split
  · rename_i hwraps
    obtain ⟨rfl, rfl⟩ := hwraps
    cases k <;> decide
  · rename_i hwraps
    obtain ⟨hlow, hhigh⟩ := Numeric.fdiv_bounds (n := -least k) (by omega) hhi hb (by omega)
    cases k with
    | integer => exact Int.bmod_eq_of_le hlow hhigh
    | long => exact Int.bmod_eq_of_le hlow hhigh
    | _ => cases hk

/-- For integers of any mix of kinds, sums, differences and products are congruent to the exact ones
modulo the size of the word of the wider kind.  A division fails exactly for the divisor zero, with
an error of its own; otherwise it is congruent to the quotient rounded down, and is that quotient
unless the least integer is divided by minus one, which gives the least integer back. -/
theorem arithmetic_modulo_word (hl : l.integral? = some a) (hr : r.integral? = some b) :
    Answers (arithmetic .add l r) (widerKind l r) (a + b) ∧
      Answers (arithmetic .subtract l r) (widerKind l r) (a - b) ∧
      Answers (arithmetic .multiply l r) (widerKind l r) (a * b) ∧
      (∀ e, arithmetic .divide l r = .error e ↔ b = 0 ∧ e = .divisionByZero) ∧
      (b ≠ 0 → Answers (arithmetic .divide l r) (widerKind l r) ⌊(a : ℚ) / b⌋ ∧
        ∀ q, arithmetic .divide l r = .ok q → q.integral? =
          some (if a = least (widerKind l r) ∧ b = -1 then a else ⌊(a : ℚ) / b⌋)) := by
  have hdivide : arithmetic .divide l r = _ := arithmetic_eq_wrapped hl hr rfl
  simp only [true_and] at hdivide
  refine ⟨answers_of_not_division hl hr rfl (by simp), answers_of_not_division hl hr rfl (by simp),
    answers_of_not_division hl hr rfl (by simp), ?_, ?_⟩
  · intro e
    rw [hdivide]
    by_cases hb : b = 0
    · simp [hb, eq_comm]
    · simp [hb]
  · intro hb
    rw [← Numeric.fdiv_eq_floor hb]
    refine ⟨answers_of_not_division hl hr rfl (by simp [hb]), ?_⟩
    intro q hq
    rw [hdivide, if_neg hb] at hq
    obtain rfl := Except.ok.inj hq
    obtain ⟨hlo, hhi⟩ := integral?_bounds hl r
    rw [integral?_wrapped (isIntegral_widerKind l r)]
    exact congrArg some (bmod_fdiv (isIntegral_widerKind l r) hlo hhi hb)

/-- The least LONG, which wraps around when it is divided by an INTEGER. -/
theorem arithmetic_modulo_word_least :
    (long Int64.minValue).integral? = some (-2 ^ 63) ∧ (integer (-1)).integral? = some (-1) ∧
      Answers (arithmetic .add (long Int64.minValue) (integer (-1))) .long (-2 ^ 63 + -1) ∧
      (-1 : Int) ≠ 0 ∧
      arithmetic .divide (long Int64.minValue) (integer (-1)) = .ok (long Int64.minValue) ∧
      (long Int64.minValue).integral? = some (-2 ^ 63) := by
  have hl : (long Int64.minValue).integral? = some (-2 ^ 63) := rfl
  have hr : (integer (-1)).integral? = some (-1) := rfl
  have hb : (-1 : Int) ≠ 0 := by decide
  have hquotient : arithmetic .divide (long Int64.minValue) (integer (-1))
      = .ok (long Int64.minValue) := rfl
  obtain ⟨hadd, -, -, -, hdivide⟩ := arithmetic_modulo_word hl hr
  have hleast := (hdivide hb).2 _ hquotient
  exact ⟨hl, hr, hadd, hb, hquotient, hleast⟩

end Value

end StreamQuery
