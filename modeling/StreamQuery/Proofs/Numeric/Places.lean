import Mathlib
import StreamQuery.Proofs.Numeric.Nearest
set_option autoImplicit false

/-!
# Places in the exact order

What words denote is ordered exactly: zero with the negative sign just below zero, the infinities
beyond all numbers, and what is no number beyond these, on either side by its sign.  The total order
of a format is this order (`BinaryFormat.Proper.compare_orderKey`), negation turns it around
(`BinaryFormat.Number.key_neg`), and an integer that is rounded to the format does not pass a number
of the format (`BinaryFormat.Proper.orderKey_le_encodeInt`,
`BinaryFormat.Proper.encodeInt_le_orderKey`).
-/

namespace StreamQuery.Numeric

/-- A place in the exact order: in the middle all finite numbers, by what they are and then by the
sign of zero. -/
abbrev Place := ℤ ×ₗ ℚ ×ₗ ℤ

/-- The place of a finite number. -/
def finitePlace (q : ℚ) (negativeZero : Bool) : Place :=
  toLex (0, toLex (q, if negativeZero then -1 else 0))

/-- A place beyond all finite numbers, on either side: the higher its rank, the farther out. -/
def outerPlace (negative : Bool) (rank : Nat) : Place :=
  toLex (if negative then -(rank : ℤ) else rank, toLex (0, 0))

/-- The place of a quantity, with the sign that is hidden in it. -/
def Quantity.place (hidden : Bool) : Quantity → Place
  | .nan => outerPlace hidden 2
  | .infinite negative => outerPlace negative 1
  | .finite q => finitePlace q hidden

/-- The place of what is denoted. -/
def Datum.place (d : Datum) : Place := d.quantity.place d.hiddenSign

/-! ## Finite places and the others -/

section Places

variable {p q : ℚ} {b c negative negative' : Bool} {rank rank' : Nat}

theorem finitePlace_le_iff :
    finitePlace p b ≤ finitePlace q c ↔ p < q ∨ p = q ∧ (c = true → b = true) := by
  cases b <;> cases c <;> simp [finitePlace, Prod.Lex.toLex_le_toLex]

theorem finitePlace_lt_iff :
    finitePlace p b < finitePlace q c ↔ p < q ∨ p = q ∧ b = true ∧ c = false := by
  cases b <;> cases c <;> simp [finitePlace, Prod.Lex.toLex_lt_toLex]

theorem outerPlace_lt_finitePlace (h : 0 < rank) : outerPlace true rank < finitePlace q c := by
  simp [outerPlace, finitePlace, Prod.Lex.toLex_lt_toLex, h]

theorem finitePlace_lt_outerPlace (h : 0 < rank) : finitePlace q c < outerPlace false rank := by
  simp [outerPlace, finitePlace, Prod.Lex.toLex_lt_toLex, h]

theorem outerPlace_lt_iff : outerPlace negative rank < outerPlace negative' rank' ↔
    (if negative then -(rank : ℤ) else rank) < if negative' then -(rank' : ℤ) else rank' := by
  simp only [outerPlace, Prod.Lex.toLex_lt_toLex, lt_irrefl, and_false, or_false]

end Places

/-- Comparisons agree if both orders do. -/
theorem compare_eq_compare {α β : Type*} [LinearOrder α] [LinearOrder β] {a b : α} {x y : β}
    (hlt : a < b → x < y) (heq : a = b → x = y) (hgt : b < a → y < x) :
    Ord.compare a b = Ord.compare x y := by
  rcases lt_trichotomy a b with h | h | h
  · rw [compare_lt_iff_lt.2 h, compare_lt_iff_lt.2 (hlt h)]
  · rw [compare_eq_iff_eq.2 h, compare_eq_iff_eq.2 (heq h)]
  · rw [compare_gt_iff_gt.2 h, compare_gt_iff_gt.2 (hgt h)]

namespace BinaryFormat

variable {f : BinaryFormat} {negative negative' : Bool} {w w' word word' : Nat} {n : Int}

/-! ## What magnitudes denote -/

/-- Magnitudes below infinity denote their numbers. -/
theorem denote_of_lt (negative : Bool) (hf : 2 ≤ f.exponentBits) (hw : w < f.infinityWord) :
    ∃ significand scale, f.denote (f.signWord negative + w) = .finite negative significand scale ∧
      (significand : ℚ) * 2 ^ scale = f.valueAt w ∧ (significand = 0 ↔ w = 0) := by
  obtain ⟨hlt, hfull⟩ := f.significand_bounds w
  have hparts := f.significand_add_binade w
  have hquotient : w / 2 ^ f.fractionBits < 2 ^ f.exponentBits - 1 :=
    (Nat.div_lt_iff_lt_mul (Nat.two_pow_pos _)).2 hw
  have hfour : 2 ^ 2 ≤ 2 ^ f.exponentBits := Nat.pow_le_pow_right (by decide) hf
  have hscale : (f.minScale + f.binade w - f.minScale).toNat = f.binade w := by omega
  have hbinade : f.binade w = w / 2 ^ f.fractionBits - 1 := rfl
  have hnormal : f.Normal (w - f.binade w * 2 ^ f.fractionBits) (f.minScale + f.binade w) :=
    { lt := hlt
      minScale_le := by omega
      scale_lt := by omega
      full := fun h => hfull <| by
        have hpos : 0 < w / 2 ^ f.fractionBits := by omega
        exact Nat.le_of_not_lt fun hless => by
          rw [Nat.div_eq_of_lt hless] at hpos
          omega }
  have hword : f.signWord negative + w = f.assemble negative
      (w - f.binade w * 2 ^ f.fractionBits) (f.minScale + f.binade w) := by
    rw [assemble, hscale, hparts]
  have hvalue : ((w - f.binade w * 2 ^ f.fractionBits : Nat) : ℚ)
      * 2 ^ (f.minScale + (f.binade w : Int)) = f.valueAt w := rfl
  refine ⟨_, _, hword ▸ hnormal.denote_assemble, hvalue, ?_⟩
  rw [← Nat.cast_eq_zero (R := ℚ), ← mul_eq_zero_iff_right (zpow_ne_zero _ two_ne_zero), hvalue,
    ← f.valueAt_zero, f.valueAt_strictMono.injective.eq_iff]

/-! ## Places of words -/

/-- The place of a magnitude in the total order. -/
theorem orderKey_signWord_add (hw : w < f.signWeight) :
    f.orderKey (f.signWord negative + w) = if negative then -1 - (w : Int) else w := by
  cases negative
  · simp only [orderKey, signWord, Bool.false_eq_true, if_false, Nat.zero_add]
    exact if_pos hw
  · simp only [orderKey, signWord, if_true]
    rw [if_neg (by omega)]
    push_cast
    omega

section Formats

variable (hf : f.Roomy)
include hf

/-- The place of a magnitude below infinity. -/
theorem Roomy.place_finite (hw : w < f.infinityWord) :
    (f.denote (f.signWord negative + w)).place
      = finitePlace (signed negative (f.valueAt w)) (negative && decide (w = 0)) := by
  obtain ⟨significand, scale, hdenote, hvalue, hzero⟩ := denote_of_lt negative hf.exponents hw
  rw [hdenote, Datum.place, Datum.quantity, hvalue, Datum.hiddenSign, decide_eq_decide.2 hzero,
    Quantity.place]

/-- The order of magnitudes, negative ones downwards, is that of the numbers with their signs. -/
theorem Roomy.place_lt_of_finite (hw : w < f.infinityWord) (hw' : w' < f.infinityWord)
    (hlt : f.orderKey (f.signWord negative + w) < f.orderKey (f.signWord negative' + w')) :
    (f.denote (f.signWord negative + w)).place < (f.denote (f.signWord negative' + w')).place := by
  have hmono := f.valueAt_strictMono
  rw [orderKey_signWord_add (hw.trans f.infinityWord_lt),
    orderKey_signWord_add (hw'.trans f.infinityWord_lt)] at hlt
  rw [hf.place_finite hw, hf.place_finite hw', finitePlace_lt_iff]
  cases negative <;> cases negative' <;>
    simp only [signed, Bool.false_eq_true, if_false, if_true, Bool.false_and,
      Bool.true_and] at hlt ⊢
  · left
    exact hmono (by omega)
  · omega
  · rcases Nat.eq_zero_or_pos (w + w') with hzero | hpos
    · obtain ⟨rfl, rfl⟩ := Nat.add_eq_zero_iff.1 hzero
      right
      simp
    · left
      have hsum : 0 < f.valueAt w + f.valueAt w' := by
        rcases Nat.eq_zero_or_pos w with rfl | hw0
        · rw [valueAt_zero, zero_add, ← f.valueAt_zero]
          exact hmono (by omega)
        · refine add_pos_of_pos_of_nonneg ?_ (valueAt_nonneg w')
          rw [← f.valueAt_zero]
          exact hmono hw0
      linarith
  · left
    exact neg_lt_neg (hmono (by omega))

end Formats

namespace Proper

variable (hf : f.Roomy)
include hf

/-- A word in use is that of a finite number, or one of those beyond them, the places of which are
in the order of their magnitudes. -/
theorem finite_or_outer (h : f.Proper word) :
    (∃ negative w, w < f.infinityWord ∧ word = f.signWord negative + w) ∨
      ∃ negative w rank, (w = f.infinityWord ∧ rank = 1 ∨ w = f.nanWord ∧ rank = 2) ∧
        word = f.signWord negative + w ∧ (f.denote word).place = outerPlace negative rank := by
  cases h with
  | finite negative hw => exact .inl ⟨negative, _, hw, rfl⟩
  | infinite negative =>
    refine .inr ⟨negative, _, 1, .inl ⟨rfl, rfl⟩, rfl, ?_⟩
    rw [denote_infinityWord, Datum.place, Datum.quantity, Quantity.place]
  | nan negative =>
    refine .inr ⟨negative, _, 2, .inr ⟨rfl, rfl⟩, rfl, ?_⟩
    rw [hf.denote_nanWord, Datum.place, Datum.quantity, Quantity.place, Datum.hiddenSign]

/-- The total order of a format goes up along the exact order. -/
theorem place_lt (h : f.Proper word) (h' : f.Proper word')
    (hlt : f.orderKey word < f.orderKey word') :
    (f.denote word).place < (f.denote word').place := by
  have hinfinity := f.infinityWord_lt
  have hnan := f.infinityWord_lt_nanWord
  have hnan' := hf.nanWord_lt
  obtain ⟨negative, w, hw, rfl⟩ | ⟨negative, w, rank, hrank, rfl, hplace⟩ :=
      h.finite_or_outer hf <;>
    obtain ⟨negative', w', hw', rfl⟩ | ⟨negative', w', rank', hrank', rfl, hplace'⟩ :=
      h'.finite_or_outer hf
  · exact hf.place_lt_of_finite hw hw' hlt
  · rw [hf.place_finite hw, hplace']
    rw [orderKey_signWord_add (by omega), orderKey_signWord_add (by omega)] at hlt
    cases negative' with
    | false => exact finitePlace_lt_outerPlace (by omega)
    | true =>
      rw [if_pos rfl] at hlt
      split at hlt <;> omega
  · rw [hf.place_finite hw', hplace]
    rw [orderKey_signWord_add (by omega), orderKey_signWord_add (by omega)] at hlt
    cases negative with
    | false =>
      rw [if_neg Bool.false_ne_true] at hlt
      split at hlt <;> omega
    | true => exact outerPlace_lt_finitePlace (by omega)
  · rw [hplace, hplace', outerPlace_lt_iff]
    rw [orderKey_signWord_add (by omega), orderKey_signWord_add (by omega)] at hlt
    split <;> split <;> simp_all <;> omega

theorem compare_orderKey (h : f.Proper word) (h' : f.Proper word') :
    Ord.compare (f.orderKey word) (f.orderKey word')
      = Ord.compare (f.denote word).place (f.denote word').place :=
  compare_eq_compare (h.place_lt hf h') (fun heq => by rw [f.orderKey_injective heq])
    (h'.place_lt hf h)

end Proper

/-! ## Rounded integers -/

theorem orderKey_encodeInt (n : Int) : f.orderKey (f.encodeInt n)
    = if n < 0 then -1 - (f.nearestMagnitude n.natAbs 1 : Int)
      else f.nearestMagnitude n.natAbs 1 := by
  rw [encodeInt, nearest, orderKey_signWord_add
    ((f.nearestMagnitude_le _ _).trans_lt f.infinityWord_lt)]
  simp only [decide_eq_true_eq]

theorem natAbs_div_one (n : Int) : ((n.natAbs : Nat) : ℚ) / (1 : Nat) = |(n : ℚ)| := by
  rw [Nat.cast_one, div_one, Nat.cast_natAbs, Int.cast_abs]

namespace Proper

variable (hf : f.Roomy)
include hf

/-- An integer is not rounded below what is not above it. -/
theorem orderKey_le_encodeInt (h : f.Proper word)
    (hle : (f.denote word).place ≤ finitePlace n false) :
    f.orderKey word ≤ f.orderKey (f.encodeInt n) := by
  have hrange := f.nearestMagnitude_le n.natAbs 1
  rw [orderKey_encodeInt]
  obtain ⟨negative, w, hw, rfl⟩ | ⟨negative, w, rank, hrank, rfl, hplace⟩ := h.finite_or_outer hf
  · rw [hf.place_finite hw, finitePlace_le_iff] at hle
    rw [orderKey_signWord_add (hw.trans f.infinityWord_lt)]
    have hvalue : signed negative (f.valueAt w) ≤ n := hle.elim le_of_lt fun h => h.1.le
    cases negative with
    | false =>
      simp only [signed, Bool.false_eq_true, if_false] at hvalue ⊢
      have hnonneg : (0 : ℚ) ≤ n := (valueAt_nonneg w).trans hvalue
      have hrounded : w ≤ f.nearestMagnitude n.natAbs 1 := by
        apply le_nearestMagnitude Nat.one_pos hw.le
        rwa [natAbs_div_one, abs_of_nonneg hnonneg]
      rw [if_neg (not_lt.2 (Int.cast_nonneg_iff.1 hnonneg))]
      exact_mod_cast hrounded
    | true =>
      simp only [signed, if_true] at hvalue ⊢
      split
      · rename_i hneg
        have hrounded : f.nearestMagnitude n.natAbs 1 ≤ w := by
          apply nearestMagnitude_le_of_le Nat.one_pos
          rw [natAbs_div_one, abs_of_neg (Int.cast_lt_zero.2 hneg)]
          linarith
        omega
      · omega
  · rw [hplace] at hle
    cases negative with
    | false => exact absurd hle (not_le.2 (finitePlace_lt_outerPlace (by omega)))
    | true =>
      have hinfinity := f.infinityWord_lt
      have hnan := f.infinityWord_lt_nanWord
      have hnan' := hf.nanWord_lt
      rw [orderKey_signWord_add (by omega), if_pos rfl]
      split <;> omega

/-- An integer is not rounded above what is not below it. -/
theorem encodeInt_le_orderKey (h : f.Proper word)
    (hle : finitePlace n false ≤ (f.denote word).place) :
    f.orderKey (f.encodeInt n) ≤ f.orderKey word := by
  have hrange := f.nearestMagnitude_le n.natAbs 1
  rw [orderKey_encodeInt]
  obtain ⟨negative, w, hw, rfl⟩ | ⟨negative, w, rank, hrank, rfl, hplace⟩ := h.finite_or_outer hf
  · rw [hf.place_finite hw, finitePlace_le_iff] at hle
    rw [orderKey_signWord_add (hw.trans f.infinityWord_lt)]
    have hvalue : (n : ℚ) ≤ signed negative (f.valueAt w) := hle.elim le_of_lt fun h => h.1.le
    cases negative with
    | false =>
      simp only [signed, Bool.false_eq_true, if_false] at hvalue ⊢
      split
      · omega
      · rename_i hnonneg
        have hrounded : f.nearestMagnitude n.natAbs 1 ≤ w := by
          apply nearestMagnitude_le_of_le Nat.one_pos
          rwa [natAbs_div_one, abs_of_nonneg (Int.cast_nonneg_iff.2 (not_lt.1 hnonneg))]
        exact_mod_cast hrounded
    | true =>
      simp only [signed, if_true] at hvalue ⊢
      split
      · rename_i hneg
        have hrounded : w ≤ f.nearestMagnitude n.natAbs 1 := by
          apply le_nearestMagnitude Nat.one_pos hw.le
          rw [natAbs_div_one, abs_of_neg (Int.cast_lt_zero.2 hneg)]
          linarith
        omega
      · -- only zero with the negative sign would be left, and it is below the integer
        rename_i hnonneg
        have hcast : (0 : ℚ) ≤ n := Int.cast_nonneg_iff.2 (not_lt.1 hnonneg)
        have hpos : 0 ≤ f.valueAt w := valueAt_nonneg w
        exfalso
        rcases hle with hlt | ⟨heq, hsign⟩
        · simp only [signed, if_true] at hlt
          linarith
        · simp only [signed, if_true] at heq
          have hzero : f.valueAt w = f.valueAt 0 := by
            rw [valueAt_zero]
            linarith
          simp [f.valueAt_strictMono.injective hzero] at hsign
  · rw [hplace] at hle
    cases negative with
    | false =>
      have hinfinity := f.infinityWord_lt
      have hnan := f.infinityWord_lt_nanWord
      have hnan' := hf.nanWord_lt
      rw [orderKey_signWord_add (by omega), if_neg Bool.false_ne_true]
      split <;> omega
    | true => exact absurd hle (not_le.2 (outerPlace_lt_finitePlace (by omega)))

/-- An integer that is rounded to the format compares to what a word denotes as it does exactly,
unless it is rounded to that word without being it. -/
theorem compare_encodeInt (h : f.Proper word)
    (hexact : f.encodeInt n = word → (f.denote word).place = finitePlace n false) :
    Ord.compare (f.orderKey (f.encodeInt n)) (f.orderKey word)
      = Ord.compare (finitePlace n false) (f.denote word).place :=
  compare_eq_compare
    (fun hlt => lt_of_not_ge fun hge => (h.orderKey_le_encodeInt hf hge).not_gt hlt)
    (fun heq => (hexact (f.orderKey_injective heq)).symm)
    (fun hgt => lt_of_not_ge fun hge => (h.encodeInt_le_orderKey hf hge).not_gt hgt)

end Proper

theorem encodeInt_lt (f : BinaryFormat) (n : Int) : f.encodeInt n < 2 * f.signWeight :=
  f.signWord_add_lt _ ((f.nearestMagnitude_le _ _).trans_lt f.infinityWord_lt)

theorem isNaN_denote_encodeInt (f : BinaryFormat) (n : Int) :
    (f.denote (f.encodeInt n)).isNaN = false :=
  isNaN_denote_of_le (f.nearestMagnitude_le n.natAbs 1)

namespace Number

variable {x y : f.Number} (hf : f.Roomy)
include hf

/-- Negation mirrors the total order, in which zero with the negative sign is the neighbour of
zero. -/
theorem key_neg (x : f.Number) : (-x).key = -1 - x.key := by
  obtain ⟨negative, w, hw, hword, hneg⟩ := exists_word_neg hf x
  rw [key, key, hword, hneg, orderKey_signWord_add hw, orderKey_signWord_add hw]
  cases negative
  · rfl
  · simp only [Bool.not_true, Bool.false_eq_true, if_false, if_true]
    omega

protected theorem neg_neg (x : f.Number) : -(-x) = x := by
  rw [← key_inj, key_neg hf, key_neg hf]
  omega

/-- What is no number and has the negative sign comes before all else. -/
theorem key_nan_le (x : f.Number) : (nan f true).key ≤ x.key := by
  have hlt := hf.nanWord_lt
  obtain ⟨negative, w, hw, hword⟩ := x.proper.exists_magnitude
  rw [key, key, nan, hword, orderKey_signWord_add hlt, orderKey_signWord_add (by omega), if_pos rfl]
  split <;> omega

theorem word_ofInt (n : Int) : (ofInt n : f.Number).word = f.encodeInt n :=
  word_ofWord hf (f.encodeInt_lt n) (f.isNaN_denote_encodeInt n)

/-- The total order of a format is the exact order. -/
theorem compare_key (x y : f.Number) :
    Ord.compare x.key y.key = Ord.compare x.datum.place y.datum.place :=
  x.proper.compare_orderKey hf y.proper

/-- An integer compares in a format as it does exactly, unless it is rounded to the other number. -/
theorem compare_key_ofInt (hexact : ofInt n = x → x.datum.place = finitePlace n false) :
    Ord.compare (ofInt n : f.Number).key x.key
      = Ord.compare (finitePlace n false) x.datum.place := by
  rw [key, key, word_ofInt hf]
  refine x.proper.compare_encodeInt hf fun hword => hexact ?_
  rw [← word_inj, word_ofInt hf, hword]

end Number

end BinaryFormat

/-- Widening keeps the place. -/
theorem place_widen (u : Single) : (widen u).datum.place = u.datum.place := by
  rw [Datum.place, Datum.place, (denote_widen u).1, (denote_widen u).2]

end StreamQuery.Numeric
