import Mathlib
import StreamQuery.Proofs.Numeric.Places
import StreamQuery.Proofs.Value.Equality
import StreamQuery.Value.Literal
set_option autoImplicit false

/-!
# The order of numbers

Two numbers compare by their places in the exact order, unless one of them is an integer that is
rounded to the other (`compare_of_place`); those compare equal.  So three numbers of which a third
one tells two such numbers apart do not compare transitively, and all others do
(`compare_trans_iff`).
-/

namespace StreamQuery.Value

open Numeric

/-! ## Comparing numbers -/

/-- The place of a number in the exact order. -/
def place? (v : Value) : Option Place := v.quantity?.map (Quantity.place v.hiddenSign)

variable {a b c l r : Value} {o o' : Ordering} {p q : Place} {n : Int}

theorem exists_place (h : l.isNumeric = true) : ∃ p, l.place? = some p := by
  obtain ⟨quantity, hquantity⟩ := Option.isSome_iff_exists.1 (isSome_quantity?_iff.2 h)
  exact ⟨quantity.place l.hiddenSign, by rw [place?, hquantity, Option.map_some]⟩

/-- Numbers compare as the pair of them does. -/
theorem compare_of_pair {pair : NumberPair} (h : NumberPair.of? l r = some pair) :
    l.compare r = .ok pair.compare := by
  cases l <;> cases r <;> cases h <;> rfl

/-- Numbers always compare. -/
theorem exists_compare (hl : l.isNumeric = true) (hr : r.isNumeric = true) :
    ∃ o, l.compare r = .ok o := by
  obtain ⟨pair, hpair⟩ := Option.isSome_iff_exists.1 ((NumberPair.isSome_of?_iff l r).2 ⟨hl, hr⟩)
  exact ⟨pair.compare, compare_of_pair hpair⟩

/-- The other way round numbers compare the other way. -/
theorem compare_swap (hl : l.isNumeric = true) (hr : r.isNumeric = true)
    (h : l.compare r = .ok o) : r.compare l = .ok o.swap := by
  cases l <;> cases hl <;> cases r <;> cases hr <;> cases h <;>
    exact congrArg Except.ok Std.OrientedOrd.eq_swap

/-- Any two values compare the other way when they are swapped, or cannot be compared either way. -/
theorem compare_swap_or_error (l r : Value) :
    (∃ o, l.compare r = .ok o ∧ r.compare l = .ok o.swap) ∨
      ∃ e e', l.compare r = .error e ∧ r.compare l = .error e' := by
  by_cases hnumeric : l.isNumeric = true ∧ r.isNumeric = true
  · obtain ⟨hl, hr⟩ := hnumeric
    obtain ⟨o, ho⟩ := exists_compare hl hr
    exact .inl ⟨o, ho, compare_swap hl hr ho⟩
  · cases l with
    | string a =>
      cases r with
      | string b => exact .inl ⟨_, rfl, congrArg Except.ok Std.OrientedOrd.eq_swap⟩
      | _ => exact .inr ⟨_, _, rfl, rfl⟩
    | boolean a =>
      cases r with
      | boolean b => exact .inl ⟨_, rfl, congrArg Except.ok Std.OrientedOrd.eq_swap⟩
      | _ => exact .inr ⟨_, _, rfl, rfl⟩
    | _ => cases r <;> first | exact .inr ⟨_, _, rfl, rfl⟩ | exact absurd ⟨rfl, rfl⟩ hnumeric

theorem compare_eq_ok_eq_iff (hl : l.isNumeric = true) (hr : r.isNumeric = true) :
    l.compare r = .ok .eq ↔ ComparesEqual l r := by
  obtain ⟨pair, hpair⟩ := Option.isSome_iff_exists.1 ((NumberPair.isSome_of?_iff l r).2 ⟨hl, hr⟩)
  rw [compare_of_pair hpair, Except.ok.injEq, pair_compare_iff hpair]

/-- Merged numbers compare equal. -/
theorem Merged.compare (h : Merged l r) : l.compare r = .ok .eq :=
  (compare_eq_ok_eq_iff h.isNumeric.1 h.isNumeric.2).2 (.inr h)

theorem Merged.symm (h : Merged l r) : Merged r l := Or.symm h

theorem equals_iff_compare_eq (hl : l.isNumeric = true) :
    l.equals r = true ↔ l.compare r = .ok .eq := by
  apply equals_iff_compare
  · rintro xs rfl
    cases hl
  · rintro xs rfl
    cases hl
  · rintro rfl
    cases hl

/-! ## Places -/

/-- An integer that is rounded to another number stands in its place unless it is merged with it. -/
theorem place?_of_nearest (hn : l.integral? = some n) (hnearest : nearestLike? n r = some r)
    (hmerged : ¬ RoundsTo l r) : r.place? = some (finitePlace n false) := by
  have hquantity : r.quantity? = some (.finite n) := by
    by_contra hne
    exact hmerged ⟨n, hn, hnearest, hne⟩
  rw [place?, hquantity, hiddenSign_of_nearestLike hnearest hquantity]
  rfl

/-- An integer and a number that are not merged compare by their places. -/
theorem compare_of_place_integral (hn : l.integral? = some n) (hr : r.place? = some q)
    (hmerged : ¬ Merged l r) : l.compare r = .ok (Ord.compare (finitePlace n false) q) := by
  have hrounds : ¬ RoundsTo l r := fun h => hmerged (.inl h)
  have hwhole (k k' : Int) : Ord.compare k k'
      = Ord.compare (finitePlace k false) (finitePlace k' false) := by
    refine compare_eq_compare (fun h => ?_) (fun h => by rw [h]) (fun h => ?_)
    · exact finitePlace_lt_iff.2 (.inl (Int.cast_lt.2 h))
    · exact finitePlace_lt_iff.2 (.inl (Int.cast_lt.2 h))
  cases r with
  | integer m =>
    cases hr
    cases l <;> cases hn
    · exact congrArg Except.ok (hwhole _ _)
    · refine congrArg Except.ok ((hwhole _ _).trans ?_)
      rw [Int32.toInt_toInt64]
      rfl
  | long m =>
    cases hr
    cases l <;> cases hn
    · refine congrArg Except.ok ((hwhole _ _).trans ?_)
      rw [Int32.toInt_toInt64]
      rfl
    · exact congrArg Except.ok (hwhole _ _)
  | float u =>
    have hexact : singleOfInt n = u → u.datum.place = finitePlace n false := by
      rintro rfl
      exact Option.some.inj (place?_of_nearest hn rfl hrounds)
    cases hr
    cases l <;> cases hn <;>
      exact congrArg Except.ok
        (BinaryFormat.Number.compare_key_ofInt BinaryFormat.roomy_single hexact)
  | double x =>
    have hexact : doubleOfInt n = x → x.datum.place = finitePlace n false := by
      rintro rfl
      exact Option.some.inj (place?_of_nearest hn rfl hrounds)
    cases hr
    cases l <;> cases hn <;>
      exact congrArg Except.ok
        (BinaryFormat.Number.compare_key_ofInt BinaryFormat.roomy_double hexact)
  | _ => cases hr

/-- Floating-point numbers compare by their places. -/
theorem compare_of_place_floating (hnl : l.integral? = none) (hnr : r.integral? = none)
    (hl : l.place? = some p) (hr : r.place? = some q) : l.compare r = .ok (Ord.compare p q) := by
  have hsingle := BinaryFormat.Number.compare_key BinaryFormat.roomy_single
  have hdouble := BinaryFormat.Number.compare_key BinaryFormat.roomy_double
  cases l <;> cases hnl <;> cases hl <;> cases r <;> cases hnr <;> cases hr <;>
    refine congrArg Except.ok ?_
  · exact hsingle _ _
  · exact (hdouble _ _).trans (congrArg (Ord.compare · _) (place_widen _))
  · exact (hdouble _ _).trans (congrArg (Ord.compare _) (place_widen _))
  · exact hdouble _ _

/-- Numbers that are not merged compare by their places in the exact order. -/
theorem compare_of_place (hl : l.place? = some p) (hr : r.place? = some q)
    (hmerged : ¬ Merged l r) : l.compare r = .ok (Ord.compare p q) := by
  have hplace {v : Value} {n : Int} (hn : v.integral? = some n) :
      v.place? = some (finitePlace n false) := by
    rw [place?, (quantity?_of_integral? hn).1, (quantity?_of_integral? hn).2]
    rfl
  cases hnl : l.integral? with
  | some n =>
    obtain rfl := Option.some.inj ((hplace hnl).symm.trans hl)
    exact compare_of_place_integral hnl hr hmerged
  | none =>
    cases hnr : r.integral? with
    | some n =>
      obtain rfl := Option.some.inj ((hplace hnr).symm.trans hr)
      have hcompare := compare_of_place_integral hnr hl fun h => hmerged h.symm
      have hnumeric {v : Value} {p : Place} (h : v.place? = some p) : v.isNumeric = true := by
        obtain ⟨quantity, hquantity, -⟩ := Option.map_eq_some_iff.1 h
        exact isNumeric_of_quantity? hquantity
      rw [compare_swap (hnumeric hr) (hnumeric hl) hcompare, ← Std.OrientedOrd.eq_swap]
    | none => exact compare_of_place_floating hnl hnr hl hr

/-! ## The ends of the order -/

/-- Negation turns the order of DOUBLEs around, also of those that are no numbers. -/
theorem compare_neg (x y : Double) :
    (double (-x)).compare (double (-y)) = (double y).compare (double x) := by
  have hkeys : Ord.compare (-x).key (-y).key = Ord.compare y.key x.key := by
    rw [BinaryFormat.Number.key_neg BinaryFormat.roomy_double,
      BinaryFormat.Number.key_neg BinaryFormat.roomy_double]
    exact compare_eq_compare (by omega) (by omega) (by omega)
  exact congrArg Except.ok hkeys

/-- What is no number comes before all DOUBLEs with the negative sign, and after them with the
positive one. -/
theorem compare_nan (x : Double) :
    (double (.nan .double true)).compare (double x) ≠ .ok .gt ∧
      (double x).compare (double (-.nan .double true)) ≠ .ok .gt := by
  have hfirst (y : Double) : (double (.nan .double true)).compare (double y) ≠ .ok .gt := by
    intro h
    have hgt := compare_gt_iff_gt.1 (Except.ok.inj h)
    exact absurd (BinaryFormat.Number.key_nan_le BinaryFormat.roomy_double y) (not_le.2 hgt)
  refine ⟨hfirst x, ?_⟩
  rw [← BinaryFormat.Number.neg_neg BinaryFormat.roomy_double x, compare_neg]
  exact hfirst (-x)

/-- The text of what is no number keeps its sign. -/
example : (readDouble? "-nan").map (fun x => (double x).compare (double (doubleOfInt 1)))
    = some (.ok .lt) := by decide +kernel

/-! ## Transitivity -/

/-- A number tells two numbers apart that are merged. -/
def TellsApart (v l r : Value) : Prop := Merged l r ∧ l.compare v ≠ r.compare v

/-- One of three numbers tells the two others apart, which are merged. -/
def Parted (a b c : Value) : Prop := TellsApart c a b ∨ TellsApart a b c ∨ TellsApart b a c

/-- In a linear order the comparison of the ends is that of the first step that is strict. -/
theorem compare_then_compare {α : Type*} [LinearOrder α] {x y z : α}
    (hxy : Ord.compare x y ≠ .gt) (hyz : Ord.compare y z ≠ .gt) :
    Ord.compare x z = (Ord.compare x y).then (Ord.compare y z) := by
  rw [compare_le_iff_le] at hxy hyz
  rcases hxy.lt_or_eq with hlt | rfl
  · rw [compare_lt_iff_lt.2 hlt, compare_lt_iff_lt.2 (hlt.trans_le hyz)]
    rfl
  · rw [compare_eq_iff_eq.2 rfl]
    rfl

theorem eq_of_swap (ho : o ≠ .gt) (ho' : o' ≠ .gt) (h : o = o'.swap) : o = .eq ∧ o' = .eq := by
  revert ho ho' h
  cases o <;> cases o' <;> decide

theorem swap_ne_gt (h : o ≠ .lt) : o.swap ≠ .gt := by
  revert h
  cases o <;> decide

theorem swap_ne_lt (h : o ≠ .gt) : o.swap ≠ .lt := by
  revert h
  cases o <;> decide

theorem then_ne_gt_iff : o.then o' ≠ .gt ↔ o = .lt ∨ o = .eq ∧ o' ≠ .gt := by
  cases o <;> simp

theorem then_ne_gt (h : o ≠ .gt) (h' : o' ≠ .gt) : o.then o' ≠ .gt := by
  revert h h'
  cases o <;> cases o' <;> decide

/-- Where the two steps and the comparison of the ends fit, nothing is told apart. -/
theorem not_parted_of_compare (ha : a.isNumeric = true) (hb : b.isNumeric = true)
    (hc : c.isNumeric = true) (hab : a.compare b = .ok o) (hbc : b.compare c = .ok o')
    (hac : a.compare c = .ok (o.then o')) (ho : o ≠ .gt) (ho' : o' ≠ .gt) : ¬ Parted a b c := by
  rintro (⟨hmerged, hne⟩ | ⟨hmerged, hne⟩ | ⟨hmerged, hne⟩)
  · obtain rfl := Except.ok.inj (hab.symm.trans hmerged.compare)
    exact hne (hac.trans hbc.symm)
  · obtain rfl := Except.ok.inj (hbc.symm.trans hmerged.compare)
    refine hne ((compare_swap ha hb hab).trans ((compare_swap ha hc hac).trans ?_).symm)
    cases o <;> rfl
  · have hequal := Except.ok.inj (hac.symm.trans hmerged.compare)
    obtain ⟨rfl, rfl⟩ := Ordering.then_eq_eq.1 hequal
    exact hne (hab.trans (compare_swap hb hc hbc).symm)

/-- Where nothing is told apart, the two steps and the comparison of the ends fit. -/
theorem compare_of_not_parted (ha : a.isNumeric = true) (hb : b.isNumeric = true)
    (hc : c.isNumeric = true) (hab : a.compare b = .ok o) (hbc : b.compare c = .ok o')
    (ho : o ≠ .gt) (ho' : o' ≠ .gt) (h : ¬ Parted a b c) : a.compare c = .ok (o.then o') := by
  simp only [Parted, TellsApart, not_or, not_and, not_not] at h
  obtain ⟨hca, hab', hac⟩ := h
  by_cases hmerged : Merged a b
  · obtain rfl := Except.ok.inj (hab.symm.trans hmerged.compare)
    exact (hca hmerged).trans hbc
  by_cases hmerged' : Merged b c
  · obtain rfl := Except.ok.inj (hbc.symm.trans hmerged'.compare)
    have hsame := (hab' hmerged').symm.trans (compare_swap ha hb hab)
    rw [compare_swap hc ha hsame]
    cases o <;> rfl
  by_cases hmerged'' : Merged a c
  · have hswap := compare_swap hb hc hbc
    have hopposite := Except.ok.inj (hab.symm.trans ((hac hmerged'').trans hswap))
    obtain ⟨rfl, rfl⟩ := eq_of_swap ho ho' hopposite
    exact hmerged''.compare
  · -- none are merged, so all three compare by their places
    obtain ⟨p, hp⟩ := exists_place ha
    obtain ⟨q, hq⟩ := exists_place hb
    obtain ⟨s, hs⟩ := exists_place hc
    obtain rfl := Except.ok.inj (hab.symm.trans (compare_of_place hp hq hmerged))
    obtain rfl := Except.ok.inj (hbc.symm.trans (compare_of_place hq hs hmerged'))
    rw [compare_of_place hp hs hmerged'', compare_then_compare ho ho']

/-- Numbers of any kinds always compare.  If the first one is not greater than the second one, nor
the second one than the third one, then the first one is not greater than the third one, and less if
one of the two is less than its successor, exactly if none of the three tells the two others apart
when these are an integer and the floating-point number that it is rounded to.  In the same way
equality of numbers carries over. -/
theorem compare_trans_iff (a b c : Value) (ha : a.isNumeric = true) (hb : b.isNumeric = true)
    (hc : c.isNumeric = true) :
    ∃ o o' o'', a.compare b = .ok o ∧ b.compare c = .ok o' ∧ a.compare c = .ok o'' ∧
      (o ≠ .gt → o' ≠ .gt → (o'' = o.then o' ↔ ¬ Parted a b c)) ∧
      (a.equals b = true → b.equals c = true → (a.equals c = true ↔ ¬ Parted a b c)) := by
  obtain ⟨o, hab⟩ := exists_compare ha hb
  obtain ⟨o', hbc⟩ := exists_compare hb hc
  obtain ⟨o'', hac⟩ := exists_compare ha hc
  have hiff (ho : o ≠ .gt) (ho' : o' ≠ .gt) : o'' = o.then o' ↔ ¬ Parted a b c := by
    constructor
    · rintro rfl
      exact not_parted_of_compare ha hb hc hab hbc hac ho ho'
    · intro h
      exact Except.ok.inj (hac.symm.trans (compare_of_not_parted ha hb hc hab hbc ho ho' h))
  refine ⟨o, o', o'', hab, hbc, hac, hiff, ?_⟩
  rw [equals_iff_compare_eq ha, equals_iff_compare_eq hb, equals_iff_compare_eq ha, hab, hbc, hac,
    Except.ok.injEq, Except.ok.injEq, Except.ok.injEq]
  rintro rfl rfl
  exact hiff (by decide) (by decide)

/-- The single precision number `2 ^ 24`, to which its successor is rounded. -/
def floatLimit : Value := float (singleOfWord 0x4B800000)

/-- Two different LONGs that one FLOAT compares equal to. -/
theorem compare_not_transitive :
    ((long 16777217).compare floatLimit = .ok .eq ∧
        floatLimit.compare (long 16777216) = .ok .eq ∧
        (long 16777217).compare (long 16777216) = .ok .gt) ∧
      (long 16777217).equals floatLimit = true ∧ floatLimit.equals (long 16777216) = true ∧
        (long 16777217).equals (long 16777216) = false := by
  decide +kernel

/-- The FLOAT is what the one LONG is and what the other one is rounded to; smaller numbers are not
rounded. -/
theorem compare_trans_iff_limits :
    Parted (long 16777216) floatLimit (long 16777217) ∧
      ¬ Parted (integer 1) (double (doubleOfWord 0x3FF8000000000000)) (long 2) := by
  constructor
  · obtain ⟨o, o', o'', hab, hbc, hac, hiff, -⟩ :=
      compare_trans_iff (long 16777216) floatLimit (long 16777217) rfl rfl rfl
    obtain rfl : o = .eq := Except.ok.inj (hab.symm.trans (by decide +kernel))
    obtain rfl : o' = .eq := Except.ok.inj (hbc.symm.trans (by decide +kernel))
    obtain rfl : o'' = .lt := Except.ok.inj (hac.symm.trans (by decide +kernel))
    exact not_not.1 (mt (hiff nofun nofun).2 nofun)
  · obtain ⟨o, o', o'', hab, hbc, hac, hiff, -⟩ :=
      compare_trans_iff (integer 1) (double (doubleOfWord 0x3FF8000000000000)) (long 2) rfl rfl rfl
    obtain rfl : o = .lt := Except.ok.inj (hab.symm.trans (by decide +kernel))
    obtain rfl : o' = .lt := Except.ok.inj (hbc.symm.trans (by decide +kernel))
    obtain rfl : o'' = .lt := Except.ok.inj (hac.symm.trans (by decide +kernel))
    exact (hiff nofun nofun).1 rfl

end StreamQuery.Value
