import Mathlib
import StreamQuery.Proofs.Value.Encoding
import StreamQuery.Value.Order
set_option autoImplicit false

/-!
# Equality and canonical bytes

Numbers compare after widening, and are hashed by what they denote.  The two differ in two ways.
The total order tells signs apart that the bytes do not have, of zeros and of what is no number; an
integer that is rounded to a floating-point number compares equal to it, and has bytes of its own.
There is no other difference, however deep the numbers stand inside lists and maps
(`equals_and_encode`).
-/

namespace StreamQuery.Value

open Numeric

/-! ## Comparing numbers -/

/-- The integer of an INTEGER or a LONG. -/
def integral? : Value → Option Int
  | integer n => some n.toInt
  | long n => some n.toInt
  | _ => none

/-- The sign of a value that its quantity does not tell. -/
def hiddenSign : Value → Bool
  | float x => x.datum.hiddenSign
  | double x => x.datum.hiddenSign
  | _ => false

/-- The number nearest to an integer, of the kind of a floating-point number. -/
def nearestLike? (n : Int) : Value → Option Value
  | float _ => some (float (singleOfInt n))
  | double _ => some (double (doubleOfInt n))
  | _ => none

/-- The right number is the floating-point number nearest to the left one, an integer, and is
another number. -/
def RoundsTo (l r : Value) : Prop :=
  ∃ n : Int, l.integral? = some n ∧ nearestLike? n r = some r ∧ r.quantity? ≠ some (.finite n)

/-- One of two numbers is rounded to the other, which is another number. -/
def Merged (l r : Value) : Prop := RoundsTo l r ∨ RoundsTo r l

/-- Two zeros, one of which has the negative sign. -/
def OppositeZeros (l r : Value) : Prop :=
  l.quantity? = some (.finite 0) ∧ r.quantity? = some (.finite 0) ∧
    l.hiddenSign ≠ r.hiddenSign

/-- Two that are no numbers, one of which has the negative sign. -/
def OppositeNaNs (l r : Value) : Prop :=
  l.quantity? = some .nan ∧ r.quantity? = some .nan ∧ l.hiddenSign ≠ r.hiddenSign

/-- Numbers that compare equal: the same quantity with the same sign hidden in it, or numbers that
are merged by rounding. -/
def ComparesEqual (l r : Value) : Prop :=
  SameQuantity l r ∧ l.hiddenSign = r.hiddenSign ∨ Merged l r

theorem quantity?_of_integral? {v : Value} {n : Int} (h : v.integral? = some n) :
    v.quantity? = some (.finite n) ∧ v.hiddenSign = false := by
  cases v <;> cases h <;> exact ⟨rfl, rfl⟩

theorem quantity?_of_hiddenSign {v : Value} (h : v.hiddenSign = true) :
    v.quantity? = some (.finite 0) ∨ v.quantity? = some .nan := by
  cases v with
  | float x => exact (Datum.quantity_of_hiddenSign h).imp (congrArg some) (congrArg some)
  | double x => exact (Datum.quantity_of_hiddenSign h).imp (congrArg some) (congrArg some)
  | _ => cases h

/-- No integer is rounded to zero with the negative sign. -/
theorem hiddenSign_of_nearestLike {v : Value} {n : Int} (h : nearestLike? n v = some v)
    (hquantity : v.quantity? = some (.finite n)) : v.hiddenSign = false := by
  by_contra hnegative
  rw [Bool.not_eq_false] at hnegative
  obtain rfl : n = 0 := by
    rcases quantity?_of_hiddenSign hnegative with hzero | hnan
    · exact_mod_cast Quantity.finite.inj (Option.some.inj (hquantity.symm.trans hzero))
    · exact nomatch Option.some.inj (hquantity.symm.trans hnan)
  cases v with
  | float x =>
    cases h
    exact absurd hnegative (by decide)
  | double x =>
    cases h
    exact absurd hnegative (by decide)
  | _ => cases h

/-- A floating-point number that is an integer is the number nearest to it, unless it is zero with
the negative sign. -/
theorem nearestLike?_of_quantity {v : Value} {n : Int} (hv : v.integral? = none)
    (h : v.quantity? = some (.finite n)) (hsign : v.hiddenSign = false) :
    nearestLike? n v = some v := by
  cases v with
  | float x =>
    exact congrArg (some ∘ float)
      (BinaryFormat.Number.ofInt_eq BinaryFormat.roomy_single (Option.some.inj h) hsign)
  | double x =>
    exact congrArg (some ∘ double)
      (BinaryFormat.Number.ofInt_eq BinaryFormat.roomy_double (Option.some.inj h) hsign)
  | integer n => cases hv
  | long n => cases hv
  | _ => cases h

theorem RoundsTo.quantity_ne {l r : Value} (h : RoundsTo l r) : ¬ SameQuantity l r := by
  obtain ⟨n, hn, -, hne⟩ := h
  exact fun hsame => hne (hsame.symm.trans (quantity?_of_integral? hn).1)

theorem RoundsTo.integral?_right {l r : Value} (h : RoundsTo l r) : r.integral? = none := by
  obtain ⟨n, -, hnearest, -⟩ := h
  cases r <;> first | rfl | cases hnearest

theorem Merged.quantity_ne {l r : Value} (h : Merged l r) : ¬ SameQuantity l r := by
  rcases h with h | h
  · exact h.quantity_ne
  · exact fun hsame => h.quantity_ne hsame.symm

theorem comparesEqual_comm {l r : Value} : ComparesEqual l r ↔ ComparesEqual r l := by
  rw [ComparesEqual, ComparesEqual, SameQuantity, SameQuantity, Merged, Merged,
    eq_comm (a := l.quantity?), eq_comm (a := l.hiddenSign), or_comm (a := RoundsTo l r)]

section Kinds

variable {l r : Value} {n m : Int}

/-- Integers compare equal if they are the same. -/
theorem comparesEqual_integral (hl : l.integral? = some n) (hr : r.integral? = some m) :
    ComparesEqual l r ↔ n = m := by
  obtain ⟨hquantity, hsign⟩ := quantity?_of_integral? hl
  obtain ⟨hquantity', hsign'⟩ := quantity?_of_integral? hr
  have hmerged : ¬ Merged l r := by
    rintro (hrounds | hrounds)
    · exact nomatch hr.symm.trans hrounds.integral?_right
    · exact nomatch hl.symm.trans hrounds.integral?_right
  rw [ComparesEqual, or_iff_left hmerged, SameQuantity, hquantity, hquantity', hsign, hsign']
  simp

/-- Floating-point numbers compare equal if they denote the same with the same sign hidden in it. -/
theorem comparesEqual_floating (hl : l.integral? = none) (hr : r.integral? = none) :
    ComparesEqual l r ↔ SameQuantity l r ∧ l.hiddenSign = r.hiddenSign := by
  refine or_iff_left ?_
  rintro (⟨n, hn, -⟩ | ⟨n, hn, -⟩)
  · exact nomatch hl.symm.trans hn
  · exact nomatch hr.symm.trans hn

/-- An integer compares equal to the floating-point number nearest to it, and to no other. -/
theorem comparesEqual_nearest (hn : l.integral? = some n) (hr : r.integral? = none) :
    ComparesEqual l r ↔ nearestLike? n r = some r := by
  obtain ⟨hquantity, hsign⟩ := quantity?_of_integral? hn
  constructor
  · rintro (⟨hsame, hzero⟩ | ⟨m, hm, hnearest, -⟩ | hrounds)
    · exact nearestLike?_of_quantity hr (hsame.symm.trans hquantity) (hzero.symm.trans hsign)
    · rwa [Option.some.inj (hn.symm.trans hm)]
    · rw [hrounds.integral?_right] at hn
      cases hn
  · intro hnearest
    by_cases hexact : r.quantity? = some (.finite n)
    · have hzero := hiddenSign_of_nearestLike hnearest hexact
      exact .inl ⟨hquantity.trans hexact.symm, hsign.trans hzero.symm⟩
    · exact .inr (.inl ⟨n, hn, hnearest, hexact⟩)

end Kinds

/-! ## Pairs of one kind -/

section Pairs

variable {x y : Double} {u v : Single}

/-- The total order tells double precision numbers apart. -/
theorem compare_doubles_iff : (NumberPair.doubles x y).compare = .eq ↔ x = y := by
  rw [NumberPair.compare, Std.compare_eq_iff_eq, BinaryFormat.Number.key_inj]

/-- The total order tells single precision numbers apart. -/
theorem compare_floats_iff : (NumberPair.floats u v).compare = .eq ↔ u = v := by
  rw [NumberPair.compare, Std.compare_eq_iff_eq, BinaryFormat.Number.key_inj]

end Pairs

/-- Two numbers are equal if they compare equal. -/
theorem pair_compare_iff {l r : Value} {pair : NumberPair} (h : NumberPair.of? l r = some pair) :
    pair.compare = .eq ↔ ComparesEqual l r := by
  cases l <;> cases r <;> cases h
  case integer.integer.refl | long.long.refl =>
    rw [comparesEqual_integral rfl rfl, NumberPair.compare, Std.compare_eq_iff_eq]
  case integer.long.refl | long.integer.refl =>
    rw [comparesEqual_integral rfl rfl, NumberPair.compare, Std.compare_eq_iff_eq,
      Int32.toInt_toInt64]
  case integer.float.refl | long.float.refl =>
    rw [comparesEqual_nearest rfl rfl, compare_floats_iff]
    simp [nearestLike?]
  case integer.double.refl | long.double.refl =>
    rw [comparesEqual_nearest rfl rfl, compare_doubles_iff]
    simp [nearestLike?]
  case float.integer.refl | float.long.refl =>
    rw [comparesEqual_comm, comparesEqual_nearest rfl rfl, compare_floats_iff, eq_comm]
    simp [nearestLike?]
  case double.integer.refl | double.long.refl =>
    rw [comparesEqual_comm, comparesEqual_nearest rfl rfl, compare_doubles_iff, eq_comm]
    simp [nearestLike?]
  case float.float.refl =>
    rw [comparesEqual_floating rfl rfl, compare_floats_iff,
      BinaryFormat.Number.eq_iff BinaryFormat.roomy_single]
    simp [SameQuantity, quantity?, hiddenSign]
  case double.double.refl =>
    rw [comparesEqual_floating rfl rfl, compare_doubles_iff,
      BinaryFormat.Number.eq_iff BinaryFormat.roomy_double]
    simp [SameQuantity, quantity?, hiddenSign]
  case float.double.refl | double.float.refl =>
    rw [comparesEqual_floating rfl rfl, compare_doubles_iff,
      BinaryFormat.Number.eq_iff BinaryFormat.roomy_double]
    simp [SameQuantity, quantity?, hiddenSign, denote_widen]

/-- Values without parts are equal if they can be compared and come out equal. -/
theorem equals_iff_compare {a b : Value} (hlist : ∀ xs, a ≠ list xs) (hmap : ∀ xs, a ≠ map xs)
    (hnull : a ≠ null) : a.equals b = true ↔ a.compare b = .ok .eq := by
  cases a with
  | null => exact absurd rfl hnull
  | list xs => exact absurd rfl (hlist xs)
  | map xs => exact absurd rfl (hmap xs)
  | _ =>
    simp only [equals]
    split <;> simp_all

/-- Values without parts are equal if they match as numbers that compare equal. -/
theorem equals_iff_scalar {a b : Value} (hlist : ∀ xs, a ≠ list xs) (hmap : ∀ xs, a ≠ map xs) :
    a.equals b = true ↔ Matches ComparesEqual a b := by
  cases hpair : NumberPair.of? a b with
  | some pair =>
    obtain ⟨ha, hb⟩ := (NumberPair.isSome_of?_iff a b).1 (by rw [hpair]; rfl)
    have hnull : a ≠ null := by
      rintro rfl
      cases ha
    have hcompare : a.compare b = .ok pair.compare := by
      cases a <;> cases ha <;> simp only [compare, hpair]
    rw [equals_iff_compare hlist hmap hnull, hcompare, Except.ok.injEq,
      pair_compare_iff hpair, matches_number_iff ha hb]
  | none =>
    cases a with
    | null => cases b <;> simp [equals, compare, NumberPair.of?, Matches, isNumeric_eq]
    | list xs => exact absurd rfl (hlist xs)
    | map xs => exact absurd rfl (hmap xs)
    | _ =>
      rw [equals_iff_compare hlist hmap (by simp)]
      cases b <;> simp_all [compare, NumberPair.of?, Matches, isNumeric_eq]

mutual

/-- Values are equal if they match, the numbers in them comparing equal. -/
theorem equals_iff : ∀ {a b : Value}, a.equals b = true ↔ Matches ComparesEqual a b
  | list xs, b => by
    cases b with
    | list ys => rw [equals, Matches, equalItems_iff]
    | _ => simp [equals, compare, NumberPair.of?, Matches, isNumeric_eq]
  | map xs, b => by
    cases b with
    | map ys => rw [equals, Matches, equalEntries_iff]
    | _ => simp [equals, compare, NumberPair.of?, Matches, isNumeric_eq]
  | null, _ | boolean _, _ | integer _, _ | long _, _ | float _, _ | double _, _ | string _, _ =>
    equals_iff_scalar nofun nofun

theorem equalItems_iff : ∀ {xs ys : List Value},
    equalItems xs ys = true ↔ MatchesItems ComparesEqual xs ys
  | [], [] => by simp [equalItems, MatchesItems]
  | [], _ :: _ => by simp [equalItems, MatchesItems]
  | _ :: _, [] => by simp [equalItems, MatchesItems]
  | x :: xs, y :: ys => by
    rw [equalItems, MatchesItems, Bool.and_eq_true, equals_iff, equalItems_iff]

theorem equalEntries_iff : ∀ {xs ys : List (String × Value)},
    equalEntries xs ys = true ↔ MatchesEntries ComparesEqual xs ys
  | [], [] => by simp [equalEntries, MatchesEntries]
  | [], _ :: _ => by simp [equalEntries, MatchesEntries]
  | _ :: _, [] => by simp [equalEntries, MatchesEntries]
  | (k, x) :: xs, (l, y) :: ys => by
    rw [equalEntries, MatchesEntries, Bool.and_eq_true, Bool.and_eq_true, beq_iff_eq, equals_iff,
      equalEntries_iff, and_assoc]

end

/-- Maps are equal if they are equally large and the value under each key of the one is equal to a
value that the other has under the key. -/
theorem equals_ofKeyed_iff {s t : Keyed String Value} :
    (ofKeyed s).equals (ofKeyed t) = true ↔ s.size = t.size ∧
      ∀ k x, s.get? k = some x → ∃ y, t.get? k = some y ∧ x.equals y = true := by
  simp only [equals_iff, matches_ofKeyed_iff]
  constructor
  · rintro ⟨hkeys, hmatch⟩
    refine ⟨by simpa [Keyed.keys, Keyed.size] using congrArg List.length hkeys, fun k x hx => ?_⟩
    have hmem : k ∈ t.keys := hkeys ▸ Keyed.mem_keys_iff.2 (by rw [hx]; rfl)
    obtain ⟨y, hy⟩ := Option.isSome_iff_exists.1 (Keyed.mem_keys_iff.1 hmem)
    exact ⟨y, hy, hmatch k x y hx hy⟩
  · rintro ⟨hsize, hfound⟩
    constructor
    · refine keys_eq_of_subset hsize fun k hk => ?_
      obtain ⟨x, hx⟩ := Option.isSome_iff_exists.1 (Keyed.mem_keys_iff.1 hk)
      obtain ⟨y, hy, -⟩ := hfound k x hx
      exact Keyed.mem_keys_iff.2 (by rw [hy]; rfl)
    · intro k x y hx hy
      obtain ⟨y', hy', hmatch⟩ := hfound k x hx
      rwa [Option.some.inj (hy.symm.trans hy')]

/-! ## Where equality and bytes part -/

theorem RoundsTo.isNumeric {l r : Value} (h : RoundsTo l r) :
    l.isNumeric = true ∧ r.isNumeric = true := by
  obtain ⟨n, hn, hnearest, -⟩ := h
  refine ⟨isNumeric_of_quantity? (quantity?_of_integral? hn).1, ?_⟩
  cases r <;> first | rfl | cases hnearest

theorem Merged.isNumeric {l r : Value} (h : Merged l r) :
    l.isNumeric = true ∧ r.isNumeric = true := by
  rcases h with h | h
  · exact h.isNumeric
  · exact h.isNumeric.symm

/-- Of numbers that denote the same, only those with opposite signs hidden in them do not compare
equal. -/
theorem opposite_iff {l r : Value} :
    OppositeZeros l r ∨ OppositeNaNs l r ↔ l.isNumeric = true ∧ r.isNumeric = true ∧
      SameQuantity l r ∧ ¬ ComparesEqual l r := by
  have hopposite {q : Quantity} (hl : l.quantity? = some q) (hr : r.quantity? = some q)
      (hsigns : l.hiddenSign ≠ r.hiddenSign) : l.isNumeric = true ∧ r.isNumeric = true ∧
        SameQuantity l r ∧ ¬ ComparesEqual l r := by
    have hsame : SameQuantity l r := hl.trans hr.symm
    refine ⟨isNumeric_of_quantity? hl, isNumeric_of_quantity? hr, hsame, ?_⟩
    rintro (⟨-, hsign⟩ | hmerged)
    · exact hsigns hsign
    · exact hmerged.quantity_ne hsame
  constructor
  · rintro (⟨hl, hr, hsigns⟩ | ⟨hl, hr, hsigns⟩) <;> exact hopposite hl hr hsigns
  · rintro ⟨-, -, hsame, hnot⟩
    have hsigns : l.hiddenSign ≠ r.hiddenSign := fun hsign => hnot (.inl ⟨hsame, hsign⟩)
    have hquantity : l.quantity? = some (.finite 0) ∨ l.quantity? = some .nan := by
      cases hl : l.hiddenSign with
      | true => exact quantity?_of_hiddenSign hl
      | false =>
        rw [hl, ne_comm, ne_eq, Bool.not_eq_false] at hsigns
        exact (quantity?_of_hiddenSign hsigns).imp hsame.trans hsame.trans
    exact hquantity.imp (fun hzero => ⟨hzero, hsame.symm.trans hzero, hsigns⟩)
      fun hnan => ⟨hnan, hsame.symm.trans hnan, hsigns⟩

/-- Of numbers that compare equal, only merged ones denote different things. -/
theorem merged_iff {l r : Value} :
    Merged l r ↔ l.isNumeric = true ∧ r.isNumeric = true ∧ ComparesEqual l r ∧
      ¬ SameQuantity l r := by
  constructor
  · intro h
    exact ⟨h.isNumeric.1, h.isNumeric.2, .inr h, h.quantity_ne⟩
  · rintro ⟨-, -, hequal | hmerged, hnot⟩
    · exact absurd hequal.1 hnot
    · exact hmerged

/-- Equality and canonical bytes agree on all values but these.  Values with the same bytes are not
equal exactly if somewhere in them zeros of opposite signs stand beside each other, or two that are
no numbers and have opposite signs; and equal values have different bytes exactly if somewhere in
them an integer stands beside a floating-point number that it is rounded to, without being it.
Lengths must be told in eight bytes. -/
theorem equals_and_encode (a b : Value) (ha : a.LengthsFit) (hb : b.LengthsFit) :
    (a.encode = b.encode →
        (a.equals b = false ↔
          ∃ x y, Beside a b x y ∧ (OppositeZeros x y ∨ OppositeNaNs x y))) ∧
      (a.equals b = true → (a.encode ≠ b.encode ↔ ∃ x y, Beside a b x y ∧ Merged x y)) := by
  rw [← Bool.not_eq_true, ne_eq, encode_eq_iff ha hb, equals_iff]
  constructor
  · intro hexact
    simp only [opposite_iff]
    exact hexact.not_matches_iff
  · intro hequal
    simp only [merged_iff]
    exact hequal.not_matches_iff

/-- Zero with the negative sign. -/
def negativeZero : Value := double (doubleOfWord 0x8000000000000000)

/-- The double precision number `2 ^ 53`, to which its successor is rounded. -/
def doubleLimit : Value := double (doubleOfWord 0x4340000000000000)

/-- Zeros have the same bytes and are not equal; a LONG is equal to a DOUBLE with other bytes. -/
theorem bytes_and_equality_part :
    (negativeZero.encode = (integer 0).encode ∧ negativeZero.equals (integer 0) = false) ∧
      ((long 9007199254740993).equals doubleLimit = true ∧
        (long 9007199254740993).encode ≠ doubleLimit.encode) := by
  decide +kernel

theorem equals_and_encode_inside :
    (list [negativeZero]).equals (list [integer 0]) = false ∧
      (map [("k", long 9007199254740993)]).encode ≠ (map [("k", doubleLimit)]).encode := by
  have htext : TextFits "k" := by decide
  have hzeros : OppositeZeros negativeZero (integer 0) := by
    have hinteger : (integer 0).quantity? = some (.finite 0) := by simp [quantity?]
    have hdouble : negativeZero.quantity? = some (.finite 0) := by
      have hdatum : (doubleOfWord 0x8000000000000000).datum = .finite true 0 (-1074) := by decide
      simp [negativeZero, quantity?, hdatum, Datum.quantity, signed]
    exact ⟨hdouble, hinteger, by decide +kernel⟩
  have hmerged : Merged (long 9007199254740993) doubleLimit := by
    have hnearest : doubleOfInt 9007199254740993 = doubleOfWord 0x4340000000000000 :=
      congrArg doubleOfWord (by decide +kernel)
    have hdenotes : (doubleOfWord 0x4340000000000000).datum = .finite false (2 ^ 52) 1 := by
      decide +kernel
    refine .inl ⟨9007199254740993, rfl, congrArg (some ∘ double) hnearest, ?_⟩
    norm_num [doubleLimit, quantity?, hdenotes, Datum.quantity, signed]
  constructor
  · refine ((equals_and_encode _ _ ?_ ?_).1 (by decide +kernel)).2
      ⟨_, _, .item (List.mem_singleton_self _) (.here _ _), .inl hzeros⟩
    · simp [LengthsFit, ItemsFit, negativeZero]
    · simp [LengthsFit, ItemsFit]
  · refine ((equals_and_encode _ _ ?_ ?_).2 (by decide +kernel)).2
      ⟨_, _, .entry (List.mem_singleton_self _) (.here _ _), hmerged⟩
    · simp [LengthsFit, EntriesFit, htext]
    · simp [LengthsFit, EntriesFit, htext, doubleLimit]

end StreamQuery.Value
