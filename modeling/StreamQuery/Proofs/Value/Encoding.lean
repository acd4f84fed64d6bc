import Mathlib
import StreamQuery.Proofs.Numeric.Exactness
import StreamQuery.Proofs.Value.Matching
import StreamQuery.Value.Canonical
set_option autoImplicit false

/-!
# What canonical bytes tell

Canonical bytes tell where they end and which value they are of, up to the kinds of numbers
(`encode_append_eq_iff`).  So the bytes of a tuple tell the whole tuple, and no two different group
keys are hashed from the same bytes (`encodeTuple_eq_iff`).
-/

namespace StreamQuery.Value

open Numeric

/-- Values of one shape with the same quantities in the same places; only the kinds of their numbers
and the signs of their zeros, and of what is no number, may differ. -/
def ExactlyEqual : Value → Value → Prop := Matches SameQuantity

/-! ## Lengths -/

/-- The length of a text in bytes can be told in eight bytes. -/
def TextFits (s : String) : Prop := (Bytes.ofString s).length < 2 ^ 64

instance (s : String) : Decidable (TextFits s) := inferInstanceAs (Decidable (_ < _))

mutual

/-- All lengths inside a value can be told in eight bytes. -/
def LengthsFit : Value → Prop
  | string s => TextFits s
  | list items => items.length < 2 ^ 64 ∧ ItemsFit items
  | map entries => entries.length < 2 ^ 64 ∧ EntriesFit entries
  | _ => True

/-- All lengths inside the items can be told. -/
def ItemsFit : List Value → Prop
  | [] => True
  | v :: rest => v.LengthsFit ∧ ItemsFit rest

/-- All lengths inside the entries can be told. -/
def EntriesFit : List (String × Value) → Prop
  | [] => True
  | (key, v) :: rest => TextFits key ∧ v.LengthsFit ∧ EntriesFit rest

end

/-- A length tells where what it counts begins. -/
theorem ofLength_append_eq_iff {n m : Nat} {bs cs : Bytes} (hn : n < 2 ^ 64) (hm : m < 2 ^ 64) :
    Bytes.ofLength n ++ bs = Bytes.ofLength m ++ cs ↔ n = m ∧ bs = cs := by
  constructor
  · intro h
    obtain ⟨hlength, hrest⟩ := List.append_inj h
      ((Bytes.length_ofNat 8 n).trans (Bytes.length_ofNat 8 m).symm)
    exact ⟨Bytes.ofNat_injective hn hm hlength, hrest⟩
  · rintro ⟨rfl, rfl⟩
    rfl

theorem ofString_injective {s t : String} (h : Bytes.ofString s = Bytes.ofString t) : s = t :=
  String.toByteArray_inj.1 (ByteArray.ext (Array.toList_inj.1 h))

/-- The bytes of a text tell where it ends. -/
theorem encodeText_append_eq_iff {s t : String} {bs cs : Bytes} (hs : TextFits s)
    (ht : TextFits t) : encodeText s ++ bs = encodeText t ++ cs ↔ s = t ∧ bs = cs := by
  simp only [encodeText, List.append_assoc]
  rw [ofLength_append_eq_iff hs ht]
  constructor
  · rintro ⟨hlength, h⟩
    obtain ⟨htext, hrest⟩ := List.append_inj h hlength
    exact ⟨ofString_injective htext, hrest⟩
  · rintro ⟨rfl, rfl⟩
    exact ⟨rfl, rfl⟩

/-! ## Numbers -/

/-- The integers of a LONG. -/
def IsLong (n : Int) : Prop := -2 ^ 63 ≤ n ∧ n < 2 ^ 63

theorem encodeWhole_inj {n m : Int} (hn : IsLong n) (hm : IsLong m)
    (h : encodeWhole n = encodeWhole m) : n = m := by
  have hword := Bytes.ofNat_injective (n := 8) (by omega) (by omega) (List.cons.inj h).2
  obtain ⟨hn, hn'⟩ := hn
  obtain ⟨hm, hm'⟩ := hm
  omega

/-- A whole number has the bytes of the LONG. -/
theorem encodeDouble_of_whole {x : Double} {n : Int} (hn : IsLong n)
    (h : x.datum.quantity = .finite n) : encodeDouble x = encodeWhole n := by
  rw [encodeDouble, Datum.whole?_eq_some_iff.2 h]
  exact if_pos hn

theorem encodeDouble_of_not_whole {x : Double}
    (h : ∀ n, IsLong n → x.datum.quantity ≠ .finite n) : encodeDouble x = encodeWord x := by
  rw [encodeDouble]
  split
  · rename_i n hn
    exact if_neg fun hlong => h n hlong (Datum.whole?_eq_some_iff.1 hn)
  · rfl

/-- Any other number has the word of the number with the same quantity and no sign hidden in it. -/
theorem exists_encodeWord_eq {x : Double} (h : x.datum.quantity ≠ .finite 0) :
    ∃ y : Double, y.datum.quantity = x.datum.quantity ∧ y.datum.hiddenSign = false ∧
      encodeWord x = 5 :: Bytes.ofNat 8 y.word := by
  cases hnan : x.datum.isNaN with
  | true =>
    have hdatum : (BinaryFormat.Number.nan .double false).datum = .nan false :=
      BinaryFormat.roomy_double.denote_nanWord false
    refine ⟨.nan .double false, ?_, by rw [hdatum]; rfl, ?_⟩
    · rw [Datum.quantity_eq_nan_iff.2 hnan, hdatum]
      rfl
    · rw [encodeWord, if_pos hnan]
      rfl
  | false =>
    refine ⟨x, rfl, ?_, by rw [encodeWord, if_neg (by rw [hnan]; exact Bool.false_ne_true)]⟩
    by_contra hsign
    rw [Bool.not_eq_false] at hsign
    rcases Datum.quantity_of_hiddenSign hsign with hzero | hquantity
    · exact h hzero
    · exact nomatch hnan.symm.trans (Datum.quantity_eq_nan_iff.1 hquantity)

/-- A number is encoded as a LONG, or as the double precision number that denotes its quantity and
hides no sign. -/
theorem encode_number {v : Value} {q : Quantity} (h : v.quantity? = some q) :
    (∃ n, IsLong n ∧ q = .finite n ∧ v.encode = encodeWhole n) ∨
      (∀ n, IsLong n → q ≠ .finite n) ∧
        ∃ x : Double, x.datum.quantity = q ∧ x.datum.hiddenSign = false ∧
          v.encode = 5 :: Bytes.ofNat 8 x.word := by
  have hdouble (x : Double) (hx : x.datum.quantity = q) :
      (∃ n, IsLong n ∧ q = .finite n ∧ encodeDouble x = encodeWhole n) ∨
        (∀ n, IsLong n → q ≠ .finite n) ∧
          ∃ y : Double, y.datum.quantity = q ∧ y.datum.hiddenSign = false ∧
            encodeDouble x = 5 :: Bytes.ofNat 8 y.word := by
    by_cases hwhole : ∃ n, IsLong n ∧ q = .finite n
    · obtain ⟨n, hn, rfl⟩ := hwhole
      exact .inl ⟨n, hn, rfl, encodeDouble_of_whole hn hx⟩
    · push Not at hwhole
      have hzero : x.datum.quantity ≠ .finite 0 := by
        rw [hx]
        exact_mod_cast hwhole 0 ⟨by decide, by decide⟩
      rw [encodeDouble_of_not_whole (hx ▸ hwhole), ← hx]
      exact .inr ⟨hx ▸ hwhole, exists_encodeWord_eq hzero⟩
  cases v with
  | integer n =>
    have hlo := n.le_toInt
    have hhi := n.toInt_lt
    exact .inl ⟨n.toInt, ⟨by omega, by omega⟩, (Option.some.inj h).symm, rfl⟩
  | long n => exact .inl ⟨n.toInt, ⟨n.le_toInt, n.toInt_lt⟩, (Option.some.inj h).symm, rfl⟩
  | float x => exact hdouble (widen x) ((denote_widen x).1.trans (Option.some.inj h))
  | double x => exact hdouble x (Option.some.inj h)
  | _ => cases h

theorem word_injective {x y : Double} (h : Bytes.ofNat 8 x.word = Bytes.ofNat 8 y.word) : x = y :=
  BinaryFormat.Number.word_inj.1 (Bytes.ofNat_injective
    (x.word_lt BinaryFormat.roomy_double) (y.word_lt BinaryFormat.roomy_double) h)

/-- Numbers have the same bytes exactly if they denote the same quantity. -/
theorem encode_eq_iff_of_quantity {l r : Value} {p q : Quantity} (hl : l.quantity? = some p)
    (hr : r.quantity? = some q) : l.encode = r.encode ↔ p = q := by
  have htags (n : Int) (x : Double) : encodeWhole n ≠ 5 :: Bytes.ofNat 8 x.word :=
    fun h => absurd (List.cons.inj h).1 (by decide)
  rcases encode_number hl with ⟨n, hn, rfl, hencode⟩ | ⟨hwhole, x, rfl, hsign, hencode⟩ <;>
    rcases encode_number hr with ⟨m, hm, rfl, hencode'⟩ | ⟨hwhole', y, rfl, hsign', hencode'⟩ <;>
    rw [hencode, hencode']
  · constructor
    · intro h
      rw [encodeWhole_inj hn hm h]
    · intro h
      rw [Int.cast_inj.1 (Quantity.finite.inj h)]
  · exact iff_of_false (htags n y) (hwhole' n hn).symm
  · exact iff_of_false (htags m x).symm (hwhole m hm)
  · constructor
    · intro h
      rw [word_injective (List.cons.inj h).2]
    · intro h
      rw [(BinaryFormat.Number.eq_iff BinaryFormat.roomy_double).2 ⟨h, hsign.trans hsign'.symm⟩]

theorem length_encode_number {v : Value} {q : Quantity} (h : v.quantity? = some q) :
    v.encode.length = 9 := by
  rcases encode_number h with ⟨n, -, -, hencode⟩ | ⟨-, x, -, -, hencode⟩ <;> rw [hencode] <;>
    simp [encodeWhole]

/-! ## Values -/

/-- What the first byte tells of a value: its kind, or that it is a number. -/
def tag : Value → UInt8
  | null => 0
  | boolean _ => 1
  | integer _ | long _ | float _ | double _ => 2
  | string _ => 6
  | list _ => 7
  | map _ => 8

theorem tag_eq_two_iff {v : Value} : v.tag = 2 ↔ v.isNumeric = true := by
  cases v <;> simp [tag, isNumeric_eq]

/-- The bytes of a value start with its tag, those of a number with one of two. -/
theorem exists_encode_eq_cons (v : Value) :
    ∃ first rest, v.encode = first :: rest ∧ v.tag = if first = 5 then 2 else first := by
  cases hq : v.quantity? with
  | some q =>
    have hnumeric : v.tag = 2 := tag_eq_two_iff.2 (isNumeric_of_quantity? hq)
    rw [hnumeric]
    rcases encode_number hq with ⟨n, -, -, hencode⟩ | ⟨-, x, -, -, hencode⟩
    · exact ⟨_, _, hencode, rfl⟩
    · exact ⟨_, _, hencode, rfl⟩
  | none =>
    cases v with
    | integer n => cases hq
    | long n => cases hq
    | float x => cases hq
    | double x => cases hq
    | _ => exact ⟨_, _, rfl, rfl⟩

section Tags

variable {a b : Value} {bs cs : Bytes}

theorem tag_eq_of_encode_append (h : a.encode ++ bs = b.encode ++ cs) : a.tag = b.tag := by
  obtain ⟨first, rest, ha, hfirst⟩ := exists_encode_eq_cons a
  obtain ⟨first', rest', hb, hfirst'⟩ := exists_encode_eq_cons b
  rw [ha, hb] at h
  rw [hfirst, hfirst', (List.cons.inj h).1]

theorem Matches.tag_eq {R : Value → Value → Prop} (h : Matches R a b) : a.tag = b.tag := by
  cases a <;> cases b <;> simp_all [Matches, tag, isNumeric_eq]

/-- Numbers, one after another, are told apart by their quantities. -/
theorem encode_append_eq_iff_number (ha : a.isNumeric = true) (hb : b.isNumeric = true) :
    a.encode ++ bs = b.encode ++ cs ↔ ExactlyEqual a b ∧ bs = cs := by
  obtain ⟨p, hp⟩ := Option.isSome_iff_exists.1 (isSome_quantity?_iff.2 ha)
  obtain ⟨q, hq⟩ := Option.isSome_iff_exists.1 (isSome_quantity?_iff.2 hb)
  rw [ExactlyEqual, matches_number_iff ha hb, SameQuantity, hp, hq, Option.some_inj,
    ← encode_eq_iff_of_quantity hp hq]
  constructor
  · intro h
    exact List.append_inj h ((length_encode_number hp).trans (length_encode_number hq).symm)
  · rintro ⟨hencode, rfl⟩
    rw [hencode]

/-- Values without parts, one after another, are told apart. -/
theorem encode_append_eq_iff_scalar (hlist : ∀ xs, a ≠ list xs) (hmap : ∀ xs, a ≠ map xs)
    (ha : a.LengthsFit) (hb : b.LengthsFit) :
    a.encode ++ bs = b.encode ++ cs ↔ ExactlyEqual a b ∧ bs = cs := by
  by_cases htag : a.tag = b.tag
  · by_cases hnumeric : a.isNumeric = true
    · exact encode_append_eq_iff_number hnumeric
        (tag_eq_two_iff.1 (htag ▸ tag_eq_two_iff.2 hnumeric))
    · cases a with
      | null =>
        cases b with
        | null => simp [encode, ExactlyEqual, Matches]
        | _ => cases htag
      | boolean x =>
        cases b with
        | boolean y => cases x <;> cases y <;> simp [encode, ExactlyEqual, Matches]
        | _ => cases htag
      | string s =>
        cases b with
        | string t =>
          simp only [encode, List.cons_append, List.cons.injEq, true_and, ExactlyEqual, Matches]
          exact encodeText_append_eq_iff ha hb
        | _ => cases htag
      | list xs => exact absurd rfl (hlist xs)
      | map xs => exact absurd rfl (hmap xs)
      | _ => exact absurd rfl hnumeric
  · exact iff_of_false (mt tag_eq_of_encode_append htag) fun h => htag h.1.tag_eq

end Tags

-- What follows a value is carried along, since inside another value its neighbours follow it.
-- Items have no mark at their end, so their number, which stands before them, belongs to the
-- statement.
mutual

/-- Values, one after another, are told apart by their bytes up to exact equality. -/
theorem encode_append_eq_iff : ∀ {a b : Value} {bs cs : Bytes}, a.LengthsFit → b.LengthsFit →
    (a.encode ++ bs = b.encode ++ cs ↔ ExactlyEqual a b ∧ bs = cs)
  | list xs, b, bs, cs, ha, hb => by
    by_cases htag : (list xs).tag = b.tag
    · cases b with
      | list ys =>
        simp only [encode, List.cons_append, List.append_assoc, List.cons.injEq, true_and,
          ExactlyEqual, Matches]
        rw [ofLength_append_eq_iff ha.1 hb.1, encodeItems_append_eq_iff ha.2 hb.2]
      | _ => cases htag
    · exact iff_of_false (mt tag_eq_of_encode_append htag) fun h => htag h.1.tag_eq
  | map xs, b, bs, cs, ha, hb => by
    by_cases htag : (map xs).tag = b.tag
    · cases b with
      | map ys =>
        simp only [encode, List.cons_append, List.append_assoc, List.cons.injEq, true_and,
          ExactlyEqual, Matches]
        rw [ofLength_append_eq_iff ha.1 hb.1, encodeEntries_append_eq_iff ha.2 hb.2]
      | _ => cases htag
    · exact iff_of_false (mt tag_eq_of_encode_append htag) fun h => htag h.1.tag_eq
  | null, _, _, _, ha, hb | boolean _, _, _, _, ha, hb | integer _, _, _, _, ha, hb
  | long _, _, _, _, ha, hb | float _, _, _, _, ha, hb | double _, _, _, _, ha, hb
  | string _, _, _, _, ha, hb => encode_append_eq_iff_scalar nofun nofun ha hb

/-- Items are told apart by their number and their bytes. -/
theorem encodeItems_append_eq_iff : ∀ {xs ys : List Value} {bs cs : Bytes},
    ItemsFit xs → ItemsFit ys →
    (xs.length = ys.length ∧ encodeItems xs ++ bs = encodeItems ys ++ cs ↔
      MatchesItems SameQuantity xs ys ∧ bs = cs)
  | [], [], _, _, _, _ => by simp [encodeItems, MatchesItems]
  | [], _ :: _, _, _, _, _ => by simp [MatchesItems]
  | _ :: _, [], _, _, _, _ => by simp [MatchesItems]
  | x :: xs, y :: ys, _, _, hx, hy => by
    rw [encodeItems, encodeItems, List.append_assoc, List.append_assoc,
      encode_append_eq_iff hx.1 hy.1, List.length_cons, List.length_cons, Nat.succ_inj,
      and_left_comm, encodeItems_append_eq_iff hx.2 hy.2, MatchesItems, and_assoc, ExactlyEqual]

/-- Entries are told apart by their number and their bytes. -/
theorem encodeEntries_append_eq_iff : ∀ {xs ys : List (String × Value)} {bs cs : Bytes},
    EntriesFit xs → EntriesFit ys →
    (xs.length = ys.length ∧ encodeEntries xs ++ bs = encodeEntries ys ++ cs ↔
      MatchesEntries SameQuantity xs ys ∧ bs = cs)
  | [], [], _, _, _, _ => by simp [encodeEntries, MatchesEntries]
  | [], _ :: _, _, _, _, _ => by simp [MatchesEntries]
  | _ :: _, [], _, _, _, _ => by simp [MatchesEntries]
  | (k, x) :: xs, (l, y) :: ys, bs, cs, hx, hy => by
    have hvalues : xs.length = ys.length ∧ x.encode ++ (encodeEntries xs ++ bs)
        = y.encode ++ (encodeEntries ys ++ cs) ↔
          ExactlyEqual x y ∧ MatchesEntries SameQuantity xs ys ∧ bs = cs := by
      rw [encode_append_eq_iff hx.2.1 hy.2.1, and_left_comm,
        encodeEntries_append_eq_iff hx.2.2 hy.2.2]
    simp only [encodeEntries, List.append_assoc, List.length_cons, Nat.succ_inj,
      encodeText_append_eq_iff hx.1 hy.1, MatchesEntries, and_assoc]
    rw [and_left_comm, hvalues, ExactlyEqual]

end

/-- Values have the same bytes exactly if they are exactly equal. -/
theorem encode_eq_iff {a b : Value} (ha : a.LengthsFit) (hb : b.LengthsFit) :
    a.encode = b.encode ↔ ExactlyEqual a b := by
  rw [← List.append_nil a.encode, ← List.append_nil b.encode, encode_append_eq_iff ha hb]
  exact and_iff_left rfl

/-! ## Tuples -/

/-- Two tuples are hashed from the same bytes exactly if they are equally long and their values are
exactly equal, one by one: both NULL, the same truth value, the same text, numbers of whatever kinds
that denote the same quantity, lists equal item by item, maps with the same keys and exactly equal
values.  All lengths must be told in eight bytes, those of the tuples included. -/
theorem encodeTuple_eq_iff (xs ys : List Value) (hxs : (list xs).LengthsFit)
    (hys : (list ys).LengthsFit) :
    encodeTuple xs = encodeTuple ys ↔ xs.length = ys.length ∧ List.Forall₂ ExactlyEqual xs ys := by
  rw [encodeTuple, encodeTuple, ofLength_append_eq_iff hxs.1 hys.1,
    ← List.append_nil (encodeItems xs), ← List.append_nil (encodeItems ys),
    encodeItems_append_eq_iff hxs.2 hys.2, matchesItems_iff, and_iff_left rfl]
  exact (and_iff_right_of_imp List.Forall₂.length_eq).symm

/-- A group key with a zero, a half and a five, each of a floating-point kind. -/
def floatingKey : List Value :=
  [double (doubleOfWord 0x8000000000000000), list [float (singleOfWord 0x3f000000), string "a"],
    map [("k", double (doubleOfWord 0x4014000000000000))]]

/-- The same key with whole numbers where there can be. -/
def wholeKey : List Value :=
  [integer 0, list [double (doubleOfWord 0x3fe0000000000000), string "a"], map [("k", long 5)]]

theorem encodeTuple_eq_iff_floatingKey :
    encodeTuple floatingKey = encodeTuple wholeKey ∧
      encodeTuple [list [long 5], list []] ≠ encodeTuple [list [], list [long 5]] := by
  have hzeros : SameQuantity (double (doubleOfWord 0x8000000000000000)) (integer 0) := by
    have hdouble : (doubleOfWord 0x8000000000000000).datum = .finite true 0 (-1074) := by
      decide
    simp [SameQuantity, quantity?, hdouble, Datum.quantity, signed]
  have hhalves : SameQuantity (float (singleOfWord 0x3f000000))
      (double (doubleOfWord 0x3fe0000000000000)) := by
    have hsingle : (singleOfWord 0x3f000000).datum = .finite false (2 ^ 23) (-24) := by
      decide
    have hdouble : (doubleOfWord 0x3fe0000000000000).datum
        = .finite false (2 ^ 52) (-53) := by decide
    norm_num [SameQuantity, quantity?, hsingle, hdouble, Datum.quantity, signed, zpow_neg]
  have hfives : SameQuantity (double (doubleOfWord 0x4014000000000000)) (long 5) := by
    have hdouble : (doubleOfWord 0x4014000000000000).datum
        = .finite false (5 * 2 ^ 50) (-50) := by decide
    have hlong : (5 : Int64).toInt = 5 := rfl
    norm_num [SameQuantity, quantity?, hdouble, hlong, Datum.quantity, signed, zpow_neg]
  have hfits : (list floatingKey).LengthsFit ∧ (list wholeKey).LengthsFit := by
    have htexts : TextFits "a" ∧ TextFits "k" := ⟨by decide, by decide⟩
    simp [floatingKey, wholeKey, LengthsFit, ItemsFit, EntriesFit, htexts]
  constructor
  · refine (encodeTuple_eq_iff floatingKey wholeKey hfits.1 hfits.2).2
      ⟨rfl, .cons ?_ (.cons ?_ (.cons ?_ .nil))⟩
    · exact (matches_number_iff rfl rfl).2 hzeros
    · exact matchesItems_iff.2 (.cons ((matches_number_iff rfl rfl).2 hhalves) (.cons rfl .nil))
    · exact matchesEntries_iff.2 ⟨rfl, .cons ((matches_number_iff rfl rfl).2 hfives) .nil⟩
  · intro hencode
    have hfits : (list [list [long 5], list []]).LengthsFit ∧
        (list [list [], list [long 5]]).LengthsFit := by
      simp [LengthsFit, ItemsFit]
    obtain ⟨-, hequal⟩ := (encodeTuple_eq_iff _ _ hfits.1 hfits.2).1 hencode
    cases matchesItems_iff.1 (List.forall₂_cons.1 hequal).1

end StreamQuery.Value
