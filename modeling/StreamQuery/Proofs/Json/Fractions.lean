import StreamQuery.Proofs.Json.Integers
import StreamQuery.Proofs.Numeric.Orders
set_option autoImplicit false

/-!
# Floating-point numbers in JSON

The text of a finite number is written as JSON has numbers, in either format: its digits have no
needless zero in front, a point stands between digits, and an exponent has digits.  A number that
is not finite has no such text.
-/

namespace StreamQuery

namespace Json

variable {whole places exponent rest : List Char}

/-! ## Lexemes by their parts -/

/-- Digits without a needless zero in front. -/
structure IsWhole (whole : List Char) : Prop where
  digits : ∀ c ∈ whole, c.isDigit = true
  lead : whole = ['0'] ∨ ∃ c more, whole = c :: more ∧ c ≠ '0'

theorem isWhole_zero : IsWhole ['0'] := ⟨by simp, .inl rfl⟩

theorem isWhole_digits {n : Nat} (h : 0 < n) : IsWhole (digits n) :=
  ⟨fun _ => isDigit_of_mem_digits, .inr (digits_head h)⟩

/-- Digits and what does not start with one are told apart. -/
theorem span_digits {ds : List Char} (h : ∀ c ∈ ds, c.isDigit = true)
    (hrest : rest.takeWhile Char.isDigit = []) :
    (ds ++ rest).takeWhile Char.isDigit = ds ∧ (ds ++ rest).dropWhile Char.isDigit = rest := by
  have hdrop : rest.dropWhile Char.isDigit = rest := by
    have hsplit := rest.takeWhile_append_dropWhile (p := Char.isDigit)
    rwa [hrest, List.nil_append] at hsplit
  rw [List.takeWhile_append_of_pos h, List.dropWhile_append_of_pos h, hrest, hdrop,
    List.append_nil]
  exact ⟨rfl, rfl⟩

/-- An exponent starts with no digit. -/
theorem takeWhile_of_isExponentPart (h : isExponentPart exponent = true) :
    exponent.takeWhile Char.isDigit = [] := by
  cases exponent with
  | nil => rfl
  | cons c more =>
    simp only [isExponentPart, Bool.and_eq_true, Bool.or_eq_true, beq_iff_eq] at h
    rcases h.1 with rfl | rfl <;> rfl

/-- Digits without a needless zero, and what may follow them, make a number. -/
theorem isUnsignedNumber_append (h : IsWhole whole) (hstart : rest.takeWhile Char.isDigit = [])
    (hrest : isFractionPart rest = true) : isUnsignedNumber (whole ++ rest) = true := by
  obtain ⟨htake, hdrop⟩ := span_digits h.digits hstart
  unfold isUnsignedNumber
  rw [htake, hdrop]
  rcases h.lead with rfl | ⟨c, more, rfl, hc⟩
  · exact hrest
  · split
    · rename_i hnil
      cases hnil
    · exact hrest
    · rename_i heq
      cases heq
      exact absurd rfl hc
    · exact hrest

/-- A number without decimal places. -/
theorem isUnsignedNumber_whole (h : IsWhole whole) (hexponent : isExponentPart exponent = true) :
    isUnsignedNumber (whole ++ exponent) = true := by
  apply isUnsignedNumber_append h (takeWhile_of_isExponentPart hexponent)
  unfold isFractionPart
  split
  · cases hexponent
  · exact hexponent

/-- A number with decimal places. -/
theorem isUnsignedNumber_places (h : IsWhole whole) (hplaces : ∀ c ∈ places, c.isDigit = true)
    (hne : places ≠ []) (hexponent : isExponentPart exponent = true) :
    isUnsignedNumber (whole ++ '.' :: (places ++ exponent)) = true := by
  obtain ⟨htake, hdrop⟩ := span_digits hplaces (takeWhile_of_isExponentPart hexponent)
  apply isUnsignedNumber_append h rfl
  simp only [isFractionPart, htake, hdrop, hexponent, Bool.and_true, Bool.not_eq_true',
    List.isEmpty_eq_false_iff]
  exact hne

/-- An exponent as it is written. -/
theorem isExponentPart_signed {sign : Char} (h : sign = '+' ∨ sign = '-') (n : Nat) :
    isExponentPart ('e' :: sign :: digits n) = true := by
  have hdigits : isDigits (digits n) = true := by
    simp only [isDigits, Bool.and_eq_true, Bool.not_eq_true', List.isEmpty_eq_false_iff,
      List.all_eq_true]
    exact ⟨Nat.toDigits_ne_nil, fun _ => isDigit_of_mem_digits⟩
  rcases h with rfl | rfl <;> exact hdigits

end Json

/-! ## Decimals -/

namespace Numeric.Decimal

open Json

variable {d : Decimal}

theorem isUnsignedNumber_positional (h : 0 < d.digits) :
    isUnsignedNumber (d.positional ".0").toList = true := by
  have hwhole := isWhole_digits h
  obtain ⟨lead, more, hdigits, hlead⟩ := digits_head h
  simp only [positional, show Nat.toDigits 10 d.digits = Json.digits d.digits from rfl]
  split
  · rw [String.toList_append, String.toList_ofList]
    show isUnsignedNumber (_ ++ '.' :: (['0'] ++ [])) = true
    refine isUnsignedNumber_places ⟨?_, .inr ?_⟩ ?_ nofun rfl
    · intro c hc
      rcases List.mem_append.1 hc with hc | hc
      · exact hwhole.digits c hc
      · rw [List.eq_of_mem_replicate hc]
        rfl
    · exact ⟨lead, more ++ _, by rw [hdigits]; rfl, hlead⟩
    · simp
  · rename_i hneg
    split
    · rename_i hfew
      have hfront : 0 < (Json.digits d.digits).length - (-d.exponent).toNat := by omega
      rw [String.toList_ofList, ← List.append_nil (List.drop _ _)]
      refine isUnsignedNumber_places ⟨?_, .inr ?_⟩ ?_ ?_ rfl
      · exact fun c hc => hwhole.digits c (List.mem_of_mem_take hc)
      · obtain ⟨n, hn⟩ : ∃ n, (Json.digits d.digits).length - (-d.exponent).toNat = n + 1 :=
          ⟨_, (Nat.succ_pred_eq_of_pos hfront).symm⟩
        exact ⟨lead, more.take n, by rw [hn, hdigits]; rfl, hlead⟩
      · exact fun c hc => hwhole.digits c (List.mem_of_mem_drop hc)
      · intro hnil
        have := List.drop_eq_nil_iff.1 hnil
        omega
    · rw [String.toList_ofList, ← List.append_nil (Json.digits _), ← List.append_assoc]
      refine isUnsignedNumber_places isWhole_zero ?_ ?_ rfl
      · intro c hc
        rcases List.mem_append.1 hc with hc | hc
        · rw [List.eq_of_mem_replicate hc]
          rfl
        · exact hwhole.digits c hc
      · rw [hdigits]
        simp

theorem isUnsignedNumber_scientific (h : 0 < d.digits) :
    isUnsignedNumber d.scientific.toList = true := by
  have hwhole := isWhole_digits h
  obtain ⟨lead, more, hdigits, hlead⟩ := digits_head h
  have hexponent (n : Int) : isExponentPart ((if n < 0 then "e-" else "e+").toList
      ++ (toString n.natAbs).toList) = true := by
    have htext : (toString n.natAbs).toList = Json.digits n.natAbs := Nat.toList_repr
    rw [htext]
    split
    · exact isExponentPart_signed (.inr rfl) _
    · exact isExponentPart_signed (.inl rfl) _
  have hlead' : IsWhole [lead] :=
    ⟨fun c hc => hwhole.digits c (by
      rw [hdigits, List.mem_singleton.1 hc]
      exact List.mem_cons_self), .inr ⟨lead, [], rfl, hlead⟩⟩
  simp only [scientific, show Nat.toDigits 10 d.digits = Json.digits d.digits from rfl, hdigits,
    String.toList_append, String.toList_ofList, List.append_assoc]
  cases more with
  | nil => exact isUnsignedNumber_whole hlead' (hexponent _)
  | cons c rest =>
    refine isUnsignedNumber_places hlead' ?_ nofun (hexponent _)
    intro c' hc
    apply hwhole.digits
    rw [hdigits]
    exact List.mem_cons_of_mem _ hc

theorem isUnsignedNumber_write (h : 0 < d.digits) {style : FloatStyle}
    (hsuffix : style.wholeSuffix = ".0") : isUnsignedNumber (d.write style).toList = true := by
  have hpositional : isUnsignedNumber (d.positional style.wholeSuffix).toList = true := by
    rw [hsuffix]
    exact isUnsignedNumber_positional h
  unfold write
  split
  · exact hpositional
  · split
    · exact hpositional
    · exact isUnsignedNumber_scientific h

end Numeric.Decimal

namespace Json

open Numeric

/-- An unsigned number, with or without a minus, is a number. -/
theorem isNumber_signed {cs : List Char} (h : isUnsignedNumber cs = true) (negative : Bool) :
    isNumber ((if negative then "-" else "").toList ++ cs) = true := by
  cases negative with
  | true => exact h
  | false =>
    obtain ⟨⟨c, rest, rfl, hc⟩, -⟩ := isUnsignedNumber_cases h
    show isNumber (c :: rest) = true
    unfold isNumber
    split
    · rename_i heq
      cases heq
      cases hc
    · exact h

/-- The text of a finite number is a number of JSON. -/
theorem isNumber_text {style : FloatStyle} (hsuffix : style.wholeSuffix = ".0") {f : BinaryFormat}
    (hf : f.Moderate) {word significand : Nat} {negative : Bool} {scale : Int}
    (h : f.denote word = .finite negative significand scale) :
    isNumber (style.text f word).toList = true := by
  simp only [FloatStyle.text, h, String.toList_append]
  apply isNumber_signed
  split
  · rw [hsuffix]
    rfl
  · rename_i hne
    exact Decimal.isUnsignedNumber_write (f.digits_shortestDecimal hf h hne _) hsuffix

theorem written_ofDouble (n : Nat) (x : Numeric.Double) : Written n (ofDouble x) := by
  unfold ofDouble
  split
  · rename_i h
    exact .number (isNumber_text rfl moderate_double h)
  · exact .null

theorem written_ofSingle (n : Nat) (x : Numeric.Single) : Written n (ofSingle x) := by
  unfold ofSingle
  split
  · rename_i h
    exact .number (isNumber_text rfl moderate_single h)
  · exact .null

end Json

end StreamQuery
