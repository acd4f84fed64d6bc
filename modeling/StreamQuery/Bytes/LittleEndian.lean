import StreamQuery.Numeric.Power
set_option autoImplicit false

/-!
# Little-endian words

Lengths and numbers are put into byte strings with the least significant byte
first.  A word of `n` bytes holds every number below `256 ^ n`, and reading back
what was written gives the number.
-/

namespace StreamQuery

/-- Byte strings. -/
abbrev Bytes := List UInt8

namespace Bytes

/-- The `n` bytes of a number, least significant first; higher digits are dropped. -/
def ofNat : (n : Nat) → Nat → Bytes
  | 0, _ => []
  | n + 1, value => UInt8.ofNat (value % 256) :: ofNat n (value / 256)

/-- The number whose base-256 digits the bytes are, least significant first. -/
def toNat : Bytes → Nat
  | [] => 0
  | b :: bs => b.toNat + 256 * toNat bs

/-- Eight bytes of a number. -/
def ofLength (n : Nat) : Bytes := ofNat 8 n

/-- The UTF-8 bytes of a text. -/
def ofString (s : String) : Bytes := s.toUTF8.data.toList

/-- The text whose UTF-8 bytes these are, when there is one. -/
def toString? (bs : Bytes) : Option String := String.fromUTF8? ⟨bs.toArray⟩

@[simp] theorem length_ofNat (n value : Nat) : (ofNat n value).length = n := by
  induction n generalizing value with
  | zero => rfl
  | succ n ih => simp [ofNat, ih]

/-- Reading back what was written gives the number, less its digits beyond `n` bytes. -/
theorem toNat_ofNat (n value : Nat) : toNat (ofNat n value) = value % 256 ^ n := by
  induction n generalizing value with
  | zero => simp [ofNat, toNat, Nat.mod_one]
  | succ n ih =>
    have hb : (UInt8.ofNat (value % 256)).toNat = value % 256 := by simp
    rw [ofNat, toNat, ih, hb, Nat.pow_succ, Nat.mul_comm (256 ^ n) 256, Nat.mod_mul]

/-- A number is determined by as many bytes as it needs. -/
theorem ofNat_injective {n a b : Nat} (ha : a < 256 ^ n) (hb : b < 256 ^ n)
    (h : ofNat n a = ofNat n b) : a = b := by
  have hv := congrArg toNat h
  rwa [toNat_ofNat, toNat_ofNat, Nat.mod_eq_of_lt ha, Nat.mod_eq_of_lt hb] at hv

/-- Writing back what was read from `bs` gives `bs`. -/
theorem ofNat_toNat (bs : Bytes) : ofNat bs.length (toNat bs) = bs := by
  induction bs with
  | nil => rfl
  | cons b bs ih =>
    have hb : b.toNat < 256 := b.toNat_lt
    simp only [toNat, List.length_cons, ofNat]
    rw [Nat.add_mul_mod_self_left, Nat.mod_eq_of_lt hb, Nat.add_mul_div_left _ _ (by decide),
      Nat.div_eq_of_lt hb, Nat.zero_add, ih]
    simp

end Bytes

end StreamQuery
