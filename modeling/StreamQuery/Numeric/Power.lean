set_option autoImplicit false

/-!
# Powers

A power of a natural number or of an integer is the one of the core library in every module,
also where the powers of algebra are in sight.
-/

namespace StreamQuery.Numeric

@[default_instance high]
instance (priority := high) corePower {α : Type} [NatPow α] : Pow α Nat := instPowNat

end StreamQuery.Numeric
