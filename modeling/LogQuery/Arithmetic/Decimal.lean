/-!
# Decimals

The rational number that digits and an exponent stand for, and its rough size.
-/

namespace LogQuery.Decimal

/-- `m * 10 ^ e`. -/
def value (m e : Int) : Rat :=
  if 0 ≤ e then mkRat (m * (Nat.pow 10 e.toNat : Nat)) 1 else mkRat m (Nat.pow 10 (-e).toNat)

/-- The number of digits before the point of `m * 10 ^ e`; not positive if there are none. -/
def size (m e : Int) : Int := (Nat.toDigits 10 m.natAbs).length + e

end LogQuery.Decimal
