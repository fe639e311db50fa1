import Cellular.Decimal.Shortest

/-!
# Decimals with fixed places

A double with a given number of decimal places.  The exact binary value is
rounded to the nearest multiple, and a half goes to the even neighbor.
-/

namespace Cellular.Decimal

/-- The whole number nearest to a quotient; a half goes to the even one. -/
def roundDiv (numerator denominator : Nat) : Nat :=
  let quotient := numerator / denominator
  let remainder := numerator % denominator
  if 2 * remainder < denominator then quotient
  else if denominator < 2 * remainder then quotient + 1
  else if quotient % 2 = 0 then quotient
  else quotient + 1

def fixed (places : Nat) (value : Float) : String :=
  let number := decode value
  match number.magnitude with
  | .finite dyadic =>
      let scaled := roundDiv
        (dyadic.mantissa * Nat.pow 10 places * Nat.pow 2 dyadic.exponent.toNat)
        (Nat.pow 2 (-dyadic.exponent).toNat)
      renderParts number.negative (Expansion.parts ⟨scaled, -(places : Int)⟩)
  | other => renderSpecial number.negative other

end Cellular.Decimal
