/-!
# Binary fractions

A finite double is a mantissa times a power of two, with a sign.  Decimal texts
of doubles are computed from this exact value.
-/

namespace Cellular.Decimal

/-- The value `mantissa * 2 ^ exponent`. -/
structure Dyadic where
  mantissa : Nat
  exponent : Int
  deriving DecidableEq, Repr

inductive Magnitude where
  | finite (value : Dyadic)
  | infinite
  | undefined
  deriving DecidableEq, Repr

structure Signed where
  negative : Bool
  magnitude : Magnitude
  deriving DecidableEq, Repr

def exponentMin : Int := -1074

def mantissaTop : Nat := 4503599627370496

def decodeBits (bits : Nat) : Signed :=
  let negative := Nat.pow 2 63 ≤ bits
  let field := bits / mantissaTop % 2048
  let fraction := bits % mantissaTop
  let magnitude :=
    if field = 2047 then
      if fraction = 0 then Magnitude.infinite else .undefined
    else if field = 0 then .finite ⟨fraction, exponentMin⟩
    else .finite ⟨mantissaTop + fraction, exponentMin + (field - 1 : Nat)⟩
  ⟨negative, magnitude⟩

def decode (value : Float) : Signed := decodeBits value.toBits.toNat

end Cellular.Decimal
