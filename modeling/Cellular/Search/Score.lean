/-!
# Fitness scores

A score is kept as the 64-bit word of a double, so that it has a place in two
orders.  The total order sorts every score, undefined ones too.  The comparison
`exceeds` is that of numbers: it is false of an undefined score, and both zeros
are equal.  A computation without a defined result gives the undefined score
that comes before all others in the total order.
-/

namespace Cellular

structure Score where
  bits : UInt64
  deriving DecidableEq, Repr

namespace Score

def signBit : Nat := 9223372036854775808

def infinity : Nat := 9218868437227405312

def ofFloat (value : Float) : Score :=
  if value.isNaN then ⟨0xFFF8000000000000⟩ else ⟨value.toBits⟩

def toFloat (score : Score) : Float := Float.ofBits score.bits

def one : Score := ⟨0x3FF0000000000000⟩

def isNegative (score : Score) : Bool := signBit ≤ score.bits.toNat

def magnitude (score : Score) : Nat := score.bits.toNat % signBit

def isUndefined (score : Score) : Bool := infinity < score.magnitude

def place (score : Score) : Int :=
  if score.isNegative then -(score.magnitude : Int) - 1 else score.magnitude

/-- The place among numbers; both zeros share one. -/
def level (score : Score) : Int :=
  if score.isNegative then -(score.magnitude : Int) else score.magnitude

def exceeds (score other : Score) : Bool :=
  !score.isUndefined && !other.isUndefined && other.level < score.level

end Score

end Cellular
