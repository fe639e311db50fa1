import Cellular.Decimal.Dyadic

/-!
# Shortest decimals

The text of a double is the decimal with the fewest digits among those that
read back as the same double, and the nearest of these to its value; of two that
are equally near it is the one farther from zero.  It never has an exponent, and
whole numbers have no point.
-/

namespace Cellular.Decimal

structure Expansion where
  digits : Nat
  exponent : Int
  deriving DecidableEq, Repr

/-- The bounds of the numbers that are rounded to a double, in units of a
quarter of its last place, and whether the bounds belong to them. -/
structure Interval where
  lower : Nat
  upper : Nat
  closed : Bool
  deriving DecidableEq, Repr

def Dyadic.interval (value : Dyadic) : Interval :=
  let center := 4 * value.mantissa
  let narrow :=
    value.mantissa = mantissaTop && decide (exponentMin < value.exponent)
  ⟨if narrow then center - 1 else center - 2, center + 2,
    value.mantissa % 2 = 0⟩

/-- The multiple of `10 ^ exponent` that is nearest to the value among those in
its interval, and the upper one of two that are equally near.  Only the two
neighbors of the value can be nearest. -/
def Dyadic.nearestOn? (value : Dyadic) (exponent : Int) : Option Expansion :=
  let step := Nat.pow 10 exponent.toNat * Nat.pow 2 (2 - value.exponent).toNat
  let unit := Nat.pow 10 (-exponent).toNat * Nat.pow 2 (value.exponent - 2).toNat
  let interval := value.interval
  let center := 4 * value.mantissa * unit
  let inside (multiple : Nat) : Bool :=
    let place := multiple * step
    if interval.closed then
      interval.lower * unit ≤ place && place ≤ interval.upper * unit
    else interval.lower * unit < place && place < interval.upper * unit
  let below := center / step
  let above := below + 1
  if inside below && below ≠ 0 then
    if inside above &&
        above * step - center ≤ center - below * step then
      some ⟨above, exponent⟩
    else some ⟨below, exponent⟩
  else if inside above then some ⟨above, exponent⟩
  else none

/-- Tries finer and finer grids; the first one with a hit has the fewest
digits. -/
def Dyadic.shortestFrom (value : Dyadic) : Nat → Int → Expansion
  | 0, exponent => ⟨0, exponent⟩
  | fuel + 1, exponent =>
      match value.nearestOn? exponent with
      | some decimal => decimal
      | none => value.shortestFrom fuel (exponent - 1)

def Dyadic.wholeDigits (value : Dyadic) : Nat :=
  let whole :=
    value.mantissa * Nat.pow 2 value.exponent.toNat /
      Nat.pow 2 (-value.exponent).toNat
  (Nat.toDigits 10 whole).length

/-- No double needs more than 18 grids past its first digit, and the first digit
of the smallest one is the 324th after the point. -/
def Dyadic.shortest (value : Dyadic) : Expansion :=
  if value.mantissa = 0 then ⟨0, 0⟩
  else value.shortestFrom 360 value.wholeDigits

def Expansion.parts (decimal : Expansion) : List Char × List Char :=
  let digits := Nat.toDigits 10 decimal.digits
  if 0 ≤ decimal.exponent then
    (digits ++ List.replicate decimal.exponent.toNat '0', [])
  else
    let places := (-decimal.exponent).toNat
    let padded := List.replicate (places + 1 - digits.length) '0' ++ digits
    (padded.take (padded.length - places), padded.drop (padded.length - places))

def renderParts (negative : Bool) (parts : List Char × List Char) : String :=
  let sign := if negative then ['-'] else []
  let fraction := if parts.2.isEmpty then [] else '.' :: parts.2
  String.ofList (sign ++ parts.1 ++ fraction)

def renderSpecial (negative : Bool) : Magnitude → String
  | .undefined => "NaN"
  | _ => if negative then "-inf" else "inf"

def shortest (value : Float) : String :=
  let number := decode value
  match number.magnitude with
  | .finite dyadic => renderParts number.negative dyadic.shortest.parts
  | other => renderSpecial number.negative other

end Cellular.Decimal
