import Cellular.Text.Numeral
import Cellular.Word

/-!
# Numerals of JSON

A numeral is kept as it is written, because an unsigned field takes integer
literals alone.  Its floating-point value is computed from a 64-bit significand
and a decimal exponent with one multiplication or division by a power of ten:
digits that no longer fit into the significand only count towards the exponent
before the point and are ignored after it.
-/

namespace Cellular.Json

open Text

structure Numeral where
  negative : Bool
  whole : List Char
  /-- The digits after the point; none when there is no point. -/
  fraction : List Char
  exponent : Option (Bool × List Char)
  deriving DecidableEq, Repr

namespace Numeral

/-! ## Integers -/

def isInteger (numeral : Numeral) : Bool :=
  numeral.fraction.isEmpty && numeral.exponent.isNone

def unsigned? (numeral : Numeral) (limit : Nat) : Option Nat :=
  if numeral.negative || !numeral.isInteger then none
  else (some (digitsValue numeral.whole)).filter (· ≤ limit)

def int? (numeral : Numeral) : Option Int :=
  if numeral.isInteger then
    let magnitude : Int := digitsValue numeral.whole
    some (if numeral.negative then -magnitude else magnitude)
  else none

def ofNat (n : Nat) : Numeral := ⟨false, Nat.toDigits 10 n, [], none⟩

/-! ## Floating-point values -/

/-- Appends digits to a significand while it stays a 64-bit word.  The digits
that do not fit are left over. -/
def accumulate (significand : Nat) : List Char → Nat × List Char
  | [] => (significand, [])
  | c :: rest =>
      let next := significand * 10 + digitValue c
      if next < Word.modulus then accumulate next rest
      else (significand, c :: rest)

def powerMax : Nat := 308

def powerOfTen (exponent : Nat) : Float := Float.ofScientific 1 false exponent

/-- A value times a power of ten, in steps of at most `powerMax`; no value when
the result is too large.  After a few steps down every value is zero. -/
def scale : Nat → Float → Int → Option Float
  | 0, value, _ => some value
  | fuel + 1, value, exponent =>
      if exponent.natAbs ≤ powerMax then
        if 0 ≤ exponent then
          let scaled := value * powerOfTen exponent.natAbs
          if scaled.isInf then none else some scaled
        else some (value / powerOfTen exponent.natAbs)
      else if value == 0 then some value
      else if 0 ≤ exponent then none
      else scale fuel (value / powerOfTen powerMax) (exponent + powerMax)

def exponentMax : Nat := 2147483647

def clampExponent (exponent : Int) : Int :=
  max (-2147483648) (min 2147483647 exponent)

def magnitude? (numeral : Numeral) : Option Float :=
  let (wholePart, wholeLeft) := accumulate 0 numeral.whole
  let (significand, fractionLeft) := accumulate wholePart numeral.fraction
  let start : Int :=
    wholeLeft.length - (numeral.fraction.length - fractionLeft.length : Nat)
  let value := significand.toUInt64.toFloat
  match numeral.exponent with
  | none =>
      if numeral.fraction.isEmpty && wholeLeft.isEmpty then some value
      else scale 8 value start
  | some (negative, digits) =>
      let shift := digitsValue digits
      if exponentMax < shift then
        if significand ≠ 0 ∧ !negative then none else some 0
      else
        scale 8 value
          (clampExponent (if negative then start - shift else start + shift))

def toFloat? (numeral : Numeral) : Option Float :=
  (numeral.magnitude?).map fun value =>
    if numeral.negative then -value else value

/-! ## Text -/

def render (numeral : Numeral) : String :=
  let sign := if numeral.negative then ['-'] else []
  let fraction :=
    if numeral.fraction.isEmpty then [] else '.' :: numeral.fraction
  let exponent := match numeral.exponent with
    | none => []
    | some (negative, digits) =>
        'e' :: ((if negative then ['-'] else []) ++ digits)
  String.ofList (sign ++ numeral.whole ++ fraction ++ exponent)

end Numeral

end Cellular.Json
