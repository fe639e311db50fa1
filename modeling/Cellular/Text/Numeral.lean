/-!
# Decimal numerals

An unsigned numeral is one optional plus sign and at least one decimal digit;
a signed numeral may have a minus sign instead.  Leading zeros are allowed.  A
numeral whose value leaves the stated range is refused.
-/

namespace Cellular.Text

def digitValue (c : Char) : Nat := c.toNat - '0'.toNat

def digitsValue (digits : List Char) : Nat :=
  digits.foldl (fun value c => 10 * value + digitValue c) 0

def digits? (text : List Char) : Option Nat :=
  if text.isEmpty || !text.all Char.isDigit then none
  else some (digitsValue text)

def unsigned? (limit : Nat) (text : List Char) : Option Nat :=
  let digits := match text with
    | '+' :: rest => rest
    | _ => text
  (digits? digits).filter (· ≤ limit)

def signed? (limit : Nat) (text : List Char) : Option Int :=
  match text with
  | '-' :: rest =>
      ((digits? rest).filter (· ≤ limit + 1)).map fun value => -(value : Int)
  | _ => (unsigned? limit text).map fun value => (value : Int)

end Cellular.Text
