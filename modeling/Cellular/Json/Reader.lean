import Cellular.Json.Value

/-!
# Reading JSON

The strict grammar: one value between blanks, no comments, no trailing commas,
no leading zeros, no raw control characters in strings.
-/

namespace Cellular.Json

open Text

def isSpace (c : Char) : Bool :=
  c = ' ' || c = '\t' || c = '\n' || c = '\r'

def skipSpace (text : List Char) : List Char := text.dropWhile isSpace

/-! ## Strings -/

def hexValue? (c : Char) : Option Nat :=
  if c.isDigit then some (c.toNat - '0'.toNat)
  else if 'a' ≤ c ∧ c ≤ 'f' then some (c.toNat - 'a'.toNat + 10)
  else if 'A' ≤ c ∧ c ≤ 'F' then some (c.toNat - 'A'.toNat + 10)
  else none

def isHighSurrogate (unit : Nat) : Bool := 0xD800 ≤ unit && unit ≤ 0xDBFF

def isLowSurrogate (unit : Nat) : Bool := 0xDC00 ≤ unit && unit ≤ 0xDFFF

/-- The characters of a sequence of units.  A high surrogate and the low one
after it are one character; a surrogate alone is none. -/
def charsOfUnits? : List Nat → Option (List Char)
  | [] => some []
  | [unit] =>
      if isHighSurrogate unit || isLowSurrogate unit then none
      else some [Char.ofNat unit]
  | unit :: next :: rest =>
      if isHighSurrogate unit then
        if isLowSurrogate next then
          let point := 0x10000 + (unit - 0xD800) * 0x400 + (next - 0xDC00)
          (charsOfUnits? rest).map (Char.ofNat point :: ·)
        else none
      else if isLowSurrogate unit then none
      else (charsOfUnits? (next :: rest)).map (Char.ofNat unit :: ·)

def escaped? (c : Char) : Option Char :=
  match c with
  | '"' => some '"'
  | '\\' => some '\\'
  | '/' => some '/'
  | 'b' => some '\x08'
  | 'f' => some '\x0c'
  | 'n' => some '\n'
  | 'r' => some '\r'
  | 't' => some '\t'
  | _ => none

def units? : List Char → Option (List Nat × List Char)
  | [] => none
  | '"' :: rest => some ([], rest)
  | '\\' :: 'u' :: a :: b :: c :: d :: rest => do
      let unit := (← hexValue? a) * 4096 + (← hexValue? b) * 256 +
        (← hexValue? c) * 16 + (← hexValue? d)
      let (units, rest) ← units? rest
      some (unit :: units, rest)
  | '\\' :: c :: rest => do
      let plain ← escaped? c
      let (units, rest) ← units? rest
      some (plain.toNat :: units, rest)
  | c :: rest =>
      if c = '\\' ∨ c.toNat < 0x20 then none
      else do
        let (units, rest) ← units? rest
        some (c.toNat :: units, rest)

def string? (text : List Char) : Option (Option String × List Char) := do
  let (units, rest) ← units? text
  some ((charsOfUnits? units).map String.ofList, rest)

/-! ## Numbers -/

def takeDigits (text : List Char) : List Char × List Char :=
  text.span Char.isDigit

def whole? (text : List Char) : Option (List Char × List Char) :=
  match takeDigits text with
  | ([], _) => none
  | ('0' :: _ :: _, _) => none
  | found => some found

def fraction? (text : List Char) : Option (List Char × List Char) :=
  match text with
  | '.' :: rest =>
      match takeDigits rest with
      | ([], _) => none
      | found => some found
  | _ => some ([], text)

def exponent? (text : List Char) :
    Option (Option (Bool × List Char) × List Char) :=
  let signed (rest : List Char) : Bool × List Char :=
    match rest with
    | '-' :: rest => (true, rest)
    | '+' :: rest => (false, rest)
    | _ => (false, rest)
  let read (rest : List Char) :=
    let (negative, rest) := signed rest
    match takeDigits rest with
    | ([], _) => none
    | (digits, rest) => some (some (negative, digits), rest)
  match text with
  | 'e' :: rest => read rest
  | 'E' :: rest => read rest
  | _ => some (none, text)

def numeral? (text : List Char) : Option (Numeral × List Char) := do
  let (negative, text) := match text with
    | '-' :: rest => (true, rest)
    | _ => (false, text)
  let (whole, text) ← whole? text
  let (fraction, text) ← fraction? text
  let (exponent, text) ← exponent? text
  some (⟨negative, whole, fraction, exponent⟩, text)

/-! ## Values -/

mutual

/-- Reads one value after optional blanks.  The fuel only has to exceed twice
the length of the text. -/
def value? : Nat → List Char → Option (Json × List Char)
  | 0, _ => none
  | fuel + 1, text =>
      match skipSpace text with
      | 'n' :: 'u' :: 'l' :: 'l' :: rest => some (.null, rest)
      | 't' :: 'r' :: 'u' :: 'e' :: rest => some (.bool true, rest)
      | 'f' :: 'a' :: 'l' :: 's' :: 'e' :: rest => some (.bool false, rest)
      | '"' :: rest => do
          let (text, rest) ← string? rest
          some (.string text, rest)
      | '[' :: rest =>
          match skipSpace rest with
          | ']' :: rest => some (.array [], rest)
          | rest => do
              let (elements, rest) ← elementsFrom? fuel rest
              some (.array elements, rest)
      | '\x7b' :: rest =>
          match skipSpace rest with
          | '\x7d' :: rest => some (.object [], rest)
          | rest => do
              let (members, rest) ← membersFrom? fuel rest
              some (.object members, rest)
      | rest => do
          let (numeral, rest) ← numeral? rest
          some (.number numeral, rest)

def elementsFrom? : Nat → List Char → Option (List Json × List Char)
  | 0, _ => none
  | fuel + 1, text => do
      let (element, rest) ← value? fuel text
      match skipSpace rest with
      | ',' :: rest =>
          let (elements, rest) ← elementsFrom? fuel rest
          some (element :: elements, rest)
      | ']' :: rest => some ([element], rest)
      | _ => none

def membersFrom? :
    Nat → List Char → Option (List (Option String × Json) × List Char)
  | 0, _ => none
  | fuel + 1, text =>
      match skipSpace text with
      | '"' :: rest => do
          let (name, rest) ← string? rest
          match skipSpace rest with
          | ':' :: rest =>
              let (member, rest) ← value? fuel rest
              match skipSpace rest with
              | ',' :: rest =>
                  let (members, rest) ← membersFrom? fuel rest
                  some ((name, member) :: members, rest)
              | '\x7d' :: rest => some ([(name, member)], rest)
              | _ => none
          | _ => none
      | _ => none

end

def parse? (text : String) : Option Json := do
  let chars := text.toList
  let (value, rest) ← value? (2 * chars.length + 2) chars
  if (skipSpace rest).isEmpty then some value else none

end Cellular.Json
