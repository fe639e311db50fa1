import Cellular.Json.Numeral

/-!
# JSON values

Values as they are written: members keep their order and may repeat a name, and
numbers keep their digits.  A string whose escapes name half of a surrogate
pair has no text; it can be skipped but never read.
-/

namespace Cellular

inductive Json where
  | null
  | bool (value : Bool)
  | number (numeral : Json.Numeral)
  | string (text : Option String)
  | array (elements : List Json)
  | object (members : List (Option String × Json))

namespace Json

/-! ## Views -/

def text? : Json → Option String
  | .string text => text
  | _ => none

def bool? : Json → Option Bool
  | .bool value => some value
  | _ => none

def unsigned? (limit : Nat) : Json → Option Nat
  | .number numeral => numeral.unsigned? limit
  | _ => none

def word? (value : Json) : Option Nat := value.unsigned? (Word.modulus - 1)

def int? : Json → Option Int
  | .number numeral => numeral.int?
  | _ => none

def float? : Json → Option Float
  | .number numeral => numeral.toFloat?
  | _ => none

def orNull? {α : Type} (read : Json → Option α) : Json → Option (Option α)
  | .null => some none
  | value => (read value).map some

def elements? : Json → Option (List Json)
  | .array elements => some elements
  | _ => none

def list? {α : Type} (element : Json → Option α) (value : Json) :
    Option (List α) := do
  (← value.elements?).mapM element

def member? (value : Json) (name : String) : Option Json :=
  match value with
  | .object members =>
      (members.find? fun member => member.1 = some name).map Prod.snd
  | _ => none

/-! ## Records

A record is an object with known members, in any order, or the array of its
fields' values in the order of their declaration.  Unknown members are passed
over, a known one that is repeated is an error, and so is an array with too many
elements. -/

def fields? (names : List String) (value : Json) :
    Option (List (Option Json)) :=
  match value with
  | .object members => do
      let labels ← members.mapM Prod.fst
      let known := labels.filter (names.contains ·)
      if known.eraseDups.length < known.length then none
      else some (names.map value.member?)
  | .array elements =>
      if names.length < elements.length then none
      else some (names.mapIdx fun index _ => elements[index]?)
  | _ => none

structure Record where
  values : List (String × Option Json)

def record? (names : List String) (value : Json) : Option Record := do
  some ⟨names.zip (← value.fields? names)⟩

namespace Record

def field? (record : Record) (name : String) : Option Json :=
  (record.values.lookup name).join

def required {α : Type} (record : Record) (name : String)
    (read : Json → Option α) : Option α := do
  read (← record.field? name)

def optional {α : Type} (record : Record) (name : String) (standard : α)
    (read : Json → Option α) : Option α :=
  match record.field? name with
  | none => some standard
  | some value => read value

end Record

/-- The names of an enumeration: a string, or an object with the name as its
only member and `null` as its value. -/
def variant? {α : Type} (ofName? : String → Option α) (value : Json) : Option α :=
  match value with
  | .string (some name) => ofName? name
  | .object [(some name, .null)] => ofName? name
  | _ => none

end Json

end Cellular
