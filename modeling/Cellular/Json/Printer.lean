import Cellular.Decimal.Shortest
import Cellular.Json.Value

/-!
# Writing JSON

Every element and every member stands on a line of its own, indented by two
blanks a level.  An empty array or object is written without a line break.
Numbers made from doubles have the fewest digits that read back and always a
point; what is no finite number is written as `null`.
-/

namespace Cellular.Json

/-! ## Strings -/

def escape (c : Char) : List Char :=
  match c with
  | '"' => ['\\', '"']
  | '\\' => ['\\', '\\']
  | '\x08' => ['\\', 'b']
  | '\x0c' => ['\\', 'f']
  | '\n' => ['\\', 'n']
  | '\r' => ['\\', 'r']
  | '\t' => ['\\', 't']
  | _ =>
      if c.toNat < 0x20 then
        ['\\', 'u', '0', '0', Nat.digitChar (c.toNat / 16),
          Nat.digitChar (c.toNat % 16)]
      else [c]

def quote (text : String) : String :=
  String.ofList ('"' :: text.toList.flatMap escape ++ ['"'])

/-! ## Values -/

def indentStep : String := "  "

def block (opening closing indent : String) (entries : List String) : String :=
  let inner := indent ++ indentStep
  if entries.isEmpty then opening ++ closing
  else
    opening ++ "\n" ++
      ",\n".intercalate (entries.map fun entry => inner ++ entry) ++
      "\n" ++ indent ++ closing

mutual

def renderAt (indent : String) : Json → String
  | .null => "null"
  | .bool value => if value then "true" else "false"
  | .number numeral => numeral.render
  | .string text => quote (text.getD "")
  | .array elements =>
      block "[" "]" indent (renderElements (indent ++ indentStep) elements)
  | .object members =>
      block "\x7b" "\x7d" indent (renderMembers (indent ++ indentStep) members)

def renderElements (indent : String) : List Json → List String
  | [] => []
  | element :: elements =>
      renderAt indent element :: renderElements indent elements

def renderMembers (indent : String) :
    List (Option String × Json) → List String
  | [] => []
  | (name, member) :: members =>
      (quote (name.getD "") ++ ": " ++ renderAt indent member) ::
        renderMembers indent members

end

def render (value : Json) : String := renderAt "" value

/-! ## Making values -/

def ofString (text : String) : Json := .string (some text)

def ofNat (n : Nat) : Json := .number (.ofNat n)

def ofInt (n : Int) : Json :=
  .number { Numeral.ofNat n.natAbs with negative := n < 0 }

def ofFloat (value : Float) : Json :=
  let number := Decimal.decode value
  match number.magnitude with
  | .finite dyadic =>
      let (whole, fraction) := dyadic.shortest.parts
      .number ⟨number.negative, whole,
        if fraction.isEmpty then ['0'] else fraction, none⟩
  | _ => .null

def ofMembers (members : List (String × Json)) : Json :=
  .object (members.map fun (name, member) => (some name, member))

end Cellular.Json
