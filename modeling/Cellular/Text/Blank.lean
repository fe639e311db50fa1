/-!
# Blank characters

The characters of the Unicode property `White_Space`, trimming, and the split
of a text into its words.  A word is a maximal run without blanks, so no word
is empty and no blank belongs to a word.
-/

namespace Cellular.Text

/-- The code points of `White_Space`, as closed ranges in increasing order. -/
def blankRanges : List (Nat × Nat) :=
  [(0x9, 0xD), (0x20, 0x20), (0x85, 0x85), (0xA0, 0xA0), (0x1680, 0x1680),
    (0x2000, 0x200A), (0x2028, 0x2029), (0x202F, 0x202F), (0x205F, 0x205F),
    (0x3000, 0x3000)]

def isBlank (c : Char) : Bool :=
  blankRanges.any fun (first, last) => first ≤ c.toNat && c.toNat ≤ last

def trimStart (text : List Char) : List Char := text.dropWhile isBlank

def trimEnd (text : List Char) : List Char :=
  (text.reverse.dropWhile isBlank).reverse

def trim (text : List Char) : List Char := trimEnd (trimStart text)

def isAllBlank (text : List Char) : Bool := text.all isBlank

def words : List Char → List (List Char)
  | [] => []
  | c :: rest =>
      if isBlank c then words rest
      else
        match rest.head?.map isBlank, words rest with
        | some false, word :: others => (c :: word) :: others
        | _, others => [c] :: others

end Cellular.Text
