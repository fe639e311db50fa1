/-!
# Lines of a text

A line ends at a line feed, and a carriage return that stands just before the
line feed belongs to the line's end.  The last line needs no line feed; a line
feed at the very end opens no further line.
-/

namespace Cellular.Text

def lines : List Char → List (List Char)
  | [] => []
  | '\n' :: rest => [] :: lines rest
  | '\r' :: '\n' :: rest => [] :: lines rest
  | c :: rest =>
      match lines rest with
      | [] => [[c]]
      | line :: others => (c :: line) :: others

def unlines (lines : List (List Char)) : List Char :=
  lines.flatMap fun line => line ++ ['\n']

def linesOf (text : String) : List String :=
  (lines text.toList).map String.ofList

end Cellular.Text
