/-!
# Paths

A path is a text of components between slashes; the empty pieces between
neighboring slashes are none.  A single dot leads nowhere.  The last component
that leads somewhere names the file, and what follows its last dot is the file's
extension, unless the dot is its first character.
-/

namespace Cellular.Cli

def pathPieces : List Char → List (List Char)
  | [] => [[]]
  | c :: rest =>
      if c = '/' then [] :: pathPieces rest
      else
        match pathPieces rest with
        | [] => [[c]]
        | piece :: pieces => (c :: piece) :: pieces

def components (path : List Char) : List (List Char) :=
  (pathPieces path).filter fun piece => !piece.isEmpty

def here : List Char := ['.']

def above : List Char := ['.', '.']

def isAbsolute (path : List Char) : Bool := path.head? = some '/'

def endsInSlash (path : List Char) : Bool := path.getLast? = some '/'

def fileName? (path : List Char) : Option (List Char) :=
  ((components path).filter (· ≠ here)).getLast?.filter (· ≠ above)

def extension? (path : List Char) : Option (List Char) := do
  let reversed := (← fileName? path).reverse
  match reversed.dropWhile (· ≠ '.') with
  | '.' :: _ :: _ => some (reversed.takeWhile (· ≠ '.')).reverse
  | _ => none

def hasExtension (path extension : String) : Bool :=
  (extension? path.toList).any fun found =>
    found.map Char.toUpper = extension.toList.map Char.toUpper

end Cellular.Cli
