import Cellular.Text.Blank
import Cellular.Text.Letter
import Cellular.Text.Lines

/-!
# Sections of a pattern file

A pattern file is a text in sections.  A marker on a line of its own, in any
letter case and between blanks, opens a section, which goes on to the next
marker.  Lines in front of the first marker belong to no section, and of several
sections with one marker the first one counts.
-/

namespace Cellular

open Text

inductive Section where
  | settings
  | states
  | rules
  | neighbors
  | size
  | cells
  deriving DecidableEq, Repr

structure NumberedLine where
  number : Nat
  text : List Char
  deriving DecidableEq, Repr

def numberedLines (text : List Char) : List NumberedLine :=
  (lines text).zipIdx.map fun (line, index) => ⟨index + 1, line⟩

def NumberedLine.isBlank (line : NumberedLine) : Bool := isAllBlank line.text

namespace Section

def all : List Section := [settings, states, rules, neighbors, size, cells]

def marker : Section → String
  | settings => "[ALGORITHM SETTINGS]"
  | states => "[STATES]"
  | rules => "[RULES]"
  | neighbors => "[NEIGHBORS]"
  | size => "[SIZE]"
  | cells => "[CELLS]"

def ofLine? (line : List Char) : Option Section :=
  all.find? fun part => part.marker.toList = (trim line).map Char.toUpper

def isMarker (line : List Char) : Bool := (ofLine? line).isSome

/-- The lines between the first marker of a section and the marker after it. -/
def body? (part : Section) (text : List NumberedLine) :
    Option (List NumberedLine) :=
  match text.dropWhile fun line => ofLine? line.text ≠ some part with
  | [] => none
  | _ :: rest => some (rest.takeWhile fun line => !isMarker line.text)

theorem isMarker_of_mem_body? {part : Section} {text body : List NumberedLine}
    (h : part.body? text = some body) {line : NumberedLine} (hmem : line ∈ body) :
    isMarker line.text = false := by
  simp only [body?] at h
  split at h
  · cases h
  · cases h
    simpa using List.all_eq_true.mp List.all_takeWhile line hmem

end Section

end Cellular
