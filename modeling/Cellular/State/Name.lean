import Cellular.Text.Blank
import Cellular.Text.Letter

/-!
# State names

A declared name is trimmed, checked and written in upper case.  The result is
always a canonical name (`isCanonicalName_of_normalizeName`).
-/

namespace Cellular

open Text

def freeName : String := "FREE"

def declaredStatesMax : Nat := 255

def stateCharsMin : Nat := 1

def stateCharsMax : Nat := 32

inductive StateError where
  | invalidLength (name : String) (least most : Nat)
  | illegalCharacters (name : String)
  | duplicate (name : String)
  | reservedName
  | tooMany (most : Nat)
  deriving DecidableEq, Repr

def StateError.message : StateError → String
  | .invalidLength name least most =>
      "State name '" ++ name ++ "' must be between " ++ toString least ++
        " and " ++ toString most ++ " characters"
  | .illegalCharacters name =>
      "State name '" ++ name ++ "' may only contain letters, digits and '_'"
  | .duplicate name => "State '" ++ name ++ "' is declared more than once"
  | .reservedName => "State name FREE is reserved"
  | .tooMany most => "At most " ++ toString most ++ " states may be declared"

structure IsCanonicalName (name : String) : Prop where
  length_ge : stateCharsMin ≤ name.toList.length
  length_le : name.toList.length ≤ stateCharsMax
  chars : ∀ c ∈ name.toList, isNameChar c = true ∧ c.toUpper = c

/-- Trims a declared name, checks its length before its characters, and writes
it in upper case. -/
def normalizeName (name : String) : Except StateError String :=
  let text := trim name.toList
  if stateCharsMin ≤ text.length ∧ text.length ≤ stateCharsMax then
    if text.all isNameChar then .ok (String.ofList (text.map Char.toUpper))
    else .error (.illegalCharacters (String.ofList text))
  else
    .error (.invalidLength (String.ofList text) stateCharsMin stateCharsMax)

theorem isCanonicalName_of_normalizeName {name canonical : String}
    (h : normalizeName name = .ok canonical) : IsCanonicalName canonical := by
  simp only [normalizeName] at h
  split at h
  · rename_i hlength
    split at h
    · rename_i hchars
      cases h
      refine ⟨by simpa using hlength.1, by simpa using hlength.2, ?_⟩
      intro c hc
      simp only [String.toList_ofList, List.mem_map] at hc
      obtain ⟨d, hd, rfl⟩ := hc
      exact ⟨isNameChar_toUpper (List.all_eq_true.mp hchars d hd),
        toUpper_toUpper d⟩
    · cases h
  · cases h

end Cellular
