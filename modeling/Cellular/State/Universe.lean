import Cellular.State.Id
import Cellular.State.Name

/-!
# The state universe

`FREE` has identifier 0 and the declared states follow in their order of
declaration.  A `StateUniverse` carries the facts that make names and
identifiers interchangeable: its names are canonical, distinct, different from
`FREE`, and few enough for their positions to be identifiers.
-/

namespace Cellular

open Text

structure StateUniverse where
  userNames : List String
  canonical : ∀ name ∈ userNames, IsCanonicalName name
  distinct : userNames.Nodup
  free_notMem : freeName ∉ userNames
  length_le : userNames.length ≤ declaredStatesMax

namespace StateUniverse

@[ext] theorem ext {first second : StateUniverse}
    (h : first.userNames = second.userNames) : first = second := by
  cases first
  cases second
  cases h
  rfl

instance : DecidableEq StateUniverse := fun first second =>
  if h : first.userNames = second.userNames then isTrue (ext h)
  else isFalse fun heq => h (congrArg userNames heq)

def freeOnly : StateUniverse :=
  ⟨[], by simp, List.nodup_nil, by simp, Nat.zero_le _⟩

def declare (states : StateUniverse) (name : String) :
    Except StateError StateUniverse :=
  match hname : normalizeName name with
  | .error error => .error error
  | .ok canonical =>
      if hfree : canonical = freeName then .error .reservedName
      else if hnew : canonical ∈ states.userNames then
        .error (.duplicate canonical)
      else if hroom : declaredStatesMax ≤ states.userNames.length then
        .error (.tooMany declaredStatesMax)
      else
        .ok {
          userNames := states.userNames ++ [canonical]
          canonical := by
            intro other hmem
            rcases List.mem_append.mp hmem with hold | hlast
            · exact states.canonical other hold
            · rw [List.mem_singleton.mp hlast]
              exact isCanonicalName_of_normalizeName hname
          distinct := by
            refine List.nodup_append.mpr ⟨states.distinct, by simp, ?_⟩
            intro first hfirst second hsecond heq
            rw [List.mem_singleton.mp hsecond] at heq
            exact hnew (heq ▸ hfirst)
          free_notMem := by
            intro hmem
            rcases List.mem_append.mp hmem with hold | hlast
            · exact states.free_notMem hold
            · exact hfree (List.mem_singleton.mp hlast).symm
          length_le := by
            rw [List.length_append, List.length_singleton]
            omega }

def ofNames (names : List String) : Except StateError StateUniverse :=
  names.foldlM declare freeOnly

def names (states : StateUniverse) : List String :=
  freeName :: states.userNames

def size (states : StateUniverse) : Nat := states.names.length

def userCount (states : StateUniverse) : Nat := states.userNames.length

def id? (states : StateUniverse) (name : String) : Option StateId :=
  (states.names.idxOf? (upperCase name)).map StateId.ofIndex

def contains (states : StateUniverse) (name : String) : Bool :=
  (states.id? name).isSome

def name? (states : StateUniverse) (state : StateId) : Option String :=
  states.names[state.index]?

def toList (states : StateUniverse) : List (StateId × String) :=
  states.names.zipIdx.map fun (name, index) => (StateId.ofIndex index, name)

def live (states : StateUniverse) : List (StateId × String) :=
  states.toList.drop 1

end StateUniverse

end Cellular
