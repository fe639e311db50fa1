/-!
# Machine words

Grid extents, areas and coordinates are 64-bit words.  Extents are unsigned and
coordinates are signed.  A conversion takes any number to the word that is congruent
to it (`signed`, `unsigned`).  A sum, a product or a quotient has no value where it
leaves the range of its words (`toSigned?`, `toUnsigned?`), and then neither has the
computation that it is a part of.
-/

namespace Cellular.Word

def modulus : Nat := 18446744073709551616

def signedBound : Nat := 9223372036854775808

/-- Whether a number is far inside the signed range.  It is its own word then, and
no long arithmetic is needed to tell so. -/
def isShort (n : Int) : Bool := -1073741824 ≤ n && n < 1073741824

/-! ## Conversions -/

def signed (n : Int) : Int :=
  if isShort n then n else Int.bmod n modulus

def unsigned (n : Int) : Nat := (n % (modulus : Int)).toNat

/-! ## Results of operations -/

def toSigned? (n : Int) : Option Int :=
  if isShort n || (-signedBound ≤ n && n < signedBound) then some n else none

def toUnsigned? (n : Int) : Option Nat :=
  if 0 ≤ n && n < modulus then some n.toNat else none

def quotient? (n divisor : Int) : Option Int :=
  if divisor = 0 then none else toSigned? (n.tdiv divisor)

def remainder? (n divisor : Int) : Option Int :=
  (quotient? n divisor).map fun _ => n.tmod divisor

/-! ## Numbers in range -/

variable {n : Int} {index : Nat}

theorem signedBound_lt_modulus : signedBound < modulus := by decide

theorem signed_eq_bmod (n : Int) : signed n = Int.bmod n modulus := by
  unfold signed
  split
  · rename_i h
    simp only [isShort, Bool.and_eq_true, decide_eq_true_eq] at h
    simp only [Int.bmod_def, modulus]
    split <;> omega
  · rfl

theorem signed_eq_self (lower : -signedBound ≤ n) (upper : n < signedBound) :
    signed n = n := by
  simp only [signed_eq_bmod, Int.bmod_def, modulus, signedBound] at *
  split <;> omega

theorem signed_natCast (h : index < signedBound) : signed index = index := by
  refine signed_eq_self ?_ (Int.ofNat_lt.mpr h)
  unfold signedBound
  omega

theorem signed_bounds (n : Int) :
    -signedBound ≤ signed n ∧ signed n < signedBound := by
  simp only [signed_eq_bmod, Int.bmod_def, modulus, signedBound]
  split <;> omega

theorem unsigned_eq_toNat (lower : 0 ≤ n) (upper : n < signedBound) :
    unsigned n = n.toNat := by
  unfold unsigned signedBound modulus at *
  omega

theorem toSigned?_eq_some_iff {value : Int} :
    toSigned? n = some value ↔
      (-signedBound ≤ n ∧ n < signedBound) ∧ n = value := by
  unfold toSigned? isShort signedBound
  split
  · rename_i h
    simp only [Bool.or_eq_true, Bool.and_eq_true, decide_eq_true_eq] at h
    rw [Option.some.injEq, and_iff_right (by omega)]
  · rename_i h
    simp only [Bool.or_eq_true, Bool.and_eq_true, decide_eq_true_eq] at h
    constructor
    · intro hnone
      cases hnone
    · omega

theorem toSigned?_eq_some (lower : -signedBound ≤ n) (upper : n < signedBound) :
    toSigned? n = some n :=
  toSigned?_eq_some_iff.mpr ⟨⟨lower, upper⟩, rfl⟩

theorem toSigned?_natCast (h : index < signedBound) :
    toSigned? index = some (index : Int) := by
  refine toSigned?_eq_some ?_ (Int.ofNat_lt.mpr h)
  unfold signedBound
  omega

theorem toUnsigned?_natCast_eq_some_iff {value : Nat} :
    toUnsigned? index = some value ↔ index < modulus ∧ index = value := by
  simp [toUnsigned?]

theorem toUnsigned?_natCast (h : index < modulus) : toUnsigned? index = some index :=
  toUnsigned?_natCast_eq_some_iff.mpr ⟨h, rfl⟩

theorem toUnsigned?_natCast_eq_none (h : modulus ≤ index) :
    toUnsigned? index = none := by
  simp [toUnsigned?, h]

end Cellular.Word
