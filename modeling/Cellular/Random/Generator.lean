import Cellular.Random.Block
import Cellular.Random.Draws
import Cellular.Word

/-!
# The seeded generator

A generator expands a 64-bit seed into a key and reads the key's stream of words
from its beginning.  Numbers below a bound come from the high half of a product,
and a draw is repeated while the low half lies in the incomplete last zone, so
every number is equally likely.
-/

namespace Cellular.Random

/-! ## Keys from seeds -/

def advanceSeed (state : UInt64) : UInt64 :=
  state * 6364136223846793005 + 11634580027462260723

def keyWord (state : UInt64) : UInt32 :=
  let mixed := (((state >>> 18) ^^^ state) >>> 27).toUInt32
  let amount := (state >>> 59).toUInt32
  (mixed >>> amount) ||| (mixed <<< ((32 - amount) % 32))

def Key.ofSeed (seed : UInt64) : Key :=
  let s0 := advanceSeed seed
  let s1 := advanceSeed s0
  let s2 := advanceSeed s1
  let s3 := advanceSeed s2
  let s4 := advanceSeed s3
  let s5 := advanceSeed s4
  let s6 := advanceSeed s5
  let s7 := advanceSeed s6
  ⟨#v[keyWord s0, keyWord s1, keyWord s2, keyWord s3,
    keyWord s4, keyWord s5, keyWord s6, keyWord s7]⟩

/-! ## The stream -/

/-- A place in a key's stream: the next block and the words still to be read
before it. -/
structure Generator where
  key : Key
  block : UInt64
  pending : List UInt32
  deriving DecidableEq, Repr

namespace Generator

def ofSeed (seed : UInt64) : Generator := ⟨Key.ofSeed seed, 0, []⟩

def nextWord (generator : Generator) : UInt32 × Generator :=
  match generator.pending with
  | word :: pending => (word, { generator with pending := pending })
  | [] =>
      match blockWords generator.key generator.block with
      | word :: pending =>
          (word, { generator with
            block := generator.block + 1
            pending := pending })
      | [] => (0, generator)

def nextDouble (generator : Generator) : UInt64 × Generator :=
  let (low, generator) := generator.nextWord
  let (high, generator) := generator.nextWord
  (low.toUInt64 ||| (high.toUInt64 <<< 32), generator)

def nextUnit (generator : Generator) : Float × Generator :=
  let (word, generator) := generator.nextDouble
  ((word >>> 11).toFloat * Float.ofBits 0x3CA0000000000000, generator)

/-- The last low half that is accepted for a range: the range shifted up as far
as it goes, less one. -/
def zone (range : Nat) : Nat :=
  range * Nat.pow 2 (63 - range.log2) % Word.modulus - 1

/-- How often a draw is repeated before the last one is taken as it is.  More
than every second draw is accepted. -/
def attemptsMax : Nat := 4096

def nextBelowFrom (range : Nat) : Nat → Generator → Nat × Generator
  | 0, generator =>
      let (word, generator) := generator.nextDouble
      (word.toNat * range / Word.modulus, generator)
  | attempts + 1, generator =>
      let (word, generator) := generator.nextDouble
      let product := word.toNat * range
      if product % Word.modulus ≤ zone range then
        (product / Word.modulus, generator)
      else nextBelowFrom range attempts generator

def nextBelow (generator : Generator) (range : Nat) : Nat × Generator :=
  nextBelowFrom range attemptsMax generator

theorem nextBelowFrom_lt {range : Nat} (h : 0 < range) (attempts : Nat)
    (generator : Generator) :
    (nextBelowFrom range attempts generator).1 < range := by
  have hproduct : ∀ word : UInt64,
      word.toNat * range / Word.modulus < range := by
    intro word
    have hword : word.toNat < Word.modulus := word.toNat_lt
    exact (Nat.div_lt_iff_lt_mul (by decide)).mpr
      (by rw [Nat.mul_comm range]; exact Nat.mul_lt_mul_of_pos_right hword h)
  induction attempts generalizing generator with
  | zero => exact hproduct _
  | succ attempts ih =>
      simp only [nextBelowFrom]
      split
      · exact hproduct _
      · exact ih _

def draws : Draws Generator where
  unit := nextUnit
  below := nextBelow
  below_lt generator _ h := nextBelowFrom_lt h attemptsMax generator

end Generator

end Cellular.Random
