/-!
# Blocks of the ChaCha stream

A stream of 32-bit words in blocks of sixteen.  A block is a fixed function of
an eight-word key and the block's number: six double rounds of quarter rounds on
a four by four square of words, and the square added to the result.
-/

namespace Cellular.Random

structure Key where
  words : Vector UInt32 8
  deriving DecidableEq, Repr

abbrev Square := Vector UInt32 16

def rotateLeft (word : UInt32) (amount : UInt32) : UInt32 :=
  (word <<< amount) ||| (word >>> (32 - amount))

/-- Adds one entry to a second, and mixes the sum into a third by a rotation. -/
def mixStep (square : Square) (first second third : Fin 16) (amount : UInt32) :
    Square :=
  let sum := square[first] + square[second]
  (square.set first sum).set third (rotateLeft (square[third] ^^^ sum) amount)

def quarterRound (square : Square) (a b c d : Fin 16) : Square :=
  let square := mixStep square a b d 16
  let square := mixStep square c d b 12
  let square := mixStep square a b d 8
  mixStep square c d b 7

def doubleRound (square : Square) : Square :=
  let square := quarterRound square 0 4 8 12
  let square := quarterRound square 1 5 9 13
  let square := quarterRound square 2 6 10 14
  let square := quarterRound square 3 7 11 15
  let square := quarterRound square 0 5 10 15
  let square := quarterRound square 1 6 11 12
  let square := quarterRound square 2 7 8 13
  quarterRound square 3 4 9 14

def doubleRounds : Nat → Square → Square
  | 0, square => square
  | count + 1, square => doubleRounds count (doubleRound square)

/-- Constants, key, block number in two words, and two zeros. -/
def initialSquare (key : Key) (block : UInt64) : Square :=
  let k := key.words
  #v[0x61707865, 0x3320646e, 0x79622d32, 0x6b206574,
    k[0], k[1], k[2], k[3], k[4], k[5], k[6], k[7],
    block.toUInt32, (block >>> 32).toUInt32, 0, 0]

def blockWords (key : Key) (block : UInt64) : List UInt32 :=
  let start := initialSquare key block
  (Vector.zipWith (· + ·) (doubleRounds 6 start) start).toList

end Cellular.Random
