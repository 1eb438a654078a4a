/-!
# Random draws

A stream of 64-bit numbers that is fixed by a seed.  The seed is spread over a
key of eight words by a congruential generator with permuted output; the
numbers are the words, two by two, of the blocks of a stream cipher with
twelve rounds under that key, block after block.

Fault layers take their numbers from a package for random numbers, whose code is
not at hand.  What stands here is the standard generator as that package documents
it: ChaCha with twelve rounds, and its way to make a key from a seed of 64 bits.
All results on fault layers rest on this, though of the generator they use only that
every draw takes the next number of a stream that the seed determines.
-/

namespace CommandProgram

/-- A key of the stream cipher. -/
abbrev StreamKey := Vector UInt32 8

namespace StreamKey

/-- Turn the bits of a word to the right. -/
def rotateRight (word amount : UInt32) : UInt32 :=
  (word >>> amount) ||| (word <<< ((32 - amount) &&& 31))

/-- One step of the generator that spreads a seed. -/
def advanceSeed (seed : UInt64) : UInt64 :=
  seed * 6364136223846793005 + 11634580027462260723

/-- The word that the generator puts out in a given state. -/
def seedWord (seed : UInt64) : UInt32 :=
  rotateRight (((seed >>> 18) ^^^ seed) >>> 27).toUInt32
    (seed >>> 59).toUInt32

/-- The key of a seed: eight steps, one word each. -/
def ofSeed (seed : UInt64) : StreamKey :=
  let step (words : StreamKey × UInt64) (place : Fin 8) : StreamKey × UInt64 :=
    let next := advanceSeed words.2
    (words.1.set place (seedWord next), next)
  (List.finRange 8 |>.foldl step (Vector.replicate 8 0, seed)).1

end StreamKey

/-- The sixteen words of a cipher block. -/
abbrev StreamBlock := Vector UInt32 16

namespace StreamBlock

/-- Turn the bits of a word to the left. -/
def rotateLeft (word amount : UInt32) : UInt32 :=
  (word <<< amount) ||| (word >>> ((32 - amount) &&& 31))

/-- Mix four words of a block. -/
def quarterRound (block : StreamBlock) (i j k l : Fin 16) : StreamBlock :=
  let a := block[i]
  let b := block[j]
  let c := block[k]
  let d := block[l]
  let a := a + b
  let d := rotateLeft (d ^^^ a) 16
  let c := c + d
  let b := rotateLeft (b ^^^ c) 12
  let a := a + b
  let d := rotateLeft (d ^^^ a) 8
  let c := c + d
  let b := rotateLeft (b ^^^ c) 7
  (((block.set i a).set j b).set k c).set l d

/-- Mix the columns and then the diagonals of a block. -/
def doubleRound (block : StreamBlock) : StreamBlock :=
  let block := block.quarterRound 0 4 8 12
  let block := block.quarterRound 1 5 9 13
  let block := block.quarterRound 2 6 10 14
  let block := block.quarterRound 3 7 11 15
  let block := block.quarterRound 0 5 10 15
  let block := block.quarterRound 1 6 11 12
  let block := block.quarterRound 2 7 8 13
  block.quarterRound 3 4 9 14

/-- The block before mixing: four constants, the key, the number of the block
in two words, and two zeros. -/
def start (key : StreamKey) (number : UInt64) : StreamBlock :=
  #v[0x61707865, 0x3320646e, 0x79622d32, 0x6b206574,
    key[0], key[1], key[2], key[3], key[4], key[5], key[6], key[7],
    number.toUInt32, (number >>> 32).toUInt32, 0, 0]

/-- The block of a given number: twelve rounds, added to the block before
mixing. -/
def ofNumber (key : StreamKey) (number : UInt64) : StreamBlock :=
  let before := start key number
  let mixed := (List.range 6).foldl (fun block _ => doubleRound block) before
  Vector.zipWith (· + ·) mixed before

end StreamBlock

/-- A place in the stream of draws. -/
structure Draws where
  /-- The key of the stream. -/
  key : StreamKey
  /-- How many numbers have been drawn. -/
  used : Nat

namespace Draws

/-- The stream of a seed, from its start. -/
def ofSeed (seed : UInt64) : Draws :=
  ⟨.ofSeed seed, 0⟩

/-- The number at a place of the stream, counted from zero. -/
def number (key : StreamKey) (place : Nat) : UInt64 :=
  let block := StreamBlock.ofNumber key (.ofNat (place / 8))
  let low := block[place % 8 * 2]
  let high := block[place % 8 * 2 + 1]
  low.toUInt64 ||| (high.toUInt64 <<< 32)

/-- The next number, and the stream behind it. -/
def draw (draws : Draws) : UInt64 × Draws :=
  (number draws.key draws.used, ⟨draws.key, draws.used + 1⟩)

end Draws

end CommandProgram
