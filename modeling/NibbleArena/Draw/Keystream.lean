import NibbleArena.Draw

/-! # The keystream — words from a seed

    The words are the ChaCha keystream with six double rounds: blocks of sixteen
    words, each computed from four constants, the eight words of the key, a
    counter of 64 bits that starts at zero, and two zero words.  The key is
    expanded from a seed of 64 bits by a linear congruential generator whose
    outputs are permuted (xorshift, then a rotation).

    The counter comes back to zero after 2^64 blocks, so the stream repeats
    itself after 2^68 words; a choice need not look further. -/

namespace NibbleArena

namespace ChaCha

/-- The sixteen words that a block is computed on. -/
abbrev Block := Vector UInt32 16

/-- A word rotated left by `k` bits, `0 < k < 32`. -/
def rotateLeft (w : UInt32) (k : UInt32) : UInt32 := (w <<< k) ||| (w >>> (32 - k))

/-- The quarter round on four of the words. -/
def quarterRound (s : Block) (i j k l : Fin 16) : Block :=
  let a := s[i]
  let b := s[j]
  let c := s[k]
  let d := s[l]
  let a := a + b
  let d := rotateLeft (d ^^^ a) 16
  let c := c + d
  let b := rotateLeft (b ^^^ c) 12
  let a := a + b
  let d := rotateLeft (d ^^^ a) 8
  let c := c + d
  let b := rotateLeft (b ^^^ c) 7
  (((s.set i a).set j b).set k c).set l d

/-- Quarter rounds on the columns, then on the diagonals. -/
def doubleRound (s : Block) : Block :=
  let s := quarterRound s 0 4 8 12
  let s := quarterRound s 1 5 9 13
  let s := quarterRound s 2 6 10 14
  let s := quarterRound s 3 7 11 15
  let s := quarterRound s 0 5 10 15
  let s := quarterRound s 1 6 11 12
  let s := quarterRound s 2 7 8 13
  quarterRound s 3 4 9 14

/-- `n` double rounds. -/
def doubleRounds : Nat → Block → Block
  | 0, s => s
  | n + 1, s => doubleRounds n (doubleRound s)

/-- The block before its rounds. -/
def initial (key : Vector UInt32 8) (counter : UInt64) : Block :=
  #v[0x61707865, 0x3320646e, 0x79622d32, 0x6b206574,
    key[0], key[1], key[2], key[3], key[4], key[5], key[6], key[7],
    counter.toUInt32, (counter >>> 32).toUInt32, 0, 0]

/-- The words of a block of the keystream. -/
def block (key : Vector UInt32 8) (counter : UInt64) : List UInt32 :=
  let s := initial key counter
  (Vector.zipWith (· + ·) s (doubleRounds 6 s)).toList

end ChaCha

namespace SeedExpansion

/-- The next state of the generator. -/
def advance (state : UInt64) : UInt64 := state * 6364136223846793005 + 11634580027462260723

/-- The word that a state gives. -/
def wordOf (state : UInt64) : UInt32 :=
  let x := (((state >>> 18) ^^^ state) >>> 27).toUInt32
  let k := (state >>> 59).toUInt32
  (x >>> k) ||| (x <<< (32 - k))

/-- The states after a seed. -/
def states (seed : UInt64) : Vector UInt64 8 :=
  let s0 := advance seed
  let s1 := advance s0
  let s2 := advance s1
  let s3 := advance s2
  let s4 := advance s3
  let s5 := advance s4
  let s6 := advance s5
  #v[s0, s1, s2, s3, s4, s5, s6, advance s6]

/-- The key that a seed stands for. -/
def key (seed : UInt64) : Vector UInt32 8 := (states seed).map wordOf

end SeedExpansion

/-- A place in the keystream of a key. -/
structure Keystream where
  key : Vector UInt32 8
  /-- The counter of the next block. -/
  counter : UInt64
  /-- The words of the current block that were not taken yet. -/
  pending : List UInt32
  deriving DecidableEq

namespace Keystream

/-- The beginning of the keystream of a seed. -/
def ofSeed (seed : UInt64) : Keystream := ⟨SeedExpansion.key seed, 0, []⟩

/-- Takes a word. -/
def next : Keystream → UInt32 × Keystream
  | ⟨key, counter, w :: rest⟩ => (w, ⟨key, counter, rest⟩)
  | ⟨key, counter, []⟩ =>
    match ChaCha.block key counter with
    | [] => (0, ⟨key, counter + 1, []⟩)
    | w :: rest => (w, ⟨key, counter + 1, rest⟩)

instance : WordSource Keystream where
  next := next
  patience _ := 16 * UInt64.size

end Keystream

end NibbleArena
