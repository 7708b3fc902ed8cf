/-!
A stream of 32-bit words from a 64-bit seed: the seed is spread over a 256-bit key, and the words are the blocks of
ChaCha with twelve rounds under that key, in order. Word `n` is a function of the key and of `n` alone.
-/

namespace Chip8.Random.ChaCha

/-- The sixteen words a block is made from. -/
abbrev Block := Vector UInt32 16

/-! ## The key -/

/-- Rotates a word right; the amount is taken modulo 32. -/
def rotateRight (x n : UInt32) : UInt32 := (x >>> n) ||| (x <<< (32 - n))

/-- One step of the linear congruential generator that spreads a seed. -/
def spread (state : UInt64) : UInt64 := state * 6364136223846793005 + 11634580027462260723

/-- The state after `n` steps from a seed. -/
def spreadBy (seed : UInt64) : Nat → UInt64
  | 0 => seed
  | n + 1 => spread (spreadBy seed n)

/-- The word that a state gives: its high bits folded, then rotated by its five highest. -/
def permute (state : UInt64) : UInt32 :=
  rotateRight (((state >>> 18) ^^^ state) >>> 27).toUInt32 (state >>> 59).toUInt32

/-- The key of a seed: the words of its first eight successors. -/
def key (seed : UInt64) : Vector UInt32 8 := Vector.ofFn fun i => permute (spreadBy seed (i + 1))

/-! ## Blocks -/

/-- Rotates a word left by `n` places, `0 < n < 32`. -/
def rotateLeft (x n : UInt32) : UInt32 := (x <<< n) ||| (x >>> (32 - n))

/-- Mixes four words of a block. -/
def quarterRound (s : Block) (a b c d : Fin 16) : Block :=
  let s := s.set a (s[a] + s[b])
  let s := s.set d (rotateLeft (s[d] ^^^ s[a]) 16)
  let s := s.set c (s[c] + s[d])
  let s := s.set b (rotateLeft (s[b] ^^^ s[c]) 12)
  let s := s.set a (s[a] + s[b])
  let s := s.set d (rotateLeft (s[d] ^^^ s[a]) 8)
  let s := s.set c (s[c] + s[d])
  s.set b (rotateLeft (s[b] ^^^ s[c]) 7)

/-- Two rounds: the four columns, then the four diagonals. -/
def doubleRound (s : Block) : Block :=
  let s := quarterRound s 0 4 8 12
  let s := quarterRound s 1 5 9 13
  let s := quarterRound s 2 6 10 14
  let s := quarterRound s 3 7 11 15
  let s := quarterRound s 0 5 10 15
  let s := quarterRound s 1 6 11 12
  let s := quarterRound s 2 7 8 13
  quarterRound s 3 4 9 14

/-- `count` double rounds. -/
def doubleRounds (s : Block) : Nat → Block
  | 0 => s
  | count + 1 => doubleRounds (doubleRound s) count

/-- The words that every block starts with. -/
def constants : Vector UInt32 4 := #v[0x61707865, 0x3320646e, 0x79622d32, 0x6b206574]

/-- The block of a key before its rounds: constants, key, block number, and an empty stream number. -/
def start (key : Vector UInt32 8) (number : UInt64) : Block :=
  constants ++ key ++ #v[number.toUInt32, (number >>> 32).toUInt32, 0, 0]

/-- Block `number`: twelve rounds, then the start added back. -/
def block (key : Vector UInt32 8) (number : UInt64) : Block :=
  (doubleRounds (start key number) 6).zipWith (· + ·) (start key number)

/-- Word `n` of the stream of a key. -/
def word (key : Vector UInt32 8) (n : Nat) : UInt32 :=
  (block key (UInt64.ofNat (n / 16)))[n % 16]

end Chip8.Random.ChaCha
