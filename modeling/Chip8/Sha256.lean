/-!
The SHA-256 digest. Widths are in the types: a block is sixteen words, a schedule sixty-four, a chaining value eight
and a digest thirty-two bytes, so no index here can be out of bounds.
-/

namespace Chip8.Sha256

/-- The fractional parts of the cube roots of the first sixty-four primes. -/
def roundConstants : Vector UInt32 64 := #v[
  0x428a2f98, 0x71374491, 0xb5c0fbcf, 0xe9b5dba5, 0x3956c25b, 0x59f111f1, 0x923f82a4, 0xab1c5ed5,
  0xd807aa98, 0x12835b01, 0x243185be, 0x550c7dc3, 0x72be5d74, 0x80deb1fe, 0x9bdc06a7, 0xc19bf174,
  0xe49b69c1, 0xefbe4786, 0x0fc19dc6, 0x240ca1cc, 0x2de92c6f, 0x4a7484aa, 0x5cb0a9dc, 0x76f988da,
  0x983e5152, 0xa831c66d, 0xb00327c8, 0xbf597fc7, 0xc6e00bf3, 0xd5a79147, 0x06ca6351, 0x14292967,
  0x27b70a85, 0x2e1b2138, 0x4d2c6dfc, 0x53380d13, 0x650a7354, 0x766a0abb, 0x81c2c92e, 0x92722c85,
  0xa2bfe8a1, 0xa81a664b, 0xc24b8b70, 0xc76c51a3, 0xd192e819, 0xd6990624, 0xf40e3585, 0x106aa070,
  0x19a4c116, 0x1e376c08, 0x2748774c, 0x34b0bcb5, 0x391c0cb3, 0x4ed8aa4a, 0x5b9cca4f, 0x682e6ff3,
  0x748f82ee, 0x78a5636f, 0x84c87814, 0x8cc70208, 0x90befffa, 0xa4506ceb, 0xbef9a3f7, 0xc67178f2]

/-- The fractional parts of the square roots of the first eight primes: the chaining value before any block. -/
def initial : Vector UInt32 8 := #v[
  0x6a09e667, 0xbb67ae85, 0x3c6ef372, 0xa54ff53a, 0x510e527f, 0x9b05688c, 0x1f83d9ab, 0x5be0cd19]

/-- Rotates a word right by `n` places, `0 < n < 32`. -/
def rotateRight (x n : UInt32) : UInt32 := (x >>> n) ||| (x <<< (32 - n))

/-- How the schedule mixes the word fifteen back. -/
def smallSigma0 (x : UInt32) : UInt32 := rotateRight x 7 ^^^ rotateRight x 18 ^^^ (x >>> 3)

/-- How the schedule mixes the word two back. -/
def smallSigma1 (x : UInt32) : UInt32 := rotateRight x 17 ^^^ rotateRight x 19 ^^^ (x >>> 10)

/-- How a round mixes its first working word. -/
def bigSigma0 (x : UInt32) : UInt32 := rotateRight x 2 ^^^ rotateRight x 13 ^^^ rotateRight x 22

/-- How a round mixes its fifth working word. -/
def bigSigma1 (x : UInt32) : UInt32 := rotateRight x 6 ^^^ rotateRight x 11 ^^^ rotateRight x 25

/-- Each bit of `y` where `x` has a one, of `z` where it has a zero. -/
def choose (x y z : UInt32) : UInt32 := (x &&& y) ^^^ (~~~x &&& z)

/-- Each bit as most of the three words have it. -/
def majority (x y z : UInt32) : UInt32 := (x &&& y) ^^^ (x &&& z) ^^^ (y &&& z)

/-- The first `count` words of the message schedule: the block's own sixteen, then the recurrence. -/
def schedule (block : Vector UInt32 16) : (count : Nat) → Vector UInt32 count
  | 0 => #v[]
  | n + 1 =>
    let words := schedule block n
    words.push <|
      if h : n < 16 then block[n]
      else smallSigma1 words[n - 2] + words[n - 7] + smallSigma0 words[n - 15] + words[n - 16]

/-- One round over the eight working words, with its constant and its schedule word. -/
def round (v : Vector UInt32 8) (constant word : UInt32) : Vector UInt32 8 :=
  let t1 := v[7] + bigSigma1 v[4] + choose v[4] v[5] v[6] + constant + word
  let t2 := bigSigma0 v[0] + majority v[0] v[1] v[2]
  #v[t1 + t2, v[0], v[1], v[2], v[3] + t1, v[4], v[5], v[6]]

/-- The chaining value after one more block. -/
def compress (chain : Vector UInt32 8) (block : Vector UInt32 16) : Vector UInt32 8 :=
  let words := schedule block 64
  let worked := (List.finRange 64).foldl (fun v i => round v roundConstants[i] words[i]) chain
  chain.zipWith (· + ·) worked

/-- How many zero bytes bring a message of `size` bytes, its end mark and its length to whole blocks. -/
def paddingZeros (size : Nat) : Nat := (119 - size % 64) % 64

/-- The message, the end mark, zeros, and the length in bits as eight bytes. -/
def pad (message : Array UInt8) : Array UInt8 :=
  let bits := UInt64.ofNat (8 * message.size)
  message.push 0x80 ++ Array.replicate (paddingZeros message.size) 0
    ++ Array.ofFn fun i : Fin 8 => (bits >>> UInt64.ofNat (8 * (7 - i))).toUInt8

/-- The big-endian word of the four bytes from `start`. -/
def wordAt (bytes : Array UInt8) (start : Nat) : UInt32 :=
  ((bytes.getD start 0).toUInt32 <<< 24) ||| ((bytes.getD (start + 1) 0).toUInt32 <<< 16)
    ||| ((bytes.getD (start + 2) 0).toUInt32 <<< 8) ||| (bytes.getD (start + 3) 0).toUInt32

/-- Block number `n` of a padded message. -/
def blockAt (bytes : Array UInt8) (n : Nat) : Vector UInt32 16 :=
  Vector.ofFn fun i => wordAt bytes (64 * n + 4 * i)

/-- The chaining value after the whole message. -/
def chain (message : Array UInt8) : Vector UInt32 8 :=
  let bytes := pad message
  (List.range (bytes.size / 64)).foldl (fun v n => compress v (blockAt bytes n)) initial

/-- The thirty-two bytes of the digest, each word most significant byte first. -/
def digest (message : Array UInt8) : Vector UInt8 32 :=
  let words := chain message
  Vector.ofFn fun i => (words[i.val / 4] >>> UInt32.ofNat (8 * (3 - i.val % 4))).toUInt8

end Chip8.Sha256
