import Chip8.Random.ChaCha

/-!
Where random words come from: a fixed endless sequence and how many of its words are spent.
-/

namespace Chip8

/-- An endless sequence of words, and how many of them were drawn. -/
structure RandomSource where
  /-- The sequence, by position. -/
  word : Nat → UInt32
  /-- How many words were drawn, so also the position of the next one. -/
  drawn : Nat := 0

namespace RandomSource

/-- The next word, and the source after it. -/
def next (source : RandomSource) : UInt32 × RandomSource :=
  (source.word source.drawn, { source with drawn := source.drawn + 1 })

/-- The reproducible source of a seed. -/
def ofSeed (seed : UInt64) : RandomSource :=
  let key := Random.ChaCha.key seed
  { word := fun n => Random.ChaCha.word key n }

/-- The given words over and over, or zeros if there are none. -/
def cycle (words : Array UInt32) : RandomSource :=
  { word := fun n => words.getD (n % words.size) 0 }

end RandomSource

end Chip8
